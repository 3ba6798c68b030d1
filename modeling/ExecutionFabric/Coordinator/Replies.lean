import ExecutionFabric.Coordinator.Delivery
import ExecutionFabric.Coordinator.Requests

/-!
What a frame is answered with.

Apart from a ticket that goes to a worker, a turn sends at most one message: the
reply to its entry, on the connection the entry came from. Its type is read off
the frame (`replyTo`), and it is sent exactly if the connection is still in the
table and the engine did not throw (`Turn.decide_replies`).
-/

namespace ExecutionFabric

open Collections StepMachine

/-- There is a connection object under that number. -/
def Coordinator.connected (k : Coordinator) (c : ℕ) : Bool :=
  (k.conns.lookup c).any (·.connected)

/-- The type of the reply to a frame. A payload that cannot be unpacked gets
none. -/
def replyTo (type : MsgType) (payload : ByteString) : Option MsgType :=
  match type with
  | .hello => (unpackHello payload).toOption.map fun _ => .welcome
  | .registerWorker => some .registerAck
  | .submit => (unpackSubmit payload).toOption.map fun _ => .submitAck
  | .dispatch => (unpackDispatch payload).toOption.map fun _ => .dispatchAck
  | .start => (unpackStart payload).toOption.map fun _ => .completeAck
  | .complete => (unpackComplete payload).toOption.map fun _ => .completeAck
  | .cancel => (unpackCancel payload).toOption.map fun _ => .cancelAck
  | .preempt => (unpackCancel payload).toOption.map fun _ => .preemptAck
  | .ackPreempt => (unpackAckPreempt payload).toOption.map fun _ => .preemptAck
  | .markResumable => (unpackMarkResumable payload).toOption.map fun _ => .preemptAck
  | .resume => (unpackResume payload).toOption.map fun _ => .resumeAck
  | .workerLost => (unpackWorkerLost payload).toOption.map fun _ => .completeAck
  | .query => (unpackQuery payload).toOption.map fun _ => .queryResponse
  | .ping => some .pong
  | _ => none

namespace Turn

/-- What the turn has sent, tickets apart. -/
def replies (t : Turn) : List Sent := t.sent.filter fun m => m.type ≠ .workerDispatch

/-- The turn so far, started on `k`: nothing was replied, and the connections are
what they were. -/
structure Pending (k : Coordinator) (t : Turn) : Prop where
  replies : t.replies = []
  connected : ∀ c, t.coordinator.connected c = k.connected c
  alive : t.coordinator.alive = true

/-- The turn, started on `k`, replies to `conn` with the type `reply`. -/
structure RepliesWith (k : Coordinator) (conn : ℕ) (reply : Option MsgType) (t : Turn) :
    Prop where
  replies : (t.replies.map fun m => (m.conn, m.type)) =
    if k.connected conn && t.coordinator.alive then reply.toList.map fun r => (conn, r) else []
  connected : ∀ c, t.coordinator.connected c = k.connected c

section

variable {k : Coordinator} {t : Turn} {conn : ℕ}

theorem Pending.start (halive : k.alive = true) : Pending k { coordinator := k } :=
  ⟨rfl, fun _ => rfl, halive⟩

theorem Pending.call (h : Pending k t) (c : Call) : Pending k (t.call c) :=
  ⟨h.replies, h.connected, h.alive⟩

theorem Pending.persist (h : Pending k t) : Pending k t.persist where
  replies := by rw [Turn.replies, persist_sent]; exact h.replies
  connected := by
    intro c
    rw [← h.connected c]
    unfold Turn.persist
    split <;> rfl
  alive := by rw [persist_alive]; exact h.alive

theorem Pending.modifyConn (h : Pending k t) (c : ℕ) {f : ConnEntry → ConnEntry}
    (hf : ∀ entry, (f entry).connected = entry.connected) : Pending k (t.modifyConn c f) where
  replies := h.replies
  connected := by
    intro d
    rw [← h.connected d]
    by_cases hd : d = c
    · subst hd
      cases hentry : t.coordinator.conns.lookup d with
      | none => simp [Coordinator.connected, Turn.modifyConn, hentry, hf]
      | some entry => simp [Coordinator.connected, Turn.modifyConn, hentry, hf]
    · simp [Coordinator.connected, Turn.modifyConn, Finmap.lookup_insert_of_ne _ hd]
  alive := h.alive

theorem Pending.ticket (h : Pending k t) (c : ℕ) (message : Message) :
    Pending k (t.send c .workerDispatch message) where
  replies := by
    unfold Turn.send Turn.replies
    split
    · rw [List.filter_append]
      exact (List.append_nil _).trans h.replies
    · exact h.replies
  connected := by rw [send_coordinator]; exact h.connected
  alive := by rw [send_coordinator]; exact h.alive

theorem Pending.assign (h : Pending k t) (worker : ℕ) (ticket : DispatchTicket) :
    Pending k (t.assign worker ticket) := by
  unfold Turn.assign
  refine Pending.persist (Pending.ticket ?_ _ _)
  split
  · exact h.modifyConn worker fun _ => rfl
  · exact h

/-- The reply. -/
theorem Pending.reply (h : Pending k t) (conn : ℕ) {type : MsgType}
    (htype : type ≠ .workerDispatch) (message : Message) :
    RepliesWith k conn (some type) (t.send conn type message) where
  replies := by
    have hconn : ((t.coordinator.conns.lookup conn).any (·.connected)) = k.connected conn :=
      h.connected conn
    rw [send_coordinator, h.alive, Bool.and_true]
    unfold Turn.send Turn.replies
    rw [hconn]
    split
    · have hnone : t.sent.filter (fun m => m.type ≠ .workerDispatch) = [] := h.replies
      rw [List.filter_append, hnone]
      simp [htype]
    · exact congrArg _ h.replies
  connected := by rw [send_coordinator]; exact h.connected

/-- No reply, where there is none. -/
theorem Pending.silent (h : Pending k t) (conn : ℕ) : RepliesWith k conn none t where
  replies := by
    rw [h.replies]
    split <;> rfl
  connected := h.connected

/-- No reply, where the thread has ended. -/
theorem Pending.crashed (h : Pending k t) (conn : ℕ) (reply : Option MsgType) :
    RepliesWith k conn reply t.crash where
  replies := by
    have hnone : t.crash.replies = [] := h.replies
    rw [hnone, if_neg]
    · rfl
    · rw [show t.crash.coordinator.alive = false from rfl, Bool.and_false]
      exact Bool.false_ne_true
  connected := h.connected

theorem Pending.given {α : Type} (h : Pending k t) {unpacked : Except ByteString α}
    {handle : α → Turn} {type : MsgType}
    (hhandle : ∀ p, RepliesWith k conn (some type) (handle p)) :
    RepliesWith k conn (unpacked.toOption.map fun _ => type) (t.given unpacked handle) := by
  cases unpacked with
  | error _ => exact h.silent conn
  | ok p => exact hhandle p

/-! ### The branches -/

theorem Pending.onControl (h : Pending k t) (conn : ℕ) (amb : Ambient) (op : Op) {reply : MsgType}
    (hreply : reply ≠ .workerDispatch) :
    RepliesWith k conn (some reply) (t.onControl conn amb op reply) :=
  (h.call _).persist.reply conn hreply _

theorem Pending.onSubmit (h : Pending k t) (conn : ℕ) (amb : Ambient) (sp : SubmitPayload) :
    RepliesWith k conn (some .submitAck) (t.onSubmit conn amb sp) := by
  unfold Turn.onSubmit
  dsimp only
  split
  · split
    · exact ((h.call _).call _).crashed conn _
    · exact ((h.call _).call _).persist.reply conn (by decide) _
  · exact (h.call _).persist.reply conn (by decide) _

theorem Pending.onDispatch (h : Pending k t) (conn : ℕ) (amb : Ambient) (order : List ℕ)
    (dp : DispatchRequestPayload) :
    RepliesWith k conn (some .dispatchAck) (t.onDispatch conn amb order dp) := by
  unfold Turn.onDispatch
  dsimp only
  split
  · exact h.reply conn (by decide) _
  · split
    · exact (h.call _).crashed conn _
    · split
      · exact ((h.call _).assign _ _).reply conn (by decide) _
      · exact (h.call _).reply conn (by decide) _

theorem Pending.onComplete (h : Pending k t) (conn : ℕ) (amb : Ambient) (cp : CompletePayload) :
    RepliesWith k conn (some .completeAck) (t.onComplete conn amb cp) := by
  unfold Turn.onComplete
  dsimp only
  split
  · exact (h.call _).persist.reply conn (by decide) _
  · exact (h.call _).reply conn (by decide) _

theorem Pending.onResume (h : Pending k t) (conn : ℕ) (amb : Ambient) (order : List ℕ)
    (rp : ResumeRequestPayload) :
    RepliesWith k conn (some .resumeAck) (t.onResume conn amb order rp) := by
  unfold Turn.onResume
  dsimp only
  refine Pending.reply ?_ conn (by decide) _
  split
  · exact ((h.call _).ticket _ _).persist
  · exact h.call _

theorem Pending.handleFrame (h : Pending k t) (conn : ℕ) (type : MsgType) (payload : ByteString)
    (amb : Ambient) (order : List ℕ) :
    RepliesWith k conn (replyTo type payload) (t.handleFrame conn type payload amb order) := by
  have hcomplete : MsgType.completeAck ≠ .workerDispatch := by decide
  have hcancel : MsgType.cancelAck ≠ .workerDispatch := by decide
  have hpreempt : MsgType.preemptAck ≠ .workerDispatch := by decide
  unfold Turn.handleFrame
  cases type
  case hello =>
    refine h.given fun hp => ?_
    unfold Turn.onHello
    refine Pending.reply ?_ conn (by decide) _
    exact h.modifyConn conn fun _ => rfl
  case registerWorker => exact h.reply conn (by decide) _
  case submit => exact h.given fun sp => h.onSubmit conn amb sp
  case dispatch => exact h.given fun dp => h.onDispatch conn amb order dp
  case start => exact h.given fun ticket => (h.call _).reply conn hcomplete _
  case complete => exact h.given fun cp => h.onComplete conn amb cp
  case cancel => exact h.given fun req => h.onControl conn amb _ hcancel
  case preempt => exact h.given fun req => h.onControl conn amb _ hpreempt
  case ackPreempt => exact h.given fun ap => h.onControl conn amb _ hpreempt
  case markResumable => exact h.given fun mp => h.onControl conn amb _ hpreempt
  case resume => exact h.given fun rp => h.onResume conn amb order rp
  case workerLost => exact h.given fun wp => h.onControl conn amb _ hcomplete
  case query => exact h.given fun id => h.reply conn (by decide) _
  case ping => exact h.reply conn (by decide) _
  case shutdown => exact ⟨(h.silent conn).replies, h.connected⟩
  all_goals exact h.silent conn

theorem conns_onConnClosed (k : Coordinator) (conn : ℕ) (amb : Ambient) :
    (Turn.onConnClosed { coordinator := k } conn amb).coordinator.conns = k.conns.erase conn := by
  unfold Turn.onConnClosed
  split
  · rename_i hnone
    refine Finmap.ext_lookup fun c => ?_
    by_cases hc : c = conn
    · rw [hc, Finmap.lookup_erase]
      exact hnone
    · rw [Finmap.lookup_erase_ne hc]
  · dsimp only
    split
    · split
      · exact (persist_frame _).2
      · rfl
    · rfl

/-- The closing of a connection is not replied to. -/
theorem onConnClosed_replies (k : Coordinator) (conn : ℕ) (amb : Ambient) :
    (Turn.onConnClosed { coordinator := k } conn amb).replies = [] := by
  unfold Turn.onConnClosed
  split
  · rfl
  · dsimp only
    split
    · split
      · rw [replies, persist_sent]
        rfl
      · rfl
    · rfl

/-- What the turn of an entry sends, tickets apart, and which connections it leaves. -/
theorem decide_replies (halive : k.alive = true) (conn : ℕ) (type : MsgType)
    (payload : ByteString) (amb : Ambient) (order : List ℕ) :
    ((decide { coordinator := k } conn type payload amb order).replies.map
        fun m => (m.conn, m.type)) =
      (if k.connected conn &&
          (decide { coordinator := k } conn type payload amb order).coordinator.alive then
        (replyTo type payload).toList.map fun r => (conn, r) else []) ∧
      ∀ c, (decide { coordinator := k } conn type payload amb order).coordinator.connected c =
        (k.connected c && !(c == conn && type = .shutdown && payload = closedMarker)) := by
  unfold decide
  split
  · rename_i hmarker
    refine ⟨?_, fun c => ?_⟩
    · rw [onConnClosed_replies, hmarker.1]
      split <;> rfl
    · rw [Coordinator.connected, conns_onConnClosed]
      by_cases hc : c = conn
      · rw [hc, Finmap.lookup_erase]
        simp [hmarker]
      · simp [hc, Coordinator.connected, Finmap.lookup_erase_ne hc]
  · rename_i hmarker
    have hreplies := (Pending.start halive).handleFrame conn type payload amb order
    refine ⟨hreplies.replies, fun c => ?_⟩
    rw [hreplies.connected]
    by_cases htype : type = .shutdown <;> by_cases hpayload : payload = closedMarker <;> simp_all

end

end Turn

end ExecutionFabric
