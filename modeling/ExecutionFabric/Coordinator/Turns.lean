import ExecutionFabric.Coordinator
import ExecutionFabric.Engine.Run

/-!
What handling one entry of the queue does to the engine and to the file.

Every branch asks the engine first and saves afterwards, if it saves. So a
turn is a run of the engine, during which the file stays as it was
(`Turn.Asks`), and then perhaps a snapshot of the state the run ended in
(`Turn.Handles`). `Turn.handles` is the only place where the branches are
gone through.
-/

namespace ExecutionFabric

open Collections StepMachine

/-- Neither a cancellation nor a supersession. -/
def Op.plain : Op → Bool
  | .cancel _ => false
  | .supersede _ _ => false
  | _ => true

/-- The file holds a snapshot of the engine as it is. -/
def Coordinator.Saved (k : Coordinator) : Prop :=
  k.file = some (save k.engine.recordList k.epoch)

namespace Coordinator

variable (persistent : Bool) (file : Option ByteString) (epoch : CoordinatorEpoch)

@[simp] theorem construct_persistent :
    (construct persistent file epoch).persistent = persistent := by
  simp only [construct]
  repeat' split
  all_goals rfl

/-- Starting does not touch the file. -/
@[simp] theorem construct_file : (construct persistent file epoch).file = file := by
  simp only [construct]
  repeat' split
  all_goals rfl

end Coordinator

namespace Turn

/-! ### The steps of a turn -/

section

variable (t : Turn) (conn : ℕ) (type : MsgType) (message : Message)

@[simp] theorem send_coordinator : (t.send conn type message).coordinator = t.coordinator := by
  unfold send
  split <;> rfl

@[simp] theorem send_calls : (t.send conn type message).calls = t.calls := by
  unfold send
  split <;> rfl

theorem mem_send {m : Sent} (hm : m ∈ (t.send conn type message).sent) :
    m ∈ t.sent ∨ m = { conn, type, message } := by
  unfold send at hm
  split at hm
  · simpa using hm
  · exact .inl hm

@[simp] theorem persist_engine : t.persist.coordinator.engine = t.coordinator.engine := by
  unfold persist
  split <;> rfl

@[simp] theorem persist_persistent :
    t.persist.coordinator.persistent = t.coordinator.persistent := by
  unfold persist
  split <;> rfl

@[simp] theorem persist_calls : t.persist.calls = t.calls := by
  unfold persist
  split <;> rfl

@[simp] theorem persist_sent : t.persist.sent = t.sent := by
  unfold persist
  split <;> rfl

theorem persist_saved (h : t.coordinator.persistent = true) : t.persist.coordinator.Saved := by
  simp [persist, h, Coordinator.Saved]

theorem persist_file_or :
    t.persist.coordinator.file = t.coordinator.file ∨ t.persist.coordinator.Saved := by
  by_cases h : t.coordinator.persistent = true
  · exact .inr (t.persist_saved h)
  · exact .inl (by simp [persist, h])

end

/-! ### Asking, then saving -/

/-- The turn so far, started on `k`: a run of the engine, and nothing saved. -/
structure Asks (G : ExecutionEngine → Call → Prop) (k : Coordinator) (t : Turn) : Prop where
  ran : Runs engine G k.engine t.calls t.coordinator.engine
  persistent : t.coordinator.persistent = k.persistent
  file : t.coordinator.file = k.file

/-- The turn so far, started on `k`: a run of the engine, saved at its end or
not at all. -/
structure Handles (G : ExecutionEngine → Call → Prop) (k : Coordinator) (t : Turn) : Prop where
  ran : Runs engine G k.engine t.calls t.coordinator.engine
  persistent : t.coordinator.persistent = k.persistent
  file : t.coordinator.file = k.file ∨ t.coordinator.Saved

variable {G : ExecutionEngine → Call → Prop} {k : Coordinator} {t : Turn}

theorem Asks.start (k : Coordinator) : Asks G k { coordinator := k } := ⟨.refl, rfl, rfl⟩

theorem Asks.call (h : Asks G k t) {c : Call} (hG : G t.coordinator.engine c) :
    Asks G k (t.call c) :=
  ⟨h.ran.snoc c hG, h.persistent, h.file⟩

theorem Asks.crash (h : Asks G k t) : Asks G k t.crash := ⟨h.ran, h.persistent, h.file⟩

theorem Asks.modifyConn (h : Asks G k t) (conn : ℕ) (f : ConnEntry → ConnEntry) :
    Asks G k (t.modifyConn conn f) :=
  ⟨h.ran, h.persistent, h.file⟩

theorem Asks.send (h : Asks G k t) (conn : ℕ) (type : MsgType) (message : Message) :
    Asks G k (t.send conn type message) := by
  refine ⟨?_, ?_, ?_⟩
  · simpa using h.ran
  · simpa using h.persistent
  · simpa using h.file

theorem Asks.handles (h : Asks G k t) : Handles G k t := ⟨h.ran, h.persistent, .inl h.file⟩

theorem Asks.persist (h : Asks G k t) : Handles G k t.persist where
  ran := by simpa using h.ran
  persistent := by simpa using h.persistent
  file := h.file ▸ t.persist_file_or

theorem Handles.send (h : Handles G k t) (conn : ℕ) (type : MsgType) (message : Message) :
    Handles G k (t.send conn type message) := by
  refine ⟨?_, ?_, ?_⟩
  · simpa using h.ran
  · simpa using h.persistent
  · simpa using h.file

/-- A payload that cannot be unpacked is ignored. -/
theorem Handles.given {α : Type} (h : Handles G k t) {unpacked : Except ByteString α}
    {handle : α → Turn} (hhandle : ∀ p, unpacked = .ok p → Handles G k (handle p)) :
    Handles G k (t.given unpacked handle) := by
  cases unpacked with
  | error _ => exact h
  | ok p => exact hhandle p rfl

/-! ### The branches -/

theorem Asks.onControl (h : Asks G k t) (conn : ℕ) (amb : Ambient) {op : Op} (reply : MsgType)
    (hG : G t.coordinator.engine ⟨op, amb⟩) : Handles G k (t.onControl conn amb op reply) :=
  (h.call hG).persist.send conn reply _

theorem Asks.assign (h : Asks G k t) (worker : ℕ) (ticket : DispatchTicket) :
    Handles G k (t.assign worker ticket) := by
  unfold Turn.assign
  refine Asks.persist (Asks.send ?_ worker .workerDispatch _)
  split
  · exact h.modifyConn _ _
  · exact h

section

variable (hplain : ∀ s c, c.op.plain = true → G s c)
include hplain

theorem Asks.onSubmit (h : Asks G k t) (conn : ℕ) (amb : Ambient) (sp : SubmitPayload) :
    Handles G k (t.onSubmit conn amb sp) := by
  have hcreate : Asks G k (t.call ⟨.create sp.executionId sp.epoch, amb⟩) :=
    h.call (hplain _ _ rfl)
  unfold Turn.onSubmit
  dsimp only
  split
  · have hactivate := hcreate.call (c := ⟨.activate sp.executionId sp.epoch, amb⟩)
      (hplain _ _ rfl)
    split
    · exact hactivate.crash.handles
    · exact hactivate.persist.send _ _ _
  · exact hcreate.persist.send _ _ _

theorem Asks.onDispatch (h : Asks G k t) (conn : ℕ) (amb : Ambient) (order : List ℕ)
    (dp : DispatchRequestPayload) : Handles G k (t.onDispatch conn amb order dp) := by
  have hcall : Asks G k (t.call
      ⟨.dispatch dp.executionId dp.workerId dp.workerBootId dp.epoch, amb⟩) :=
    h.call (hplain _ _ rfl)
  unfold Turn.onDispatch
  dsimp only
  split
  · exact (h.send _ _ _).handles
  · split
    · exact hcall.crash.handles
    · split
      · exact (hcall.assign _ _).send _ _ _
      · exact (hcall.send _ _ _).handles

theorem Asks.onStart (h : Asks G k t) (conn : ℕ) (amb : Ambient) (ticket : StartTicket) :
    Handles G k (t.onStart conn amb ticket) :=
  ((h.call (hplain _ _ rfl)).send _ _ _).handles

theorem Asks.onComplete (h : Asks G k t) (conn : ℕ) (amb : Ambient) (cp : CompletePayload) :
    Handles G k (t.onComplete conn amb cp) := by
  have hcall : Asks G k (t.call ⟨.complete (CompletePayload.filled cp), amb⟩) :=
    h.call (hplain _ _ rfl)
  unfold Turn.onComplete
  dsimp only
  split
  · exact hcall.persist.send _ _ _
  · exact (hcall.send _ _ _).handles

theorem Asks.onResume (h : Asks G k t) (conn : ℕ) (amb : Ambient) (order : List ℕ)
    (rp : ResumeRequestPayload) : Handles G k (t.onResume conn amb order rp) := by
  have hcall : Asks G k (t.call
      ⟨.resume rp.executionId rp.workerId rp.workerBootId rp.epoch rp.resumeGen, amb⟩) :=
    h.call (hplain _ _ rfl)
  unfold Turn.onResume
  dsimp only
  refine Handles.send ?_ _ _ _
  split
  · exact (hcall.send _ _ _).persist
  · exact hcall.handles

theorem Asks.onConnClosed (h : Asks G k t) (conn : ℕ) (amb : Ambient) :
    Handles G k (t.onConnClosed conn amb) := by
  unfold Turn.onConnClosed
  split
  · exact h.handles
  · rename_i entry _
    have herase : Asks G k { t with
        coordinator := { t.coordinator with conns := t.coordinator.conns.erase conn } } :=
      ⟨h.ran, h.persistent, h.file⟩
    dsimp only
    split
    · split
      · exact (herase.call (hplain _ _ rfl)).persist
      · exact herase.handles
    · exact herase.handles

/-- Every entry of the queue is a run of the engine and at most one snapshot.
Of the calls it makes, only a cancellation has to be looked at. -/
theorem handles (k : Coordinator) (conn : ℕ) (type : MsgType) (payload : ByteString)
    (amb : Ambient) (order : List ℕ)
    (hcancel : ∀ req, type = .cancel → unpackCancel payload = .ok req →
      G k.engine ⟨.cancel req, amb⟩) :
    Handles G k (decide { coordinator := k } conn type payload amb order) := by
  have hstart : Asks G k { coordinator := k } := .start k
  unfold decide
  split
  · exact hstart.onConnClosed hplain conn amb
  · unfold handleFrame
    cases type
    case hello => exact hstart.handles.given fun p _ => ((hstart.modifyConn _ _).send _ _ _).handles
    case registerWorker => exact (hstart.send _ _ _).handles
    case submit => exact hstart.handles.given fun p _ => hstart.onSubmit hplain conn amb p
    case dispatch =>
      exact hstart.handles.given fun p _ => hstart.onDispatch hplain conn amb order p
    case start => exact hstart.handles.given fun p _ => hstart.onStart hplain conn amb p
    case complete => exact hstart.handles.given fun p _ => hstart.onComplete hplain conn amb p
    case cancel =>
      exact hstart.handles.given fun req hreq =>
        hstart.onControl conn amb .cancelAck (hcancel req rfl hreq)
    case preempt =>
      exact hstart.handles.given fun p _ => hstart.onControl conn amb .preemptAck (hplain _ _ rfl)
    case ackPreempt =>
      exact hstart.handles.given fun p _ => hstart.onControl conn amb .preemptAck (hplain _ _ rfl)
    case markResumable =>
      exact hstart.handles.given fun p _ => hstart.onControl conn amb .preemptAck (hplain _ _ rfl)
    case resume => exact hstart.handles.given fun p _ => hstart.onResume hplain conn amb order p
    case workerLost =>
      exact hstart.handles.given fun p _ => hstart.onControl conn amb .completeAck (hplain _ _ rfl)
    case query => exact hstart.handles.given fun p _ => (hstart.send _ _ _).handles
    case ping => exact (hstart.send _ _ _).handles
    case shutdown => exact ⟨hstart.ran, hstart.persistent, .inl hstart.file⟩
    all_goals exact hstart.handles

end

end Turn

/-! ### The machine -/

section

variable {k : Coordinator} {conn : ℕ} {type : MsgType} {payload : ByteString} {amb : Ambient}
  {order : List ℕ}

theorem next_of_alive (h : k.alive = true) :
    coordinator.next k (.inbound conn type payload amb order) =
      (Turn.decide { coordinator := k } conn type payload amb order).coordinator :=
  congrArg Prod.fst (if_pos h)

/-- Without the decision thread nothing is handled. -/
theorem next_of_dead (h : ¬k.alive = true) :
    coordinator.next k (.inbound conn type payload amb order) = k :=
  congrArg Prod.fst (if_neg h)

end

/-! ### Sample frames -/

namespace Sample

def inbound (type : MsgType) (payload : ByteString) (n : UInt64 := 0) : Event :=
  .inbound 1 type payload (ambient n) []

/-- A worker connects. -/
def connecting : List Event :=
  [.accept,
    inbound .hello (packHello
      { role := 1, protocolVersion := 1, workerId := worker, workerBootId := boot, tag := [] })]

/-- An execution is submitted. -/
def submitFrame (id : ExecutionId) (e : UInt64) : Event :=
  inbound .submit (packSubmit { executionId := id, epoch := ⟨e⟩ })

/-- The request to dispatch an execution to that worker. -/
def dispatchRequest (id : ExecutionId) (e : UInt64) : DispatchRequestPayload where
  executionId := id
  epoch := ⟨e⟩
  workerId := worker
  workerBootId := boot

def dispatchFrame (id : ExecutionId) (n e : UInt64) : Event :=
  inbound .dispatch (packDispatch (dispatchRequest id e)) n

/-- The worker starts the attempt made from the identifiers of `n`. -/
def startFrame (n e : UInt64) : Event := inbound .start (packStart (ticket n e).start)

/-- A worker connects and gets the execution `execution` submitted, dispatched
under the identifiers of `n`, and completed with the digest `d`. -/
def serving (n e : UInt64) (d : UInt8) : List Event :=
  [.accept,
    inbound .hello (packHello
      { role := 1, protocolVersion := 1, workerId := worker, workerBootId := boot, tag := [] }),
    inbound .submit (packSubmit { executionId := execution, epoch := ⟨e⟩ }),
    inbound .dispatch (packDispatch
      { executionId := execution, epoch := ⟨e⟩, workerId := worker, workerBootId := boot }) n,
    inbound .complete (packComplete
      { ticket := (ticket n e).completion (digest d), result := [] })]

/-- Another execution is submitted and cancelled before its first dispatch. -/
def withdrawing : List Event :=
  [inbound .submit (packSubmit { executionId := sampleId 2, epoch := ⟨1⟩ }),
    inbound .cancel (packCancel
      { cancelRequest with executionId := sampleId 2, authorityGeneration := ⟨1⟩ })]

end Sample

end ExecutionFabric
