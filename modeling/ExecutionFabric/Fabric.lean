import ExecutionFabric.Coordinator.Closing
import ExecutionFabric.Coordinator.Tickets
import ExecutionFabric.Engine.Commit
import ExecutionFabric.Controller

/-!
The fabric: a coordinator process, and the programs at the other ends of its
connections.

What is between the coordinator and another program are two connections as in
`channel_exact`, and the program is that of a worker or of a controller; the rest
of the world may send what it likes (`Process.Wired`). Then nothing is made up on
the way: what is committed for an execution is the digest that came in a
`COMPLETE`, and if that came from a worker, it is the digest of what this worker
computed for a ticket which the engine issued for this execution and this worker
(`committed_computed`).
-/

namespace ExecutionFabric

open Reading StepMachine

/-- The payload of a message. `unset` is what a state that was never set holds. -/
def Message.pack (unset : UInt8) : Message → ByteString
  | welcome p => packWelcome p
  | registerAck p => packRegisterAck p
  | submitAck p => packSubmitAck unset p
  | dispatchAck p => packDispatchAck p
  | workerDispatch p => packWorkerDispatch p
  | completeAck p => packCompleteAck p
  | decision d => packDecision d
  | queryResponse p => packQueryResponse unset p
  | pong payload => payload

/-- The frame of a message. -/
def Sent.frame (unset : UInt8) (m : Sent) : DecodedFrame := ⟨m.type, m.message.pack unset⟩

namespace Process

/-- The frames sent on a connection. -/
def sentOn (unset : UInt8) (c : ℕ) (h : List (Event × Option Handled)) : List DecodedFrame :=
  h.flatMap fun x => x.2.toList.flatMap fun y =>
    (y.turn.sent.filter fun m => m.conn = c).map (Sent.frame unset)

/-- The frames received on a connection. -/
def receivedOn (c : ℕ) (p : Process) (evs : List Event) : List DecodedFrame :=
  ((ofConn c (p.arrivals evs)).filter fun i => i.producer = .receiver).map fun i =>
    ⟨i.type, i.payload⟩

/-- The calls of the engine in a history. -/
def calls (h : List (Event × Option Handled)) : History :=
  h.flatMap fun x => x.2.toList.flatMap fun y => y.turn.calls

end Process

/-! ### The other ends -/

/-- A program at the other end of a connection. -/
inductive Peer
  | worker (runtime : WorkerRuntime) (loads : ℕ → Bool) (bounded : runtime.Bounded)
  | client (driver : Controller.Driver) (bounded : ∀ x, (driver x).Bounded)

namespace Peer

/-- What it writes. -/
def written : Peer → TcpConnection → ByteString
  | worker runtime loads _, conn => (runtime.workerMain (.ok conn) loads).2.conn.written
  | client driver _, conn => (Controller.clientMain driver (.ok conn)).2.conn.written

/-- What it says upon the frames that it receives. -/
def speaks : Peer → List DecodedFrame → List DecodedFrame
  | worker runtime loads _ => runtime.conversation loads
  | client driver _ => Controller.conversation driver

theorem written_said (peer : Peer) {conn : TcpConnection} (hnew : conn.written = [])
    (hgood : FailsForGood conn.outlet) :
    ∃ said, said <+: peer.speaks (receiveAll conn.socket) ∧
      peer.written conn = (sendFrames said conn.outlet).written := by
  cases peer with
  | worker runtime loads _ => exact runtime.workerMain_said loads hnew
  | client driver _ =>
      obtain ⟨said, hsaid, hwritten⟩ := (Controller.clientMain_wrote driver hgood).said
      exact ⟨said, hsaid, by rw [written, hwritten, hnew, List.nil_append]⟩

theorem speaks_size (peer : Peer) {got : List DecodedFrame}
    (hsize : ∀ f ∈ got, f.payload.length ≤ maxPayload.toNat) :
    ∀ f ∈ peer.speaks got, f.payload.length ≤ maxPayload.toNat := by
  cases peer with
  | worker runtime loads bounded =>
      exact WorkerRuntime.conversation_size loads bounded hsize
  | client driver bounded => exact Controller.conversation_size bounded got

end Peer

/-- The two connections between the coordinator and another program. `sent` is what
the coordinator sends, `received` what it receives. -/
structure Link (peer : Peer) (sent received : List DecodedFrame) where
  outlet : Outlet
  conn : TcpConnection
  socket : Socket
  size : ∀ f ∈ sent, f.payload.length ≤ maxPayload.toNat
  good : FailsForGood outlet
  good' : FailsForGood conn.outlet
  new : conn.written = []
  down : stream conn.socket <+: (sendFrames sent outlet).written
  up : stream socket <+: peer.written conn
  arrived : received <+: receiveAll socket

/-- What is received is what the program says to the beginning of what is sent. -/
theorem Link.said {peer : Peer} {sent received : List DecodedFrame} (l : Link peer sent received) :
    ∃ got, got <+: sent ∧ received <+: peer.speaks got := by
  obtain ⟨got, hgot, hsaid⟩ := received_said l.size l.good l.good' l.down
    peer.speaks_size (peer.written_said l.new l.good') l.up
  exact ⟨got, hgot, l.arrived.trans hsaid⟩

/-- What is at the other end of each connection: a program, or anything. -/
abbrev World := ℕ → Option Peer

namespace Process

/-- At every moment of the run, what was received from a program came over its
connections. -/
def Wired (unset : UInt8) (world : World) (p : Process) (evs : List Event) : Prop :=
  ∀ before, before <+: evs → ∀ c peer, world c = some peer →
    Nonempty (Link peer (sentOn unset c (process.trace p before)) (receivedOn c p before))

end Process

/-! ### Workers -/

namespace WorkerRuntime

variable {w : WorkerRuntime} {loads : ℕ → Bool} {frames : List DecodedFrame} {g : DecodedFrame}

/-- What is said about who the worker is, is true. -/
theorem hello_of_said (hg : g ∈ w.conversation loads frames) (htype : g.type = .hello) :
    unpackHello g.payload = .ok
      { role := 1
        protocolVersion := frameVersion
        workerId := w.workerId
        workerBootId := w.boot
        tag := text "EF-worker" } := by
  have htag : (text "EF-worker").length ≤ ByteReader.maxString := by decide +kernel
  rcases mem_conversation hg with rfl | ⟨f, -, hg⟩
  · exact (carries_hello htag).whole
  · unfold answer at hg
    split at hg
    · rw [List.mem_singleton.1 hg] at htype
      cases htype
    · obtain ⟨wdp, -, hreport⟩ := List.mem_flatMap.1 hg
      rcases List.mem_pair.1 hreport with rfl | rfl <;> cases htype

theorem ticketIn_some {f : DecodedFrame} {wdp : WorkerDispatchPayload} (h : ticketIn f = some wdp) :
    f.type = .workerDispatch ∧ unpackWorkerDispatch f.payload = .ok wdp := by
  unfold ticketIn at h
  split at h
  · rename_i htype
    exact ⟨htype, eq_ok_of_toOption h⟩
  · cases h

/-- What is reported is reported of a ticket that was received. -/
theorem report_of_said (hg : g ∈ w.conversation loads frames)
    (htype : g.type = .start ∨ g.type = .complete) :
    ∃ f ∈ frames, ∃ wdp, ticketIn f = some wdp ∧ g ∈ w.report wdp := by
  rcases mem_conversation hg with rfl | ⟨f, hf, hg⟩
  · rcases htype with h | h <;> cases h
  · unfold answer at hg
    split at hg
    · rw [List.mem_singleton.1 hg] at htype
      rcases htype with h | h <;> cases h
    · obtain ⟨wdp, hwdp, hreport⟩ := List.mem_flatMap.1 hg
      exact ⟨f, hf, wdp, Option.mem_toList.1 hwdp, hreport⟩

theorem payload_of_report {wdp : WorkerDispatchPayload} (hg : g ∈ w.report wdp) :
    (g.type = .start → g.payload = packStart wdp.ticket.start) ∧
      (g.type = .complete → g.payload = packComplete (w.completion wdp)) := by
  rcases List.mem_pair.1 hg with rfl | rfl
  · exact ⟨fun _ => rfl, fun h => MsgType.noConfusion h⟩
  · exact ⟨fun h => MsgType.noConfusion h, fun _ => rfl⟩

/-- The completion that is reported is taken as it is. -/
theorem completion_filled (w : WorkerRuntime) (wdp : WorkerDispatchPayload) :
    Turn.CompletePayload.filled (w.completion wdp) =
      wdp.ticket.completion (.ofBuffer (w.execute wdp)) := by
  unfold Turn.CompletePayload.filled
  split <;> rfl

end WorkerRuntime

/-! ### Where a commit comes from -/

namespace ExecutionEngine

variable {s : ExecutionEngine} {id : ExecutionId} {d : ResultDigest}

/-- A digest gets into the register of an execution with an accepted completion. -/
theorem ledger_next_or {c : Call} (h : (engine.next s c).ledger id = some d) :
    s.ledger id = some d ∨ ∃ t, c.op = .complete t ∧ t.executionId = id ∧ t.resultDigest = d := by
  cases hwrite : History.commitWrite (c, engine.out s c) with
  | none => exact .inl (ledger_next_of_open hwrite ▸ h)
  | some w =>
      obtain ⟨t, haccepted, rfl⟩ := Option.map_eq_some_iff.1 hwrite
      obtain ⟨hop, hallow⟩ := History.accepted_eq_some haccepted
      obtain ⟨r, -, -, -, -, -, hnext⟩ := complete_allows hop hallow
      by_cases hid : t.executionId = id
      · refine .inr ⟨t, hop, hid, ?_⟩
        rw [ledger, ← hid, hnext] at h
        exact Option.some.inj h
      · refine .inl ?_
        have hsame : (engine.next s c).find id = s.find id := by
          apply find_next_of_ne
          rw [hop]
          exact fun htarget => hid (Option.some.inj htarget)
        rwa [ledger, hsame] at h

theorem ledger_run_or {calls : List Call} (h : (engine.run s calls).ledger id = some d) :
    s.ledger id = some d ∨
      ∃ c ∈ calls, ∃ t, c.op = .complete t ∧ t.executionId = id ∧ t.resultDigest = d := by
  induction calls generalizing s with
  | nil => exact .inl h
  | cons c calls ih =>
      rcases ih h with h | ⟨c', hc', hcompletes⟩
      · rcases ledger_next_or h with h | hcompletes
        · exact .inl h
        · exact .inr ⟨c, List.mem_cons_self, hcompletes⟩
      · exact .inr ⟨c', List.mem_cons_of_mem c hc', hcompletes⟩

end ExecutionEngine

theorem mem_asked {α : Type} {unpacked : Except ByteString α} {calls : α → List Call} {c : Call}
    (hc : c ∈ asked unpacked calls) : ∃ p, unpacked = .ok p ∧ c ∈ calls p := by
  cases unpacked with
  | error _ => cases hc
  | ok p => exact ⟨p, rfl, hc⟩

/-- Only a `COMPLETE` asks for a completion. -/
theorem Coordinator.complete_of_requests {k : Coordinator} {conn : ℕ} {type : MsgType}
    {payload : ByteString} {amb : Ambient} {order : List ℕ} {c : Call} {t : CompletionTicket}
    (hc : c ∈ k.requests conn type payload amb order) (hop : c.op = .complete t) :
    type = .complete ∧ ∃ cp, unpackComplete payload = .ok cp ∧
      Turn.CompletePayload.filled cp = t := by
  unfold requests at hc
  split at hc
  · obtain ⟨lost, id, -, -, -, rfl⟩ := Process.mem_closing hc
    cases hop
  · cases type
    case complete =>
      obtain ⟨cp, hcp, hc⟩ := mem_asked hc
      rw [List.mem_singleton.1 hc] at hop
      exact ⟨rfl, cp, hcp, Op.complete.inj hop⟩
    case submit =>
      obtain ⟨sp, -, hc⟩ := mem_asked hc
      unfold submitting at hc
      split at hc <;> simp only [List.mem_cons, List.not_mem_nil, or_false] at hc
      · rcases hc with rfl | rfl <;> cases hop
      · rw [hc] at hop
        cases hop
    case dispatch =>
      obtain ⟨dp, -, hc⟩ := mem_asked hc
      split at hc
      · cases hc
      · rw [List.mem_singleton.1 hc] at hop
        cases hop
    case start | cancel | preempt | ackPreempt | markResumable | resume | workerLost =>
      obtain ⟨p, -, hc⟩ := mem_asked hc
      rw [List.mem_singleton.1 hc] at hop
      cases hop
    all_goals cases hc

namespace Process

variable {p : Process} {id : ExecutionId} {d : ResultDigest} {evs : List Event} {c : ℕ}

/-- The entry is a completion of the execution with that digest. -/
def Completes (i : Inbound) (id : ExecutionId) (d : ResultDigest) : Prop :=
  i.type = .complete ∧ ∃ cp, unpackComplete i.payload = .ok cp ∧
    (Turn.CompletePayload.filled cp).executionId = id ∧
    (Turn.CompletePayload.filled cp).resultDigest = d

/-- A digest gets into the register of an execution when a `COMPLETE` is handled. -/
theorem ledger_step_or {ev : Event}
    (h : (process.next p ev).coordinator.engine.ledger id = some d) :
    p.coordinator.engine.ledger id = some d ∨ ∃ i ∈ p.queue, Completes i id d := by
  have hmoves := p.step_moves ev
  change (p.step ev).1.coordinator.engine.ledger id = some d at h
  generalize p.step ev = y at hmoves h
  cases hmoves with
  | @decided i rest amb order hqueue htaken =>
      have hfollows := Turn.decide_follows p.coordinator i.conn i.type i.payload amb order
      change (p.turn i amb order).coordinator.engine.ledger id = some d at h
      rw [turn, hfollows.reached] at h
      rcases ExecutionEngine.ledger_run_or h with h | ⟨c, hc, t, hop, hid, hdigest⟩
      · exact .inl h
      · obtain ⟨htype, cp, hcp, hfilled⟩ := Coordinator.complete_of_requests hc hop
        refine .inr ⟨i, hqueue ▸ List.mem_cons_self, htype, cp, hcp, ?_⟩
        rw [hfilled]
        exact ⟨hid, hdigest⟩
  | _ => exact .inl h

theorem ledger_run_or (h : (process.run p evs).coordinator.engine.ledger id = some d) :
    p.coordinator.engine.ledger id = some d ∨
      ∃ before, before <+: evs ∧ ∃ i ∈ (process.run p before).queue, Completes i id d := by
  induction evs using List.reverseRecOn with
  | nil => exact .inl h
  | append_singleton evs ev ih =>
      rw [Machine.run_snoc] at h
      rcases ledger_step_or h with h | hcompletes
      · rcases ih h with h | ⟨before, hbefore, hi⟩
        · exact .inl h
        · exact .inr ⟨before, hbefore.trans (List.prefix_append _ _), hi⟩
      · exact .inr ⟨evs, List.prefix_append _ _, hcompletes⟩

/-- Only markers, and what wakes the decision thread, are put into the queue without
having been received. -/
theorem received_of_pushed {i : Inbound} {ev : Event} (hi : i ∈ p.pushes ev)
    (htype : i.type ≠ .shutdown) : i.producer = .receiver := by
  have hleaving : ∀ conn, i ∈ [p.leaving conn] → i.producer = .receiver := fun conn hmem => by
    rw [List.mem_singleton.1 hmem] at htype
    exact absurd rfl htype
  unfold pushes at hi
  split at hi
  · cases ev with
    | receives conn type payload =>
        dsimp only at hi
        split at hi
        · rw [List.mem_singleton.1 hi]
        · cases hi
    | readerChecks conn =>
        dsimp only at hi
        split at hi
        · exact hleaving conn hi
        · cases hi
    | recvFails conn =>
        dsimp only at hi
        split at hi
        · exact hleaving conn hi
        · cases hi
    | wakes =>
        dsimp only at hi
        split at hi
        · rw [List.mem_singleton.1 hi] at htype
          exact absurd rfl htype
        · cases hi
    | _ => cases hi
  · cases hi

theorem mem_receivedOn {i : Inbound} (hi : i ∈ p.arrivals evs) (htype : i.type ≠ .shutdown) :
    (⟨i.type, i.payload⟩ : DecodedFrame) ∈ receivedOn i.conn p evs := by
  obtain ⟨js, ev, -, hpushed⟩ := Machine.exists_of_mem_collect hi
  refine List.mem_map.2 ⟨i, List.mem_filter.2 ⟨List.mem_filter.2 ⟨hi, ?_⟩, ?_⟩, rfl⟩
  · exact decide_eq_true rfl
  · exact decide_eq_true (received_of_pushed hpushed htype)

/-- What waits and is no marker or wake-up was received. -/
theorem received_of_queue {persistent : Bool} {file : Option ByteString} {e₀ : CoordinatorEpoch}
    {i : Inbound} (hi : i ∈ (process.run (start persistent file e₀) evs).queue)
    (htype : i.type ≠ .shutdown) :
    (⟨i.type, i.payload⟩ : DecodedFrame) ∈ receivedOn i.conn (start persistent file e₀) evs := by
  apply mem_receivedOn _ htype
  have hall := queue_arrivals (start persistent file e₀) evs
  rw [← List.nil_append ((start persistent file e₀).arrivals evs)]
  exact hall ▸ List.mem_append_right _ hi

section

variable {persistent : Bool} {file : Option ByteString} {e₀ : CoordinatorEpoch} {unset : UInt8}
  {f : DecodedFrame}

/-- What a connection said last about itself was received. -/
theorem received_of_introduction {hp : HelloPayload}
    (h : introduction c (process.trace (start persistent file e₀) evs) = some hp) :
    ∃ f ∈ receivedOn c (start persistent file e₀) evs, f.type = .hello ∧
      unpackHello f.payload = .ok hp := by
  obtain ⟨i, hi, hhello⟩ := List.mem_filterMap.1 (List.mem_of_getLast? h)
  have hall : _ = ofConn c ((start persistent file e₀).arrivals evs) :=
    handledFrom_arrivals c (start persistent file e₀) evs
  have harrived := List.mem_filter.1 (hall ▸ List.mem_append_left _ hi)
  have htype : i.type = .hello := by
    by_contra hne
    rw [helloIn, if_neg hne] at hhello
    cases hhello
  rw [helloIn, if_pos htype] at hhello
  have hreceived := mem_receivedOn harrived.1 (by rw [htype]; decide)
  rw [of_decide_eq_true harrived.2] at hreceived
  exact ⟨_, hreceived, htype, eq_ok_of_toOption hhello⟩

/-- A ticket that was sent was issued, and its connection had said that it is the
worker. -/
theorem ticket_of_sentOn
    (hf : f ∈ sentOn unset c (process.trace (start persistent file e₀) evs))
    (htype : f.type = .workerDispatch) :
    ∃ wdp, f = ⟨.workerDispatch, packWorkerDispatch wdp⟩ ∧
      (∃ ev ∈ calls (process.trace (start persistent file e₀) evs),
        History.issue ev = some wdp.ticket) ∧
      ∃ before hp, before <+: evs ∧
        introduction c (process.trace (start persistent file e₀) before) = some hp ∧
        hp.role = 1 ∧ hp.workerId = wdp.ticket.workerId := by
  obtain ⟨x, hx, hsent⟩ := List.mem_flatMap.1 hf
  obtain ⟨y, hy, hsent⟩ := List.mem_flatMap.1 hsent
  obtain ⟨m, hm, rfl⟩ := List.mem_map.1 hsent
  obtain ⟨hm, hconn⟩ := List.mem_filter.1 hm
  obtain ⟨before, hbefore, hout⟩ := Machine.exists_of_mem_trace hx
  obtain ⟨amb, order, rest, -, -, -, hturn⟩ := out_some (hout.symm.trans (Option.mem_toList.1 hy))
  obtain ⟨p, hp, ⟨ev, hev, hissue⟩, hserves⟩ := Turn.decide_ticket (hturn ▸ hm) htype
  obtain ⟨said, hsaid, hrole, hid⟩ := introduction_of_serves persistent file e₀ before hserves
  have hframe : m.frame unset = ⟨.workerDispatch, packWorkerDispatch p⟩ := by
    rw [Sent.frame, show m.type = _ from htype, hp]
    rfl
  rw [of_decide_eq_true hconn] at hsaid
  refine ⟨p, hframe, ⟨ev, ?_, hissue⟩, before, said, (List.prefix_append _ _).trans hbefore,
    hsaid, hrole, hid⟩
  refine List.mem_flatMap.2 ⟨x, hx, List.mem_flatMap.2 ⟨y, hy, ?_⟩⟩
  rw [hturn]
  exact hev

theorem sentOn_mono {before : List Event} (h : before <+: evs) (q : Process) :
    sentOn unset c (process.trace q before) <+: sentOn unset c (process.trace q evs) := by
  obtain ⟨after, rfl⟩ := h
  rw [Machine.trace_append, sentOn, sentOn, List.flatMap_append]
  exact List.prefix_append _ _

theorem calls_mono {before : List Event} (h : before <+: evs) (q : Process) :
    calls (process.trace q before) <+: calls (process.trace q evs) := by
  obtain ⟨after, rfl⟩ := h
  rw [Machine.trace_append, calls, calls, List.flatMap_append]
  exact List.prefix_append _ _

theorem receivedOn_mono {before : List Event} (h : before <+: evs) (q : Process) :
    receivedOn c q before <+: receivedOn c q evs := by
  obtain ⟨after, rfl⟩ := h
  rw [receivedOn, receivedOn, arrivals, arrivals, Machine.collect_append, ofConn, ofConn,
    List.filter_append, List.filter_append, List.map_append]
  exact List.prefix_append _ _

variable {world : World}

/-- The digest came for the execution in a `COMPLETE`; and if that came from a
worker, the worker computed it for a ticket that was sent to it, and which the
engine issued for this execution and this worker. -/
def Computed (unset : UInt8) (world : World) (p : Process) (evs : List Event) (id : ExecutionId)
    (d : ResultDigest) : Prop :=
  ∃ i : Inbound, (⟨i.type, i.payload⟩ : DecodedFrame) ∈ receivedOn i.conn p evs ∧
    Completes i id d ∧
    ∀ w loads bounded, world i.conn = some (.worker w loads bounded) →
      ∃ wdp : WorkerDispatchPayload,
        ⟨.workerDispatch, packWorkerDispatch wdp⟩ ∈ sentOn unset i.conn (process.trace p evs) ∧
          (∃ c ∈ calls (process.trace p evs), History.issue c = some wdp.ticket) ∧
          wdp.ticket.executionId = id ∧ wdp.ticket.workerId = w.workerId ∧
          d = .ofBuffer (w.execute wdp)

theorem Computed.mono {before : List Event} (hbefore : before <+: evs)
    (h : Computed unset world p before id d) : Computed unset world p evs id d := by
  obtain ⟨i, hreceived, hcompletes, hwork⟩ := h
  refine ⟨i, (receivedOn_mono hbefore p).subset hreceived, hcompletes, ?_⟩
  intro w loads bounded hpeer
  obtain ⟨wdp, hsent, ⟨c, hc, hissue⟩, hcomputed⟩ := hwork w loads bounded hpeer
  exact ⟨wdp, (sentOn_mono hbefore p).subset hsent, ⟨c, (calls_mono hbefore p).subset hc, hissue⟩,
    hcomputed⟩

theorem Wired.of_prefix {before : List Event} (hbefore : before <+: evs)
    (h : Wired unset world p evs) : Wired unset world p before :=
  fun earlier hearlier => h earlier (hearlier.trans hbefore)

/-- What a worker reports, it reports of a ticket that was sent to it and was issued
for it. -/
theorem reported (hwired : Wired unset world (start persistent file e₀) evs) {w : WorkerRuntime}
    {loads : ℕ → Bool} {bounded : w.Bounded} (hpeer : world c = some (.worker w loads bounded))
    {g : DecodedFrame} (hg : g ∈ receivedOn c (start persistent file e₀) evs)
    (htype : g.type = .start ∨ g.type = .complete) :
    ∃ wdp, g ∈ w.report wdp ∧
      ⟨.workerDispatch, packWorkerDispatch wdp⟩ ∈
        sentOn unset c (process.trace (start persistent file e₀) evs) ∧
      (∃ ev ∈ calls (process.trace (start persistent file e₀) evs),
        History.issue ev = some wdp.ticket) ∧ wdp.ticket.workerId = w.workerId := by
  obtain ⟨link⟩ := hwired evs List.prefix_rfl c _ hpeer
  obtain ⟨got, hgot, hsaid⟩ := link.said
  obtain ⟨f, hf, wdp, hwdp, hreport⟩ :=
    WorkerRuntime.report_of_said (hsaid.subset hg) htype
  obtain ⟨htype, hunpacked⟩ := WorkerRuntime.ticketIn_some hwdp
  obtain ⟨wdp', rfl, hissued, earlier, hp, hearlier, hintroduced, -, hworker⟩ :=
    ticket_of_sentOn (hgot.subset hf) htype
  obtain rfl := Except.ok.inj (hunpacked.symm.trans (carries_workerDispatch wdp').whole)
  -- and the worker had said who it is
  obtain ⟨link'⟩ := hwired earlier hearlier c _ hpeer
  obtain ⟨got', -, hsaid'⟩ := link'.said
  obtain ⟨g', hg', hhello, hunpack⟩ := received_of_introduction hintroduced
  have hknown := WorkerRuntime.hello_of_said (hsaid'.subset hg') hhello
  obtain rfl := Except.ok.inj (hunpack.symm.trans hknown)
  exact ⟨wdp, hreport, hgot.subset hf, hissued, hworker.symm⟩

theorem computed_of_ledger (hwired : Wired unset world (start persistent file e₀) evs)
    (hcommitted : (process.run (start persistent file e₀) evs).coordinator.engine.ledger id =
      some d) :
    (start persistent file e₀).coordinator.engine.ledger id = some d ∨
      Computed unset world (start persistent file e₀) evs id d := by
  rcases ledger_run_or hcommitted with h | ⟨before, hbefore, i, hi, hcompletes⟩
  · exact .inl h
  refine .inr (Computed.mono hbefore ?_)
  have hreceived := received_of_queue hi (by rw [hcompletes.1]; decide)
  refine ⟨i, hreceived, hcompletes, ?_⟩
  intro w loads bounded hpeer
  obtain ⟨htype, cp, hcp, hid, hdigest⟩ := hcompletes
  obtain ⟨wdp, hreport, hsent, hissued, hworker⟩ :=
    reported (hwired.of_prefix hbefore) hpeer hreceived (.inr htype)
  -- the completion is the one that the worker wrote
  have hsame : cp = w.completion wdp := by
    have hpayload : i.payload = _ := (WorkerRuntime.payload_of_report hreport).2 htype
    rw [hpayload, (WorkerRuntime.report_carried bounded wdp).2] at hcp
    exact (Except.ok.inj hcp).symm
  rw [hsame, WorkerRuntime.completion_filled] at hid hdigest
  exact ⟨wdp, hsent, hissued, hid, hworker, hdigest.symm⟩

end

end Process

namespace Sample

/-- Where there is room for all that is said, all of it is written. -/
theorem written_ample (peer : Peer) {conn : TcpConnection} (hnew : conn.written = [])
    (hample : conn.outlet = ample (peer.speaks (receiveAll conn.socket))) :
    peer.written conn = encodeFrames (peer.speaks (receiveAll conn.socket)) := by
  cases peer with
  | client driver _ => exact (clientMain_ample driver hnew hample).1
  | worker runtime loads _ =>
      obtain ⟨said, -, hwritten, hall⟩ := runtime.workerMain_written conn loads
      have hdone : (sendFrame .hello runtime.hello conn.outlet).done = true := by
        rw [hample]
        exact congrArg Sending.done (sendFrame_ample ⟨.hello, runtime.hello⟩ _)
      refine hwritten.trans ?_
      rw [hall hdone, hnew, List.nil_append, hample]
      exact (sendFrames_ample _).2

theorem receiveAll_arriving {fs : List DecodedFrame}
    (hsize : ∀ f ∈ fs, f.payload.length ≤ maxPayload.toNat) :
    receiveAll (arriving (encodeFrames fs)) = fs := by
  rw [receiveAll_eq_decodeAll, stream_arriving]
  exact decodeAll_flatMap hsize

/-- Connections over which everything arrives. -/
def link {peer : Peer} {sent received : List DecodedFrame}
    (hsize : ∀ f ∈ sent, f.payload.length ≤ maxPayload.toNat)
    (hsaid : received <+: peer.speaks sent) : Link peer sent received :=
  let conn : TcpConnection :=
    { socket := arriving (encodeFrames sent), outlet := ample (peer.speaks sent) }
  { outlet := ample sent
    conn
    socket := arriving (peer.written conn)
    size := hsize
    good := ample_failsForGood sent
    good' := ample_failsForGood _
    new := rfl
    down := by
      rw [(sendFrames_ample sent).2, stream_arriving]
    up := by rw [stream_arriving]
    arrived := by
      have hgot : receiveAll conn.socket = sent := receiveAll_arriving hsize
      have hwritten : peer.written conn = encodeFrames (peer.speaks (receiveAll conn.socket)) :=
        written_ample peer rfl (by rw [hgot])
      rw [receiveAll_eq_decodeAll, stream_arriving, hwritten, hgot]
      exact (decodeAll_flatMap (peer.speaks_size hsize)).symm ▸ hsaid }

/-- A worker whose results are a byte each. -/
def labourer : WorkerRuntime := { workerId := worker, boot := boot, executor := some fun _ _ => [1] }

theorem labourer_bounded : labourer.Bounded := fun wdp => by
  simp [WorkerRuntime.execute, labourer, ByteReader.maxVector]

def assignment : WorkerDispatchPayload := { ticket := ticket 10, workBytes := 4096, workSeed := 0 }

/-- The worker and a client connect, and what the client has submitted and
dispatched is started and completed. -/
def labouring : List Process.Event :=
  accepting ++ accepting ++ receiving 1 .hello labourer.hello ++
    receiving 2 .submit (packSubmit { executionId := execution, epoch := ⟨1⟩ }) ++
    [.readerChecks 2, .receives 2 .dispatch (packDispatch (dispatchRequest execution 1)),
      .decides (ambient 10) []] ++
    receiving 1 .start (packStart assignment.ticket.start) ++
    receiving 1 .complete (packComplete (labourer.completion assignment))

def factory : World := fun c =>
  if c = 1 then some (.worker labourer (fun _ => true) labourer_bounded) else none

/-- Runs in which the worker is sent nothing too long, and says what it should. -/
theorem wired_factory {p : Process} {evs : List Process.Event}
    (hall : ∀ before ∈ evs.inits,
      (∀ f ∈ Process.sentOn 0 1 (process.trace p before), f.payload.length ≤ maxPayload.toNat) ∧
      Process.receivedOn 1 p before <+:
        labourer.conversation (fun _ => true) (Process.sentOn 0 1 (process.trace p before))) :
    Process.Wired 0 factory p evs := by
  intro before hbefore c peer hpeer
  obtain ⟨hsize, hsaid⟩ := hall before ((List.mem_inits _ _).2 hbefore)
  unfold factory at hpeer
  split at hpeer
  · rename_i hc
    obtain rfl := Option.some.inj hpeer
    rw [hc]
    exact ⟨link hsize hsaid⟩
  · cases hpeer

theorem wired_labouring : Process.Wired 0 factory (.start false none ⟨1⟩) labouring :=
  wired_factory (by decide +kernel)

end Sample

end ExecutionFabric
