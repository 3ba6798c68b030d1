import ExecutionFabric.Coordinator.Process
import ExecutionFabric.Protocol.Payloads

/-!
Is a ticket sent to the incarnation of the worker it names?

A request to dispatch or to resume names a worker and its boot. The engine
writes both into the record and the ticket; the connection that the ticket is
sent to is looked up by the worker alone, and what it announced as its boot is
not compared. While an old and a new incarnation are connected, the order of an
unordered table decides which one gets the ticket (`stale_delivery`).

`deliveries_iff` says when the order does not matter: when each entry of the
table that is of that worker is connected and of that boot.
-/

namespace ExecutionFabric

open Collections StepMachine

/-! ### Looking a worker up -/

namespace Coordinator

variable {k : Coordinator} {worker : WorkerId} {c : ℕ}

/-- The connection `c` is there, and is that of this incarnation of the worker. -/
def Names (k : Coordinator) (worker : WorkerId) (boot : WorkerBootId) (c : ℕ) : Prop :=
  ∃ entry, k.conns.lookup c = some entry ∧ entry.connected = true ∧ entry.Announced worker boot

/-- All entries of the worker are of connections of this incarnation. -/
def Unrivalled (k : Coordinator) (worker : WorkerId) (boot : WorkerBootId) : Prop :=
  ∀ c entry, k.conns.lookup c = some entry → entry.isWorker = true → entry.workerId = worker →
    entry.connected = true ∧ entry.boot = boot

/-- The test of the search. -/
def serves (k : Coordinator) (worker : WorkerId) (c : ℕ) : Bool :=
  (k.conns.lookup c).any fun entry => entry.isWorker && entry.workerId == worker

theorem serves_iff : k.serves worker c = true ↔
    ∃ entry, k.conns.lookup c = some entry ∧ entry.isWorker = true ∧ entry.workerId = worker := by
  simp [serves, Option.any_eq_true]

/-- Whatever the order, the search finds an entry of the worker if there is one. -/
theorem workerConn_serves (order : List ℕ) (h : k.serves worker c = true) :
    k.serves worker (k.workerConn order worker) = true := by
  obtain ⟨entry, hentry, -, -⟩ := serves_iff.1 h
  have hmem : c ∈ order ++ sortKeys k.conns.keys := by
    refine List.mem_append_right _ (mem_sortKeys.2 (Finmap.mem_keys.2 ?_))
    exact Finmap.mem_of_lookup_eq_some hentry
  have hfound : ((order ++ sortKeys k.conns.keys).find? (k.serves worker)).isSome = true :=
    List.find?_isSome.2 ⟨c, hmem, h⟩
  obtain ⟨found, hfound⟩ := Option.isSome_iff_exists.1 hfound
  have hconn : k.workerConn order worker = found := congrArg (·.getD 0) hfound
  rw [hconn]
  exact List.find?_some hfound

/-- Each entry of the worker is found first in some order. -/
theorem workerConn_first (h : k.serves worker c = true) : k.workerConn [c] worker = c :=
  congrArg (·.getD 0) (List.find?_cons_of_pos h)

end Coordinator

/-! ### What is sent to workers -/

namespace Turn

variable {t : Turn} {conn : ℕ} {type : MsgType} {message : Message}

/-- The tickets that the turn has sent. -/
def assignments (t : Turn) : List Sent := t.sent.filter fun m => m.type = .workerDispatch

theorem send_assignments (htype : type ≠ .workerDispatch) :
    (t.send conn type message).assignments = t.assignments := by
  unfold send assignments
  split
  · simp [htype]
  · rfl

theorem send_ticket (hnone : t.assignments = []) (p : WorkerDispatchPayload) :
    (t.send conn .workerDispatch (.workerDispatch p)).assignments =
      if (t.coordinator.conns.lookup conn).any (·.connected) then
        [{ conn, type := .workerDispatch, message := .workerDispatch p }]
      else [] := by
  unfold assignments at hnone ⊢
  unfold send
  split
  · simp [hnone]
  · exact hnone

/-- What is remembered of an assignment does not change who is connected. -/
theorem connected_modifyConn {f : ConnEntry → ConnEntry} {c : ℕ}
    (hf : ∀ entry, (f entry).connected = entry.connected)
    (hc : (t.coordinator.conns.lookup c).isSome = true) :
    ((t.modifyConn c f).coordinator.conns.lookup c).any (·.connected) =
      (t.coordinator.conns.lookup c).any (·.connected) := by
  obtain ⟨entry, hentry⟩ := Option.isSome_iff_exists.1 hc
  simp [modifyConn, hentry, hf]

theorem assign_assignments (hnone : t.assignments = []) (worker : ℕ) (ticket : DispatchTicket) :
    (t.assign worker ticket).assignments =
      if (t.coordinator.conns.lookup worker).any (·.connected) then
        [{ conn := worker
           type := .workerDispatch
           message := .workerDispatch { ticket, workBytes := 4096, workSeed := 0 } }]
      else [] := by
  have hpersist : ∀ u : Turn, u.persist.assignments = u.assignments := fun u => by
    rw [assignments, persist_sent, assignments]
  unfold assign
  dsimp only
  rw [hpersist]
  split
  · rename_i hfound
    refine (send_ticket ?_ _).trans (by rw [connected_modifyConn _ hfound]; exact fun _ => rfl)
    exact hnone
  · exact send_ticket hnone _

end Turn

/-! ### Requests -/

/-- The request of an entry to hand an execution to an incarnation of a worker,
and the call it makes. -/
inductive Assigns : MsgType → ByteString → Op → WorkerId → WorkerBootId → Prop
  | dispatch {payload : ByteString} {dp : DispatchRequestPayload}
      (hp : unpackDispatch payload = .ok dp) :
      Assigns .dispatch payload (.dispatch dp.executionId dp.workerId dp.workerBootId dp.epoch)
        dp.workerId dp.workerBootId
  | resume {payload : ByteString} {rp : ResumeRequestPayload}
      (hp : unpackResume payload = .ok rp) :
      Assigns .resume payload
        (.resume rp.executionId rp.workerId rp.workerBootId rp.epoch rp.resumeGen)
        rp.workerId rp.workerBootId

/-- Whether the acknowledgement says that the request was accepted. -/
def MsgType.accepts (type : MsgType) (o : Outcome) : Bool :=
  match type with
  | .dispatch => !o.threw && o.result.code == .allow
  | .resume => o.result.code == .resumeAllowed || o.result.code == .allow
  | _ => false

/-- A resumption does not return `ALLOW`. -/
theorem ExecutionEngine.resume_not_allow {s : ExecutionEngine} {amb : Ambient} {id : ExecutionId}
    {worker : WorkerId} {boot : WorkerBootId} {e : CoordinatorEpoch} {gen : ResumeGeneration} :
    (engine.out s ⟨.resume id worker boot e gen, amb⟩).result.code ≠ .allow := by
  show (s.resume amb id worker boot e gen).decision.code ≠ .allow
  unfold resume
  split
  · simp
  · split
    · simp
    · split
      · simp
      · split
        · simp
        · dsimp only
          split
          · assumption
          · simp

namespace Turn

section

variable {k : Coordinator} {conn : ℕ} {type : MsgType} {payload : ByteString} {amb : Ambient}
  {order : List ℕ} {op : Op} {worker : WorkerId} {boot : WorkerBootId}

/-- An accepted request sends the ticket to the connection that the search
found, if there is one. -/
theorem decide_assignments (conn : ℕ) (hrequest : Assigns type payload op worker boot)
    (haccepts : type.accepts (engine.out k.engine ⟨op, amb⟩) = true)
    (hfound : k.workerConn order worker ≠ 0) :
    ∃ p : WorkerDispatchPayload,
      p.ticket = (engine.out k.engine ⟨op, amb⟩).ticket.getD .blank ∧
        (decide { coordinator := k } conn type payload amb order).assignments =
          if (k.conns.lookup (k.workerConn order worker)).any (·.connected) then
            [{ conn := k.workerConn order worker
               type := .workerDispatch
               message := .workerDispatch p }]
          else [] := by
  cases hrequest with
  | @dispatch _ dp hp =>
      refine ⟨⟨(engine.out k.engine _).ticket.getD .blank, 4096, 0⟩, rfl, ?_⟩
      have hack : MsgType.dispatchAck ≠ .workerDispatch := by decide
      generalize hc : (⟨.dispatch dp.executionId dp.workerId dp.workerBootId dp.epoch, amb⟩ : Call)
        = c at haccepts ⊢
      simp only [MsgType.accepts, Bool.and_eq_true, Bool.not_eq_true', beq_iff_eq] at haccepts
      have hturn : decide { coordinator := k } conn .dispatch payload amb order =
          (((Turn.call { coordinator := k } c).assign (k.workerConn order dp.workerId)
            ((engine.out k.engine c).ticket.getD .blank)).send conn .dispatchAck
              (dispatchAck true (engine.out k.engine c))) := by
        rw [decide, if_neg (fun h => absurd h.1 (by decide))]
        simp only [handleFrame, given, hp]
        rw [onDispatch]
        dsimp only
        rw [if_neg hfound, hc, haccepts.1, if_neg Bool.false_ne_true, if_pos haccepts.2]
      rw [hturn, send_assignments hack, assign_assignments rfl]
      rfl
  | @resume _ rp hp =>
      refine ⟨⟨(engine.out k.engine _).ticket.getD .blank, 4096, 7⟩, rfl, ?_⟩
      have hack : MsgType.resumeAck ≠ .workerDispatch := by decide
      have hcode : (engine.out k.engine
          ⟨.resume rp.executionId rp.workerId rp.workerBootId rp.epoch rp.resumeGen, amb⟩).result.code
            = .resumeAllowed := by
        simp only [MsgType.accepts, Bool.or_eq_true, beq_iff_eq] at haccepts
        exact haccepts.resolve_right ExecutionEngine.resume_not_allow
      generalize hc : (⟨.resume rp.executionId rp.workerId rp.workerBootId rp.epoch rp.resumeGen,
        amb⟩ : Call) = c at hcode ⊢
      have hturn : ∃ accepted, decide { coordinator := k } conn .resume payload amb order =
          ((Turn.call { coordinator := k } c).send (k.workerConn order rp.workerId) .workerDispatch
            (.workerDispatch
              { ticket := (engine.out k.engine c).ticket.getD .blank
                workBytes := 4096
                workSeed := 7 })).persist.send conn .resumeAck
                  (dispatchAck accepted (engine.out k.engine c)) := by
        rw [decide, if_neg (fun h => absurd h.1 (by decide))]
        simp only [handleFrame, given, hp]
        rw [onResume]
        dsimp only
        rw [hc, if_pos ⟨hcode, hfound⟩]
        exact ⟨_, rfl⟩
      obtain ⟨accepted, hturn⟩ := hturn
      rw [hturn, send_assignments hack, assignments, persist_sent]
      exact send_ticket rfl _

/-- The turn sent the ticket once, to a connection of this incarnation. -/
def Delivers (t : Turn) (k : Coordinator) (worker : WorkerId) (boot : WorkerBootId)
    (ticket : DispatchTicket) : Prop :=
  ∃ c, k.Names worker boot c ∧ ∃ p : WorkerDispatchPayload, p.ticket = ticket ∧
    t.assignments = [{ conn := c, type := .workerDispatch, message := .workerDispatch p }]

/-- In every order the ticket of an accepted request reaches the incarnation it
names, which is connected, exactly if no entry of the worker is of another
connection. -/
theorem delivers_iff (htable : 0 ∉ k.conns) (hrequest : Assigns type payload op worker boot)
    (haccepts : type.accepts (engine.out k.engine ⟨op, amb⟩) = true)
    (hnamed : ∃ c, k.Names worker boot c) :
    (∀ order, (decide { coordinator := k } conn type payload amb order).Delivers k worker boot
        ((engine.out k.engine ⟨op, amb⟩).ticket.getD .blank)) ↔ k.Unrivalled worker boot := by
  have hnonzero : ∀ {c}, k.serves worker c = true → c ≠ 0 := by
    rintro c hserves rfl
    obtain ⟨entry, hentry, -, -⟩ := Coordinator.serves_iff.1 hserves
    exact htable (Finmap.mem_of_lookup_eq_some hentry)
  obtain ⟨c₀, entry₀, hentry₀, -, hannounced⟩ := hnamed
  have hserves₀ : k.serves worker c₀ = true :=
    Coordinator.serves_iff.2 ⟨entry₀, hentry₀, hannounced.isWorker, hannounced.worker⟩
  constructor
  · intro hdelivers c entry hentry hworker hid
    -- the order in which this entry comes first
    have hfirst : k.workerConn [c] worker = c :=
      Coordinator.workerConn_first (Coordinator.serves_iff.2 ⟨entry, hentry, hworker, hid⟩)
    have hfound : k.workerConn [c] worker ≠ 0 :=
      hnonzero (Coordinator.workerConn_serves _ hserves₀)
    obtain ⟨q, -, hsent⟩ := decide_assignments conn hrequest haccepts hfound
    obtain ⟨d, ⟨named, hlookup, hconnected, hnamed⟩, p, -, hone⟩ := hdelivers [c]
    rw [hfirst, hone] at hsent
    split at hsent
    · obtain rfl : d = c := congrArg Sent.conn (List.cons.inj hsent).1
      obtain rfl := Option.some.inj (hentry.symm.trans hlookup)
      exact ⟨hconnected, hnamed.boot⟩
    · cases hsent
  · intro hunrivalled order
    have hserves := Coordinator.workerConn_serves order hserves₀
    obtain ⟨p, hticket, hsent⟩ :=
      decide_assignments conn hrequest haccepts (hnonzero hserves)
    obtain ⟨entry, hentry, hworker, hid⟩ := Coordinator.serves_iff.1 hserves
    obtain ⟨hconnected, hboot⟩ := hunrivalled _ entry hentry hworker hid
    refine ⟨_, ⟨entry, hentry, hconnected, hworker, hid, hboot⟩, p, hticket, ?_⟩
    rw [hsent, hentry, if_pos]
    exact hconnected

end

end Turn

/-! ### Runs -/

namespace Process

/-- The event hands the decision thread a request, which is accepted, and the
incarnation it names is connected. -/
structure Hands (p : Process) (ev : Event) (i : Inbound) (amb : Ambient) (op : Op)
    (worker : WorkerId) (boot : WorkerBootId) : Prop where
  event : ∃ order, ev = .decides amb order
  taken : p.taken ev = some i
  request : Assigns i.type i.payload op worker boot
  accepted : i.type.accepts (engine.out p.coordinator.engine ⟨op, amb⟩) = true
  named : ∃ c, p.coordinator.Names worker boot c

/-- The ticket of the request reaches the incarnation named, in whatever order
the table is searched. -/
def Delivers (p : Process) (ev : Event) : Prop :=
  ∀ i amb op worker boot, p.Hands ev i amb op worker boot →
    ∀ order, (p.turn i amb order).Delivers p.coordinator worker boot
      ((engine.out p.coordinator.engine ⟨op, amb⟩).ticket.getD .blank)

/-- The guard of the runs in which a worker named by such a request has no
entries but those of that incarnation. -/
def Unrivalled (p : Process) (ev : Event) : Prop :=
  ∀ i amb op worker boot, p.Hands ev i amb op worker boot → p.coordinator.Unrivalled worker boot

theorem delivers_iff {p : Process} {ev : Event} (hnumbered : p.Numbered) :
    p.Delivers ev ↔ p.Unrivalled ev := by
  refine forall_congr' fun i => forall_congr' fun amb => forall_congr' fun op => ?_
  refine forall_congr' fun worker => forall_congr' fun boot => forall_congr' fun hhands => ?_
  exact Turn.delivers_iff hnumbered.table hhands.request hhands.accepted hhands.named

end Process

/-- In a run, every ticket reaches the incarnation of the worker that it names,
if that is connected, exactly if each time there were no entries of the worker but
those of that incarnation. -/
theorem deliveries_iff (persistent : Bool) (file : Option ByteString) (e₀ : CoordinatorEpoch)
    (events : List Process.Event) :
    (∀ evs ev, evs ++ [ev] <+: events →
      (process.run (.start persistent file e₀) evs).Delivers ev) ↔
      process.Meets Process.Unrivalled (.start persistent file e₀) events :=
  Machine.forall_iff_meets fun evs _ _ =>
    Process.delivers_iff (Process.numbered persistent file e₀ evs)

namespace Sample

/-- A connection is accepted. -/
def accepting : List Process.Event := [.acceptorChecks, .accepts]

/-- A frame is received on a connection, and handled. -/
def receiving (conn : ℕ) (type : MsgType) (payload : ByteString) : List Process.Event :=
  [.readerChecks conn, .receives conn type payload, .decides (ambient 0) []]

def hello (boot : WorkerBootId) : ByteString :=
  packHello { role := 1, protocolVersion := 1, workerId := worker, workerBootId := boot, tag := [] }

/-- Two incarnations of a worker are connected, the old one first, and the new
one asks for an execution to be dispatched to it. -/
def restarted : List Process.Event :=
  accepting ++ accepting ++ receiving 1 .hello (hello (sampleId 5)) ++
    receiving 2 .hello (hello boot) ++
    receiving 2 .submit (packSubmit { executionId := execution, epoch := ⟨1⟩ }) ++
    [.readerChecks 2, .receives 2 .dispatch (packDispatch (dispatchRequest execution 1))]

end Sample

/-- If the search begins with the old incarnation, it gets the ticket of the new
one. -/
theorem stale_delivery :
    ¬∀ persistent file e₀ events ev,
      (process.run (.start persistent file e₀) events).Delivers ev := by
  intro hclaim
  let p := process.run (.start false none ⟨1⟩) Sample.restarted
  let ev : Process.Event := .decides (Sample.ambient 10) []
  let dp := Sample.dispatchRequest Sample.execution 1
  let i : Inbound := ⟨2, .dispatch, packDispatch dp, .receiver⟩
  let op : Op := .dispatch dp.executionId dp.workerId dp.workerBootId dp.epoch
  have hfacts : p.taken ev = some i ∧
      i.type.accepts (engine.out p.coordinator.engine ⟨op, Sample.ambient 10⟩) = true ∧
      (p.coordinator.conns.lookup 1).map (·.boot) = some (Sample.sampleId 5) ∧
      (p.coordinator.conns.lookup 2).map (fun x => (x.connected, x.isWorker, x.workerId, x.boot))
        = some (true, true, dp.workerId, dp.workerBootId) ∧
      (p.turn i (Sample.ambient 10) [1]).assignments.map (·.conn) = [1] := by decide +kernel
  obtain ⟨htaken, haccepts, hold, hnew, hsent⟩ := hfacts
  obtain ⟨entry, hentry, hannounced⟩ := Option.map_eq_some_iff.1 hnew
  obtain ⟨hconnected, hworker, hid, hboot⟩ : entry.connected = true ∧ entry.isWorker = true ∧
      entry.workerId = dp.workerId ∧ entry.boot = dp.workerBootId := by
    simpa only [Prod.mk.injEq] using hannounced
  have hhands : p.Hands ev i (Sample.ambient 10) op dp.workerId dp.workerBootId :=
    { event := ⟨[], rfl⟩
      taken := htaken
      request := .dispatch (carries_dispatch dp).whole
      accepted := haccepts
      named := ⟨2, entry, hentry, hconnected, hworker, hid, hboot⟩ }
  obtain ⟨c, ⟨found, hfound, -, hnamed⟩, q, -, hone⟩ :=
    hclaim false none ⟨1⟩ Sample.restarted ev i _ op _ _ hhands [1]
  have hconn : [c] = [1] := by
    rw [← hsent]
    exact (congrArg (List.map Sent.conn) hone).symm
  obtain rfl : c = 1 := by simpa using hconn
  have hstale : some dp.workerBootId = some (Sample.sampleId 5) := by
    rw [← hold, hfound, Option.map_some, hnamed.boot]
  exact absurd hstale (by decide +kernel)

end ExecutionFabric
