import ExecutionFabric.Coordinator.Turns

/-!
Which calls an entry of the queue makes, and whether they all return.

`Coordinator.requests` reads the calls off the entry and the state it finds;
`Turn.decide_follows` proves that the handler makes these and no others, one
after the other, and changes the engine by nothing else.

Two operations of the engine look their execution up with an accessor that
throws. An activation only follows a creation that was allowed, so there the
record exists. A dispatch is asked for as soon as a worker of that name is
connected, whatever execution it names: one frame with an unknown execution
ends the decision thread (`unknown_dispatch_throws`). No other frame does
(`frame_answered_iff`).
-/

namespace ExecutionFabric

open Collections StepMachine

/-! ### Calls that return -/

namespace Op

/-- The execution whose record is accessed by `std::unordered_map::at`. -/
def requires : Op → Option ExecutionId
  | activate id _ | dispatch id _ _ _ => some id
  | _ => none

end Op

namespace ExecutionEngine

variable {s : ExecutionEngine} {c : Call} {id : ExecutionId}

/-- The call returns; if it names an execution without a record, and not to
create it, it is rejected as unknown and changes nothing. -/
structure Answers (s : ExecutionEngine) (c : Call) : Prop where
  returns : (engine.out s c).threw = false
  unknown : ∀ id, c.op.target = some id → s.find id = none → (∀ e, c.op ≠ .create id e) →
    (engine.out s c).code? = some .rejectUnknownExecution ∧ engine.next s c = s

theorem threw_of_requires (hrequires : c.op.requires = some id) (hnone : s.find id = none) :
    (engine.out s c).threw = true := by
  obtain ⟨op, amb⟩ := c
  show (s.step ⟨op, amb⟩).2.threw = true
  cases op with
  | activate k e =>
      obtain rfl : k = id := Option.some.inj hrequires
      simp [step, activate, hnone]
  | dispatch k worker boot e =>
      obtain rfl : k = id := Option.some.inj hrequires
      simp [step, dispatch, hnone]
  | _ => cases hrequires

theorem returns_of_found (hfound : ∀ id, c.op.requires = some id → s.find id ≠ none) :
    (engine.out s c).threw = false := by
  obtain ⟨op, amb⟩ := c
  show (s.step ⟨op, amb⟩).2.threw = false
  cases op with
  | activate id e =>
      obtain ⟨r, hfind⟩ := Option.ne_none_iff_exists'.1 (hfound id rfl)
      simp [step, activate, hfind, decided]
  | dispatch id worker boot e =>
      obtain ⟨r, hfind⟩ := Option.ne_none_iff_exists'.1 (hfound id rfl)
      simp [step, dispatch, hfind, issued]
  | _ => rfl

/-- All other operations check the lookup, and reject what they do not find. -/
theorem rejects_unknown (hrequires : c.op.requires = none) (htarget : c.op.target = some id)
    (hnone : s.find id = none) (hcreate : ∀ e, c.op ≠ .create id e) :
    (engine.out s c).code? = some .rejectUnknownExecution ∧ engine.next s c = s := by
  obtain ⟨op, amb⟩ := c
  show (s.step ⟨op, amb⟩).2.code? = some .rejectUnknownExecution ∧ (s.step ⟨op, amb⟩).1 = s
  cases op with
  | create k e =>
      obtain rfl : k = id := Option.some.inj htarget
      exact absurd rfl (hcreate e)
  | activate => cases hrequires
  | dispatch => cases hrequires
  | raiseEpoch => cases htarget
  | markRunning t =>
      obtain rfl : t.executionId = id := Option.some.inj htarget
      simp [step, markRunning, hnone, decided, Outcome.code?]
  | complete t =>
      obtain rfl : t.executionId = id := Option.some.inj htarget
      simp [step, complete, hnone, decided, Outcome.code?]
  | cancel req =>
      obtain rfl : req.executionId = id := Option.some.inj htarget
      simp [step, cancel, hnone, decided, Outcome.code?]
  | preempt req =>
      obtain rfl : req.executionId = id := Option.some.inj htarget
      simp [step, preempt, hnone, decided, Outcome.code?]
  | finalizeCancel k e =>
      obtain rfl : k = id := Option.some.inj htarget
      simp [step, finalizeCancel, hnone, decided, Outcome.code?]
  | acknowledgePreempt k e =>
      obtain rfl : k = id := Option.some.inj htarget
      simp [step, acknowledgePreempt, hnone, decided, Outcome.code?]
  | markResumable k e =>
      obtain rfl : k = id := Option.some.inj htarget
      simp [step, markResumable, hnone, decided, Outcome.code?]
  | resume k worker boot e gen =>
      obtain rfl : k = id := Option.some.inj htarget
      simp [step, resume, hnone, issued, Outcome.code?]
  | markWorkerLost k worker boot e =>
      obtain rfl : k = id := Option.some.inj htarget
      simp [step, markWorkerLost, hnone, decided, Outcome.code?]
  | supersede k e =>
      obtain rfl : k = id := Option.some.inj htarget
      simp [step, supersede, hnone, decided, Outcome.code?]

/-- A call is answered exactly when what it accesses without a check is there. -/
theorem answers_iff : s.Answers c ↔ ∀ id, c.op.requires = some id → s.find id ≠ none := by
  constructor
  · intro h id hrequires hnone
    have hthrew := threw_of_requires hrequires hnone
    rw [h.returns] at hthrew
    cases hthrew
  · intro hfound
    refine ⟨returns_of_found hfound, fun id htarget hnone hcreate => ?_⟩
    refine rejects_unknown ?_ htarget hnone hcreate
    rw [Option.eq_none_iff_forall_ne_some]
    intro k hrequires
    -- what a call accesses is what it addresses
    have hsame : c.op.target = some k := by
      obtain ⟨op, amb⟩ := c
      cases op <;> cases hrequires <;> rfl
    obtain rfl := Option.some.inj (htarget.symm.trans hsame)
    exact hfound id hrequires hnone

theorem returns_of_requires (hrequires : c.op.requires = none) : (engine.out s c).threw = false :=
  returns_of_found fun _ hid => absurd (hrequires.symm.trans hid) nofun

end ExecutionEngine

/-! ### The calls of an entry -/

/-- What is asked for by a payload that was unpacked. -/
def asked {α : Type} (unpacked : Except ByteString α) (calls : α → List Call) : List Call :=
  match unpacked with
  | .error _ => []
  | .ok p => calls p

namespace Coordinator

/-- The calls made when a connection is closed. -/
def closing (k : Coordinator) (conn : ℕ) (amb : Ambient) : List Call :=
  match k.conns.lookup conn with
  | none => []
  | some entry =>
    match entry.activeExecution with
    | some id =>
      if entry.isWorker then [⟨.markWorkerLost id entry.workerId entry.boot k.epoch, amb⟩] else []
    | none => []

/-- The calls made for a `SUBMIT`. -/
def submitting (k : Coordinator) (amb : Ambient) (sp : SubmitPayload) : List Call :=
  if (ExecutionFabric.engine.out k.engine ⟨.create sp.executionId sp.epoch, amb⟩).result.code
      = .allow then
    [⟨.create sp.executionId sp.epoch, amb⟩, ⟨.activate sp.executionId sp.epoch, amb⟩]
  else [⟨.create sp.executionId sp.epoch, amb⟩]

/-- The calls made for an entry of the queue. -/
def requests (k : Coordinator) (conn : ℕ) (type : MsgType) (payload : ByteString) (amb : Ambient)
    (order : List ℕ) : List Call :=
  if type = .shutdown ∧ payload = Turn.closedMarker then k.closing conn amb
  else
    match type with
    | .submit => asked (unpackSubmit payload) (k.submitting amb)
    | .dispatch => asked (unpackDispatch payload) fun dp =>
        if k.workerConn order dp.workerId = 0 then []
        else [⟨.dispatch dp.executionId dp.workerId dp.workerBootId dp.epoch, amb⟩]
    | .start => asked (unpackStart payload) fun ticket => [⟨.markRunning ticket, amb⟩]
    | .complete => asked (unpackComplete payload) fun cp =>
        [⟨.complete (Turn.CompletePayload.filled cp), amb⟩]
    | .cancel => asked (unpackCancel payload) fun req => [⟨.cancel req, amb⟩]
    | .preempt => asked (unpackCancel payload) fun req => [⟨.preempt req, amb⟩]
    | .ackPreempt => asked (unpackAckPreempt payload) fun ap =>
        [⟨.acknowledgePreempt ap.executionId ap.epoch, amb⟩]
    | .markResumable => asked (unpackMarkResumable payload) fun mp =>
        [⟨.markResumable mp.executionId mp.epoch, amb⟩]
    | .resume => asked (unpackResume payload) fun rp =>
        [⟨.resume rp.executionId rp.workerId rp.workerBootId rp.epoch rp.resumeGen, amb⟩]
    | .workerLost => asked (unpackWorkerLost payload) fun wp =>
        [⟨.markWorkerLost wp.executionId wp.workerId wp.workerBootId wp.epoch, amb⟩]
    | _ => []

end Coordinator

namespace Turn

/-- The turn so far, started on `k`: the calls `calls` were made, in this
order, and the thread is alive as long as all of them returned. -/
structure Follows (k : Coordinator) (calls : List Call) (t : Turn) : Prop where
  made : t.calls = engine.trace k.engine calls
  reached : t.coordinator.engine = engine.run k.engine calls
  epoch : t.coordinator.epoch = k.epoch
  alive : t.coordinator.alive = (k.alive && t.calls.all fun x => !x.2.threw)

section

variable (t : Turn)

@[simp] theorem persist_epoch : t.persist.coordinator.epoch = t.coordinator.epoch := by
  unfold persist
  split <;> rfl

@[simp] theorem persist_alive : t.persist.coordinator.alive = t.coordinator.alive := by
  unfold persist
  split <;> rfl

end

variable {k : Coordinator} {calls : List Call} {t : Turn} {c : Call}

theorem Follows.start (k : Coordinator) : Follows k [] { coordinator := k } :=
  ⟨rfl, rfl, rfl, by simp⟩

/-- The steps of a turn that ask nothing. -/
theorem Follows.of_same {u : Turn} (h : Follows k calls t) (hcalls : u.calls = t.calls)
    (hengine : u.coordinator.engine = t.coordinator.engine)
    (hepoch : u.coordinator.epoch = t.coordinator.epoch)
    (halive : u.coordinator.alive = t.coordinator.alive) : Follows k calls u where
  made := hcalls.trans h.made
  reached := hengine.trans h.reached
  epoch := hepoch.trans h.epoch
  alive := by rw [halive, hcalls, h.alive]

theorem Follows.send (h : Follows k calls t) (conn : ℕ) (type : MsgType) (message : Message) :
    Follows k calls (t.send conn type message) :=
  h.of_same (by simp) (by simp) (by simp) (by simp)

theorem Follows.persist (h : Follows k calls t) : Follows k calls t.persist :=
  h.of_same (by simp) (by simp) (by simp) (by simp)

theorem Follows.modifyConn (h : Follows k calls t) (conn : ℕ) (f : ConnEntry → ConnEntry) :
    Follows k calls (t.modifyConn conn f) :=
  h.of_same rfl rfl rfl rfl

theorem Follows.snoc_calls (h : Follows k calls t) (c : Call) :
    (t.call c).calls = engine.trace k.engine (calls ++ [c]) := by
  rw [Machine.trace_append, ← h.made, ← h.reached]
  rfl

theorem Follows.snoc_engine (h : Follows k calls t) (c : Call) :
    (t.call c).coordinator.engine = engine.run k.engine (calls ++ [c]) := by
  rw [Machine.run_snoc, ← h.reached]
  rfl

theorem Follows.call (h : Follows k calls t)
    (hreturns : (engine.out t.coordinator.engine c).threw = false) :
    Follows k (calls ++ [c]) (t.call c) where
  made := h.snoc_calls c
  reached := h.snoc_engine c
  epoch := h.epoch
  alive := by
    have hall : (t.call c).calls.all (fun x => !x.2.threw) = t.calls.all fun x => !x.2.threw := by
      simp [Turn.call, hreturns]
    rw [hall]
    exact h.alive

theorem Follows.crash (h : Follows k calls t)
    (hthrew : (engine.out t.coordinator.engine c).threw = true) :
    Follows k (calls ++ [c]) (t.call c).crash where
  made := h.snoc_calls c
  reached := h.snoc_engine c
  epoch := h.epoch
  alive := by simp [Turn.call, Turn.crash, hthrew]

theorem Follows.given {α : Type} (h : Follows k [] t) {unpacked : Except ByteString α}
    {handle : α → Turn} {calls : α → List Call} (hhandle : ∀ p, Follows k (calls p) (handle p)) :
    Follows k (asked unpacked calls) (t.given unpacked handle) := by
  cases unpacked with
  | error _ => exact h
  | ok p => exact hhandle p

/-! ### The branches -/

theorem Follows.onControl (h : Follows k [] t) (conn : ℕ) (amb : Ambient) {op : Op}
    (reply : MsgType) (hrequires : op.requires = none) :
    Follows k [⟨op, amb⟩] (t.onControl conn amb op reply) :=
  (h.call (c := ⟨op, amb⟩) (ExecutionEngine.returns_of_requires hrequires)).persist.send _ _ _

theorem Follows.onSubmit (k : Coordinator) (conn : ℕ) (amb : Ambient) (sp : SubmitPayload) :
    Follows k (k.submitting amb sp) (Turn.onSubmit { coordinator := k } conn amb sp) := by
  have hcreate : Follows k [⟨.create sp.executionId sp.epoch, amb⟩]
      (Turn.call { coordinator := k } ⟨.create sp.executionId sp.epoch, amb⟩) :=
    (Follows.start k).call (ExecutionEngine.returns_of_requires rfl)
  unfold Turn.onSubmit Coordinator.submitting
  dsimp only
  split
  · split
    · rename_i hthrew
      exact hcreate.crash hthrew
    · rename_i hreturns
      exact (hcreate.call (by simpa using hreturns)).persist.send _ _ _
  · exact hcreate.persist.send _ _ _

theorem Follows.onDispatch (k : Coordinator) (conn : ℕ) (amb : Ambient) (order : List ℕ)
    (dp : DispatchRequestPayload) :
    Follows k (if k.workerConn order dp.workerId = 0 then []
      else [⟨.dispatch dp.executionId dp.workerId dp.workerBootId dp.epoch, amb⟩])
      (Turn.onDispatch { coordinator := k } conn amb order dp) := by
  have hstart := Follows.start k
  unfold Turn.onDispatch
  dsimp only
  split
  · exact hstart.send _ _ _
  · split
    · rename_i hthrew
      exact hstart.crash hthrew
    · rename_i hreturns
      have hcall := hstart.call (c := ⟨.dispatch dp.executionId dp.workerId dp.workerBootId
        dp.epoch, amb⟩) (by simpa using hreturns)
      split
      · unfold Turn.assign
        refine Follows.send (Follows.persist (Follows.send ?_ _ _ _)) _ _ _
        split
        · exact hcall.modifyConn _ _
        · exact hcall
      · exact hcall.send _ _ _

theorem Follows.onComplete (k : Coordinator) (conn : ℕ) (amb : Ambient) (cp : CompletePayload) :
    Follows k [⟨.complete (CompletePayload.filled cp), amb⟩]
      (Turn.onComplete { coordinator := k } conn amb cp) := by
  have hcall := (Follows.start k).call (c := ⟨.complete (CompletePayload.filled cp), amb⟩)
    (ExecutionEngine.returns_of_requires rfl)
  unfold Turn.onComplete
  dsimp only
  split
  · exact hcall.persist.send _ _ _
  · exact hcall.send _ _ _

theorem Follows.onResume (k : Coordinator) (conn : ℕ) (amb : Ambient) (order : List ℕ)
    (rp : ResumeRequestPayload) :
    Follows k [⟨.resume rp.executionId rp.workerId rp.workerBootId rp.epoch rp.resumeGen, amb⟩]
      (Turn.onResume { coordinator := k } conn amb order rp) := by
  have hcall := (Follows.start k).call (c := ⟨.resume rp.executionId rp.workerId rp.workerBootId
    rp.epoch rp.resumeGen, amb⟩) (ExecutionEngine.returns_of_requires rfl)
  unfold Turn.onResume
  dsimp only
  refine Follows.send ?_ _ _ _
  split
  · exact (hcall.send _ _ _).persist
  · exact hcall

theorem Follows.onConnClosed (k : Coordinator) (conn : ℕ) (amb : Ambient) :
    Follows k (k.closing conn amb) (Turn.onConnClosed { coordinator := k } conn amb) := by
  unfold Turn.onConnClosed Coordinator.closing
  dsimp only
  cases k.conns.lookup conn with
  | none => exact .start k
  | some entry =>
      have herase : Follows k []
          { coordinator := { k with conns := k.conns.erase conn } } := ⟨rfl, rfl, rfl, by simp⟩
      dsimp only
      cases entry.activeExecution with
      | none => exact herase
      | some id =>
          dsimp only
          cases entry.isWorker with
          | true => exact (herase.call (ExecutionEngine.returns_of_requires rfl)).persist
          | false => exact herase

/-- The handler makes the calls of the entry. -/
theorem decide_follows (k : Coordinator) (conn : ℕ) (type : MsgType) (payload : ByteString)
    (amb : Ambient) (order : List ℕ) :
    Follows k (k.requests conn type payload amb order)
      (decide { coordinator := k } conn type payload amb order) := by
  have hstart := Follows.start k
  unfold decide Coordinator.requests
  split
  · exact Follows.onConnClosed k conn amb
  · unfold handleFrame
    cases type
    case hello =>
      have hhello : Follows k [] (Turn.given { coordinator := k } (unpackHello payload)
          (Turn.onHello { coordinator := k } conn)) := by
        cases unpackHello payload with
        | error _ => exact hstart
        | ok hp => exact (hstart.modifyConn _ _).send _ _ _
      exact hhello
    case registerWorker => exact hstart.send _ _ _
    case submit => exact hstart.given fun sp => .onSubmit k conn amb sp
    case dispatch => exact hstart.given fun dp => .onDispatch k conn amb order dp
    case start =>
      exact hstart.given fun ticket =>
        (hstart.call (ExecutionEngine.returns_of_requires rfl)).send _ _ _
    case complete => exact hstart.given fun cp => .onComplete k conn amb cp
    case cancel => exact hstart.given fun req => hstart.onControl conn amb _ rfl
    case preempt => exact hstart.given fun req => hstart.onControl conn amb _ rfl
    case ackPreempt => exact hstart.given fun ap => hstart.onControl conn amb _ rfl
    case markResumable => exact hstart.given fun mp => hstart.onControl conn amb _ rfl
    case resume => exact hstart.given fun rp => .onResume k conn amb order rp
    case workerLost => exact hstart.given fun wp => hstart.onControl conn amb _ rfl
    case query =>
      have hquery : Follows k [] (Turn.given { coordinator := k } (unpackQuery payload)
          (Turn.onQuery { coordinator := k } conn)) := by
        cases unpackQuery payload with
        | error _ => exact hstart
        | ok id => exact hstart.send _ _ _
      exact hquery
    case ping => exact hstart.send _ _ _
    case shutdown => exact ⟨rfl, rfl, rfl, by simp⟩
    all_goals exact hstart

end Turn

/-! ### What an entry can ask for -/

/-- The calls about an execution that check their lookup and leave the epoch as
it is, `cancel` and those that no entry makes excepted. -/
def Op.routine : Op → Bool
  | .markRunning _ | .complete _ | .preempt _ | .acknowledgePreempt _ _ | .markResumable _ _
  | .resume _ _ _ _ _ | .markWorkerLost _ _ _ _ => true
  | _ => false

namespace Op

variable {op : Op}

theorem requires_of_routine (h : op.routine = true) : op.requires = none := by
  cases op <;> first | rfl | cases h

theorem adopts_of_routine (h : op.routine = true) : op.adopts = false := by
  cases op <;> first | rfl | cases h

theorem target_of_routine (h : op.routine = true) : op.target ≠ none := by
  cases op <;> first | exact Option.some_ne_none _ | cases h

theorem plain_of_routine (h : op.routine = true) : op.plain = true := by
  cases op <;> first | rfl | cases h

end Op

namespace Coordinator

/-- The calls of an entry: a `SUBMIT` creates and perhaps activates, a `DISPATCH`
and a `CANCEL` make the call of that name, and what remains makes one routine
call, or none. -/
inductive Asking (k : Coordinator) (type : MsgType) (payload : ByteString) (amb : Ambient)
    (order : List ℕ) : List Call → Prop
  | nothing (hsubmit : type = .submit → ∀ sp, unpackSubmit payload ≠ .ok sp)
      (hdispatch : type = .dispatch → ∀ dp, unpackDispatch payload = .ok dp →
        k.workerConn order dp.workerId = 0)
      (hcancel : type = .cancel → ∀ req, unpackCancel payload ≠ .ok req) :
      Asking k type payload amb order []
  | submit {sp : SubmitPayload} (htype : type = .submit) (hp : unpackSubmit payload = .ok sp) :
      Asking k type payload amb order (k.submitting amb sp)
  | dispatch {dp : DispatchRequestPayload} (htype : type = .dispatch)
      (hp : unpackDispatch payload = .ok dp) (hworker : k.workerConn order dp.workerId ≠ 0) :
      Asking k type payload amb order
        [⟨.dispatch dp.executionId dp.workerId dp.workerBootId dp.epoch, amb⟩]
  | cancel {req : ControlRequest} (htype : type = .cancel)
      (hp : unpackCancel payload = .ok req) :
      Asking k type payload amb order [⟨.cancel req, amb⟩]
  | routine {op : Op} (hroutine : op.routine = true) (hsubmit : type ≠ .submit)
      (hdispatch : type ≠ .dispatch) (hcancel : type ≠ .cancel) :
      Asking k type payload amb order [⟨op, amb⟩]

section

variable {k : Coordinator} {type : MsgType} {payload : ByteString} {amb : Ambient} {order : List ℕ}

theorem Asking.idle (hsubmit : type ≠ .submit) (hdispatch : type ≠ .dispatch)
    (hcancel : type ≠ .cancel) : k.Asking type payload amb order [] :=
  .nothing (fun h => absurd h hsubmit) (fun h => absurd h hdispatch) fun h => absurd h hcancel

theorem Asking.asked {α : Type} {unpacked : Except ByteString α} {op : α → Op}
    (hroutine : ∀ p, (op p).routine = true) (hsubmit : type ≠ .submit)
    (hdispatch : type ≠ .dispatch) (hcancel : type ≠ .cancel) :
    k.Asking type payload amb order (asked unpacked fun p => [⟨op p, amb⟩]) := by
  cases unpacked with
  | error e => exact .idle hsubmit hdispatch hcancel
  | ok p => exact .routine (hroutine p) hsubmit hdispatch hcancel

theorem closing_asking (conn : ℕ) (hsubmit : type ≠ .submit) (hdispatch : type ≠ .dispatch)
    (hcancel : type ≠ .cancel) : k.Asking type payload amb order (k.closing conn amb) := by
  have hidle : k.Asking type payload amb order [] := .idle hsubmit hdispatch hcancel
  unfold closing
  split
  · exact hidle
  · split
    · split
      · exact .routine rfl hsubmit hdispatch hcancel
      · exact hidle
    · exact hidle

end

theorem requests_asking (k : Coordinator) (conn : ℕ) (type : MsgType) (payload : ByteString)
    (amb : Ambient) (order : List ℕ) :
    k.Asking type payload amb order (k.requests conn type payload amb order) := by
  unfold requests
  split
  · rename_i hclosed
    rw [hclosed.1]
    exact closing_asking conn nofun nofun nofun
  · cases type
    case submit =>
      cases hp : unpackSubmit payload with
      | error e => exact .nothing (fun _ sp h => nomatch hp.symm.trans h) nofun nofun
      | ok sp => exact .submit rfl hp
    case dispatch =>
      cases hp : unpackDispatch payload with
      | error e => exact .nothing nofun (fun _ dp h => nomatch hp.symm.trans h) nofun
      | ok dp =>
          by_cases hworker : k.workerConn order dp.workerId = 0
          · have hnone : ∀ dp', unpackDispatch payload = .ok dp' →
                k.workerConn order dp'.workerId = 0 := fun dp' hp' => by
              obtain rfl := Except.ok.inj (hp.symm.trans hp')
              exact hworker
            simp only [ExecutionFabric.asked, if_pos hworker]
            exact .nothing nofun (fun _ => hnone) nofun
          · simp only [ExecutionFabric.asked, if_neg hworker]
            exact .dispatch rfl hp hworker
    case cancel =>
      cases hp : unpackCancel payload with
      | error e => exact .nothing nofun nofun fun _ req h => nomatch hp.symm.trans h
      | ok req => exact .cancel rfl hp
    case start | complete | preempt | ackPreempt | markResumable | resume | workerLost =>
      exact .asked (fun _ => rfl) nofun nofun nofun
    all_goals exact .idle nofun nofun nofun

end Coordinator

/-! ### The call that throws -/

/-- A `DISPATCH` that names a connected worker and an execution that has no
record. -/
def Coordinator.Astray (k : Coordinator) (type : MsgType) (payload : ByteString)
    (order : List ℕ) : Prop :=
  type = .dispatch ∧ ∃ dp, unpackDispatch payload = .ok dp ∧ k.workerConn order dp.workerId ≠ 0 ∧
    k.engine.find dp.executionId = none

section

open ExecutionEngine

variable {k : Coordinator} {conn : ℕ} {type : MsgType} {payload : ByteString} {amb : Ambient}
  {order : List ℕ}

/-- A single call with a checked lookup. -/
theorem meets_checked {s : ExecutionEngine} {op : Op} (hrequires : op.requires = none) :
    engine.Meets Answers s [⟨op, amb⟩] :=
  ⟨answers_iff.2 fun _ hid => absurd (hrequires.symm.trans hid) nofun, trivial⟩

/-- An activation finds the record that was just created. -/
theorem meets_submitting (sp : SubmitPayload) :
    engine.Meets Answers k.engine (k.submitting amb sp) := by
  unfold Coordinator.submitting
  split
  · rename_i hcode
    refine ⟨(meets_checked rfl).1, answers_iff.2 fun id hrequires => ?_, trivial⟩
    obtain rfl : sp.executionId = id := Option.some.inj hrequires
    exact create_allows rfl (congrArg some hcode)
  · exact meets_checked rfl

theorem meets_dispatching {s : ExecutionEngine} {id : ExecutionId} {worker : WorkerId}
    {boot : WorkerBootId} {e : CoordinatorEpoch} :
    engine.Meets Answers s [⟨.dispatch id worker boot e, amb⟩] ↔ s.find id ≠ none := by
  refine (and_iff_left trivial).trans (answers_iff.trans ⟨fun h => h id rfl, fun h k hk => ?_⟩)
  obtain rfl : id = k := Option.some.inj hk
  exact h

/-- All calls of an entry are answered, unless it goes astray. -/
theorem meets_requests_iff : engine.Meets Answers k.engine
    (k.requests conn type payload amb order) ↔ ¬k.Astray type payload order := by
  have hasking := k.requests_asking conn type payload amb order
  generalize k.requests conn type payload amb order = calls at hasking
  cases hasking with
  | nothing hsubmit hdispatch hcancel =>
      refine iff_of_true trivial ?_
      rintro ⟨htype, dp, hp, hworker, -⟩
      exact hworker (hdispatch htype dp hp)
  | submit htype hp =>
      exact iff_of_true (meets_submitting _) fun h => absurd (htype.symm.trans h.1) (by decide)
  | @dispatch dp htype hp hworker =>
      rw [meets_dispatching]
      refine not_congr ⟨fun hnone => ⟨htype, dp, hp, hworker, hnone⟩, ?_⟩
      rintro ⟨-, dp', hp', -, hnone⟩
      obtain rfl := Except.ok.inj (hp.symm.trans hp')
      exact hnone
  | cancel htype hp =>
      exact iff_of_true (meets_checked rfl) fun h => absurd (htype.symm.trans h.1) (by decide)
  | routine hroutine hsubmit hdispatch hcancel =>
      exact iff_of_true (meets_checked (Op.requires_of_routine hroutine)) fun h => hdispatch h.1

/-- All calls of an entry return, unless it goes astray. -/
theorem calls_return (h : ¬k.Astray type payload order) :
    (Turn.decide { coordinator := k } conn type payload amb order).calls.all
      (fun x => !x.2.threw) = true := by
  rw [List.all_eq_true, (Turn.decide_follows k conn type payload amb order).made]
  intro x hx
  obtain ⟨s, hanswers, hout⟩ := Machine.Meets.event (meets_requests_iff.2 h) hx
  rw [hout, hanswers.returns]
  rfl

/-- An entry of the queue leaves the decision thread as it was, with every call
answered, exactly when it does not go astray. -/
theorem frame_answered_iff (k : Coordinator) (conn : ℕ) (type : MsgType) (payload : ByteString)
    (amb : Ambient) (order : List ℕ) :
    ((Turn.decide { coordinator := k } conn type payload amb order).coordinator.alive = k.alive ∧
      engine.Meets Answers k.engine
        ((Turn.decide { coordinator := k } conn type payload amb order).calls.map (·.1))) ↔
      ¬k.Astray type payload order := by
  have hfollows := Turn.decide_follows k conn type payload amb order
  rw [hfollows.made, Machine.map_fst_trace, meets_requests_iff, and_iff_right_iff_imp]
  intro hastray
  rw [hfollows.alive, calls_return hastray, Bool.and_true]

end

/-- One worker is connected, and a dispatch names an execution that was never
submitted. -/
theorem unknown_dispatch_throws :
    ¬∀ persistent file e₀ h k, Runs coordinator Always (.construct persistent file e₀) h k →
      ∀ conn type payload amb order, k.alive = true →
        (Turn.decide { coordinator := k } conn type payload amb order).coordinator.alive = true := by
  intro hclaim
  let k := coordinator.run (.construct false none ⟨1⟩) Sample.connecting
  have run := runs_always coordinator (.construct false none ⟨1⟩) Sample.connecting
  have halive := hclaim false none ⟨1⟩ _ k run 1 .dispatch
    (packDispatch (Sample.dispatchRequest Sample.execution 1)) (Sample.ambient 10) []
    (by decide +kernel)
  have hdead : (coordinator.next k (Sample.dispatchFrame Sample.execution 10 1)).alive = false := by
    decide +kernel
  exact absurd (hdead.symm.trans halive) nofun

end ExecutionFabric
