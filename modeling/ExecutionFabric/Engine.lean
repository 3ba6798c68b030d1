import ExecutionFabric.Library.Collections
import ExecutionFabric.Library.StepMachine
import ExecutionFabric.Record
import Mathlib.Data.Finmap

/-!
The engine: the pure component that holds the authoritative record of every
execution and answers each requested mutation with a decision.

The operations are the member functions of `ExecutionEngine`, branch by branch
and in the source's order of checks, because several of them write to the
record before a check that may still refuse. An operation that mutates a
record in place works on a local copy here and stores it back under the key it
was looked up with; where the source returns between two writes, the copy as
it is at that point is stored.

Three things come from outside: the clock text, and the words the two random
identifiers of `dispatch` and `resume` are made of. They are the `Ambient` of
a call. The map is unordered in the source and only ever enumerated sorted, so
it is a `Finmap`.
-/

namespace ExecutionFabric

open Collections

/-- What the environment supplies to one call. `strftime` writes into a buffer
of 64 bytes, its terminator included. -/
structure Ambient where
  now : { t : ByteString // t.length < 64 }
  attemptWords : RandomWords
  dispatchWords : RandomWords

namespace ExecutionEngine

def refuse (code : DecisionCode) (reason : String) : Decision := { code, reason := text reason }

/-- `fill_context`: the authoritative context that explains a decision. -/
def fillContext (d : Decision) (r : ExecutionRecord) : Decision :=
  { d with
    executionId := some r.id
    executionGeneration := some r.generation
    coordinatorEpoch := some r.coordinatorEpoch
    ownershipGeneration := some r.ownershipGeneration
    fenceGeneration := some r.fenceGeneration
    attemptId := r.currentAttemptId.or d.attemptId
    attemptGeneration := r.currentAttemptGeneration.or d.attemptGeneration
    workerId := r.ownerWorker.or d.workerId
    workerBootId := r.ownerWorkerBoot.or d.workerBootId }

def transition (r : ExecutionRecord) (target : ExecutionState) : Decision × ExecutionRecord :=
  if ExecutionStateMachine.fromTo r.state target then
    let r := { r with state := target }
    (fillContext { code := .allow, reason := text "execution transitioned " ++ target.toText } r, r)
  else
    (fillContext
      { code := .rejectAlreadyTerminal
        reason := text "invalid execution state transition " ++ r.state.toText ++ text " -> "
          ++ target.toText } r, r)

def transitionAttempt (a : AttemptRecord) (target : AttemptState) : Decision × AttemptRecord :=
  if AttemptStateMachine.fromTo a.state target then
    ({ code := .allow, reason := text "attempt transitioned " ++ target.toText },
      { a with state := target })
  else
    ({ code := .rejectNoCurrentAttempt
       reason := text "invalid attempt state transition " ++ a.state.toText ++ text " -> "
        ++ target.toText }, a)

end ExecutionEngine

/-- `transition_attempt` with its answer ignored, as every caller ignores it. -/
def AttemptRecord.move (a : AttemptRecord) (target : AttemptState) : AttemptRecord :=
  (ExecutionEngine.transitionAttempt a target).2

namespace ExecutionRecord

/-- The loop over the attempts that match the current one and are not terminal,
without a `break`: `finalize_cancel`, `acknowledge_preempt`, `supersede`. -/
def retireCurrent (r : ExecutionRecord) (target : AttemptState) : ExecutionRecord :=
  { r with
    attempts := updateAll
      (fun a => some a.id == r.currentAttemptId && !AttemptStateMachine.isTerminal a.state)
      (·.move target) r.attempts }

/-- The loop of `dispatch`: supersede the current attempt, if there is one. -/
def supersedeCurrent (r : ExecutionRecord) : ExecutionRecord :=
  match r.currentAttemptId with
  | none => r
  | some current =>
      { r with
        attempts := updateFirst
          (fun a => a.id == current && !AttemptStateMachine.isTerminal a.state)
          (·.move .superseded) r.attempts }

/-- The loop of `resume`: supersede the preempted attempt. -/
def supersedePreempted (r : ExecutionRecord) : ExecutionRecord :=
  { r with
    attempts := updateFirst
      (fun a => some a.id == r.currentAttemptId && a.state == .preempted)
      (·.move .superseded) r.attempts }

/-- The loop of `mark_worker_lost`. -/
def loseCurrent (r : ExecutionRecord) : ExecutionRecord :=
  { r with
    attempts := updateAll (fun a => some a.id == r.currentAttemptId) (·.move .lost) r.attempts }

/-- The loop of `mark_running`. -/
def startAttempt (r : ExecutionRecord) (id : AttemptId) : ExecutionRecord :=
  { r with attempts := updateFirst (fun a => a.id == id) (·.move .running) r.attempts }

/-- The loop of `complete`. -/
def completeAttempt (r : ExecutionRecord) (id : AttemptId) (digest : ResultDigest) :
    ExecutionRecord :=
  { r with
    attempts := updateFirst (fun a => a.id == id)
      (fun a => { a.move .completed with resultDigest := some digest }) r.attempts }

/-- The attempt that `dispatch` and `resume` build from the record. -/
def nextAttempt (r : ExecutionRecord) (amb : Ambient) (worker : WorkerId) (boot : WorkerBootId) :
    AttemptRecord where
  id := Id.random amb.attemptWords
  generation := match r.currentAttemptGeneration with
    | some g => g.next
    | none => ⟨1⟩
  workerId := worker
  workerBootId := boot
  dispatchId := Id.random amb.dispatchWords
  dispatchGeneration := ⟨1⟩
  ownershipGeneration := r.ownershipGeneration.next
  fenceGeneration := r.fenceGeneration.next
  executionStateAtDispatch := r.state
  state := .dispatched

/-- Make a new attempt the current one and append it to the history. -/
def install (r : ExecutionRecord) (a : AttemptRecord) : ExecutionRecord :=
  { r with
    currentAttemptId := some a.id
    currentAttemptGeneration := some a.generation
    ownerWorker := some a.workerId
    ownerWorkerBoot := some a.workerBootId
    ownershipGeneration := a.ownershipGeneration
    fenceGeneration := a.fenceGeneration
    attempts := r.attempts ++ [a] }

/-- The ticket that names the attempt just made. -/
def ticketFor (r : ExecutionRecord) (epoch : CoordinatorEpoch) (made : AttemptRecord) :
    DispatchTicket where
  executionId := r.id
  executionGeneration := r.generation
  attemptId := made.id
  attemptGeneration := made.generation
  workerId := made.workerId
  workerBootId := made.workerBootId
  epoch := epoch
  dispatchId := made.dispatchId
  dispatchGeneration := made.dispatchGeneration
  ownershipGeneration := made.ownershipGeneration
  fenceGeneration := made.fenceGeneration

/-- What `supersede` writes before its transition: the next generation, and no
current attempt and no owner. -/
def dropAuthority (r : ExecutionRecord) : ExecutionRecord :=
  { r with
    generation := r.generation.next
    currentAttemptId := none
    currentAttemptGeneration := none
    ownerWorker := none
    ownerWorkerBoot := none }

end ExecutionRecord

structure ExecutionEngine where
  epoch : CoordinatorEpoch
  records : Finmap fun _ : ExecutionId => ExecutionRecord

/-- The exception of `std::unordered_map::at`. -/
structure OutOfRange where

/-- What `dispatch` and `resume` give back: the decision, the engine, the
ticket if `out_ticket` was filled, and the identifiers if they were drawn. -/
structure Issue where
  decision : Decision
  engine : ExecutionEngine
  ticket : Option DispatchTicket := none
  drawn : Option (AttemptId × DispatchId) := none

namespace ExecutionEngine

def init (epoch : CoordinatorEpoch) : ExecutionEngine := ⟨epoch, ∅⟩

def find (s : ExecutionEngine) (id : ExecutionId) : Option ExecutionRecord := s.records.lookup id

/-- Write a record back through the reference it was found by. -/
def store (s : ExecutionEngine) (id : ExecutionId) (r : ExecutionRecord) : ExecutionEngine :=
  { s with records := s.records.insert id r }

def adoptEpoch (s : ExecutionEngine) (e : CoordinatorEpoch) : ExecutionEngine :=
  if s.epoch < e then { s with epoch := e } else s

def raiseEpoch (s : ExecutionEngine) (e : CoordinatorEpoch) : ExecutionEngine := s.adoptEpoch e

/-- `records()`: all records, in the order of their identifiers. -/
def recordList (s : ExecutionEngine) : List ExecutionRecord :=
  (sortKeys s.records.keys).filterMap s.find

/-- `emplace` keeps an entry that is already there. -/
def emplace (m : Finmap fun _ : ExecutionId => ExecutionRecord) (r : ExecutionRecord) :
    Finmap fun _ : ExecutionId => ExecutionRecord :=
  if (m.lookup r.id).isSome then m else m.insert r.id r

/-- Install recovered records and adopt the highest epoch among them. -/
def replaceRecords (s : ExecutionEngine) (rs : List ExecutionRecord) : ExecutionEngine :=
  let records := rs.foldl emplace ∅
  { epoch := (records.entries.map fun kv => kv.2.coordinatorEpoch).fold max s.epoch
    records }

/-! ### Creation and activation -/

def create (s : ExecutionEngine) (amb : Ambient) (id : ExecutionId) (epoch : CoordinatorEpoch) :
    Decision × ExecutionEngine :=
  if epoch < s.epoch then
    ({ code := .rejectStaleEpoch
       reason := text "create rejected: coordinator epoch " ++ decimal epoch.value.toNat
        ++ text " is older than current " ++ decimal s.epoch.value.toNat
       executionId := some id
       coordinatorEpoch := some s.epoch }, s)
  else
    let s := s.adoptEpoch epoch
    if (s.find id).isSome then
      ({ refuse .rejectExists "create rejected: execution already exists" with
          executionId := some id
          coordinatorEpoch := some s.epoch }, s)
    else
      ({ code := .allow
         reason := text "execution created"
         executionId := some id
         coordinatorEpoch := some s.epoch },
        s.store id
          { id, generation := ⟨1⟩, coordinatorEpoch := s.epoch, createdAt := amb.now })

def activate (s : ExecutionEngine) (id : ExecutionId) (epoch : CoordinatorEpoch) :
    Except OutOfRange (Decision × ExecutionEngine) :=
  match s.find id with
  | none => .error ⟨⟩
  | some r => .ok <|
    if epoch < s.epoch ∨ epoch < r.coordinatorEpoch then
      (fillContext (refuse .rejectStaleEpoch "activate rejected: stale coordinator epoch") r, s)
    else
      let s := s.adoptEpoch epoch
      if r.state ≠ .created then
        (fillContext (refuse .rejectAlreadyTerminal
          "activate rejected: execution is not in CREATED state") r, s)
      else
        let tr := transition { r with ownershipGeneration := ⟨1⟩, fenceGeneration := ⟨1⟩ } .ready
        (tr.1, s.store id tr.2)

/-! ### Dispatch -/

def dispatch (s : ExecutionEngine) (amb : Ambient) (id : ExecutionId) (worker : WorkerId)
    (boot : WorkerBootId) (epoch : CoordinatorEpoch) : Except OutOfRange Issue :=
  match s.find id with
  | none => .error ⟨⟩
  | some r => .ok <|
    if epoch < s.epoch ∨ epoch < r.coordinatorEpoch then
      { decision := fillContext
          (refuse .rejectStaleEpoch "dispatch rejected: stale coordinator epoch") r
        engine := s }
    else
      let s := s.adoptEpoch epoch
      if r.state = .committed then
        { decision := fillContext
            (refuse .rejectAlreadyCommitted "dispatch rejected: execution already committed") r
          engine := s }
      else if r.state = .cancelled then
        { decision := fillContext
            (refuse .rejectCancelled "dispatch rejected: execution is cancelled") r
          engine := s }
      else if r.state = .failed ∨ r.state = .superseded ∨ r.state = .terminal then
        { decision := fillContext
            (refuse .rejectAlreadyTerminal "dispatch rejected: execution is terminal") r
          engine := s }
      else if r.state = .preempted ∨ r.state = .resumable then
        { decision := fillContext (refuse .rejectPreempted
            "dispatch rejected: execution is preempted; it must be resumed, not re-dispatched") r
          engine := s }
      else if r.state = .cancellationRequested ∨ r.state = .preemptionRequested then
        { decision := fillContext
            (refuse .defer "dispatch deferred: control operation in flight") r
          engine := s }
      else if r.state = .completed then
        { decision := fillContext
            (refuse .rejectAlreadyCommitted "dispatch rejected: execution already completed") r
          engine := s }
      else if ¬(r.state = .ready ∨ r.state = .dispatched ∨ r.state = .running ∨
          r.state = .ambiguous ∨ r.state = .resuming) then
        { decision := fillContext
            (refuse .rejectNotOwner "dispatch rejected: execution not in a dispatchable state") r
          engine := s }
      else
        let made := r.nextAttempt amb worker boot
        let r := r.supersedeCurrent.install made
        let tr := transition r .dispatched
        let drawn := some (made.id, made.dispatchId)
        if tr.1.code ≠ .allow then
          -- the source's "should not happen" branch: the new attempt stays installed
          { decision := tr.1, engine := s.store id tr.2, drawn }
        else
          let r := tr.2
          { decision := fillContext
              { code := .allow
                reason := text "dispatch authorised: attempt supersedes prior authority; "
                  ++ text "attempt generation " ++ decimal made.generation.value.toNat } r
            engine := s.store id r
            ticket := some (r.ticketFor s.epoch made)
            drawn }

/-! ### Start -/

def validateStart (s : ExecutionEngine) (r : ExecutionRecord) (t : StartTicket) : Decision :=
  if t.epoch ≠ s.epoch then
    refuse .rejectStaleEpoch "start rejected: stale coordinator epoch"
  else if t.executionGeneration ≠ r.generation then
    refuse .rejectStaleGeneration "start rejected: execution generation mismatch"
  else if r.currentAttemptId = none ∨ r.currentAttemptGeneration = none then
    refuse .rejectNoCurrentAttempt "start rejected: no current attempt"
  else if some t.attemptId ≠ r.currentAttemptId ∨
      some t.attemptGeneration ≠ r.currentAttemptGeneration then
    refuse .rejectStaleAttempt "start rejected: attempt is not the current attempt"
  else if some t.workerId ≠ r.ownerWorker ∨ some t.workerBootId ≠ r.ownerWorkerBoot then
    refuse .rejectStaleBoot "start rejected: worker/boot does not own the attempt"
  else if t.ownershipGeneration ≠ r.ownershipGeneration then
    refuse .rejectNotOwner "start rejected: ownership generation mismatch"
  else if t.fenceGeneration ≠ r.fenceGeneration then
    refuse .rejectStaleGeneration "start rejected: fence generation mismatch"
  else { code := .allow }

def markRunning (s : ExecutionEngine) (t : StartTicket) : Decision × ExecutionEngine :=
  match s.find t.executionId with
  | none => (refuse .rejectUnknownExecution "start rejected: unknown execution", s)
  | some r =>
    if r.state ≠ .dispatched ∧ r.state ≠ .resuming then
      (fillContext (refuse .rejectAlreadyTerminal
        "start rejected: execution not waiting on a running attempt") r, s)
    else
      let v := s.validateStart r t
      if v.code ≠ .allow then (fillContext v r, s)
      else
        let tr := transition (r.startAttempt t.attemptId) .running
        (fillContext tr.1 tr.2, s.store t.executionId tr.2)

/-! ### Completion -/

def validateTicket (s : ExecutionEngine) (r : ExecutionRecord) (t : CompletionTicket) : Decision :=
  if t.executionId.isNil ∨ t.attemptId.isNil ∨ t.workerId.isNil ∨ t.workerBootId.isNil ∨
      t.dispatchId.isNil then
    refuse .rejectInsufficientAuthority
      "completion rejected: ticket lacks a required identity field"
  else if ¬t.attemptGeneration.isSet ∨ ¬t.executionGeneration.isSet ∨
      ¬t.ownershipGeneration.isSet ∨ ¬t.fenceGeneration.isSet then
    refuse .rejectInsufficientAuthority
      "completion rejected: ticket lacks a required generation counter"
  else if t.epoch ≠ s.epoch ∨ t.epoch ≠ r.coordinatorEpoch then
    refuse .rejectStaleEpoch "completion rejected: coordinator epoch mismatch"
  else if t.executionGeneration ≠ r.generation then
    refuse .rejectStaleGeneration "completion rejected: execution generation mismatch"
  else if r.currentAttemptId = none ∨ r.currentAttemptGeneration = none then
    refuse .rejectNoCurrentAttempt "completion rejected: no current attempt"
  else if some t.attemptId ≠ r.currentAttemptId ∨
      some t.attemptGeneration ≠ r.currentAttemptGeneration then
    refuse .rejectStaleAttempt
      "completion rejected: attempt is not the current attempt; a newer attempt has authority"
  else if some t.workerId ≠ r.ownerWorker then
    refuse .rejectNotOwner "completion rejected: worker does not own the attempt"
  else if some t.workerBootId ≠ r.ownerWorkerBoot then
    refuse .rejectStaleBoot "completion rejected: WorkerBootId is not the live incarnation"
  else if t.ownershipGeneration ≠ r.ownershipGeneration then
    refuse .rejectStaleGeneration "completion rejected: ownership generation mismatch"
  else if t.fenceGeneration ≠ r.fenceGeneration then
    refuse .rejectStaleGeneration "completion rejected: fence generation mismatch"
  else if r.attempts.any fun a => a.id == t.attemptId && a.dispatchId != t.dispatchId then
    refuse .rejectStaleAttempt
      "completion rejected: dispatch identity does not match the attempt"
  else { code := .allow }

def complete (s : ExecutionEngine) (amb : Ambient) (t : CompletionTicket) :
    Decision × ExecutionEngine :=
  match s.find t.executionId with
  | none => (refuse .rejectUnknownExecution "completion rejected: unknown execution", s)
  | some r =>
    let v := s.validateTicket r t
    if v.code ≠ .allow then (fillContext v r, s)
    else if r.state = .committed then
      if t.hasResult ∧ r.committedDigest = some t.resultDigest then
        (fillContext (refuse .rejectAlreadyCommitted
          "completion is a duplicate of the committed result; no double commit (idempotent)") r, s)
      else
        (fillContext (refuse .rejectConflictingCompletion
          "completion conflicts with the already-committed result") r, s)
    else if ExecutionStateMachine.isTerminal r.state then
      if r.state = .cancelled then
        (fillContext (refuse .rejectCancelled
          "completion rejected: execution is cancelled; late completion after cancellation") r, s)
      else
        (fillContext (refuse .rejectAlreadyTerminal
          "completion rejected: execution is in a terminal state") r, s)
    else if r.state = .preempted then
      (fillContext (refuse .rejectPreempted
        "completion rejected: attempt was preempted; only a post-resume attempt may complete") r, s)
    else if ¬t.hasResult ∨ t.resultDigest.isNil then
      (fillContext (refuse .rejectInsufficientAuthority
        "completion rejected: authoritative completion must carry a result digest") r, s)
    else
      -- a requested cancellation or preemption does not stop the completion
      let c := transition (r.completeAttempt t.attemptId t.resultDigest) .completed
      if c.1.code ≠ .allow then (c.1, s.store t.executionId c.2)
      else
        let c := transition
          { c.2 with
            committedDigest := some t.resultDigest
            commitGeneration := c.2.commitGeneration.next
            committedAt := amb.now } .committed
        (fillContext c.1 c.2, s.store t.executionId c.2)

/-! ### Control -/

def cancel (s : ExecutionEngine) (req : ControlRequest) : Decision × ExecutionEngine :=
  match s.find req.executionId with
  | none => (refuse .rejectUnknownExecution "cancel rejected: unknown execution", s)
  | some r =>
    if req.epoch ≠ s.epoch ∨ req.epoch ≠ r.coordinatorEpoch then
      (fillContext (refuse .rejectStaleEpoch "cancel rejected: stale coordinator epoch") r, s)
    else if req.authorityGeneration ≠ r.ownershipGeneration then
      (fillContext (refuse .rejectNotOwner
        "cancel rejected: caller does not hold current ownership authority") r, s)
    else if ExecutionStateMachine.isTerminal r.state then
      (fillContext (refuse .rejectAlreadyTerminal "cancel rejected: execution is terminal") r, s)
    else if r.state = .cancellationRequested then
      (fillContext (refuse .allow "cancel is already requested (idempotent)") r, s)
    else
      let r := { r with cancellationGeneration := r.cancellationGeneration.next }
      if r.state = .created then
        let tr := transition r .cancelled
        (tr.1, s.store req.executionId tr.2)
      else if r.state = .ready ∨ r.state = .dispatched ∨ r.state = .running then
        let tr := transition r .cancellationRequested
        (tr.1, s.store req.executionId tr.2)
      else
        (fillContext (refuse .rejectNotOwner
          "cancel rejected: execution not in a cancellable state") r, s.store req.executionId r)

def finalizeCancel (s : ExecutionEngine) (id : ExecutionId) (epoch : CoordinatorEpoch) :
    Decision × ExecutionEngine :=
  match s.find id with
  | none => (refuse .rejectUnknownExecution "finalize_cancel rejected: unknown execution", s)
  | some r =>
    if epoch < s.epoch ∨ epoch < r.coordinatorEpoch then
      (fillContext (refuse .rejectStaleEpoch
        "finalize_cancel rejected: stale coordinator epoch") r, s)
    else if r.state = .cancelled then
      (fillContext (refuse .allow "cancellation already terminal (idempotent)") r, s)
    else if r.state ≠ .cancellationRequested then
      (fillContext (refuse .rejectNotOwner
        "finalize_cancel rejected: cancellation not in flight") r, s)
    else
      let tr := transition (r.retireCurrent .cancelled) .cancelled
      (tr.1, s.store id tr.2)

def preempt (s : ExecutionEngine) (req : ControlRequest) : Decision × ExecutionEngine :=
  match s.find req.executionId with
  | none => (refuse .rejectUnknownExecution "preempt rejected: unknown execution", s)
  | some r =>
    if req.epoch ≠ s.epoch ∨ req.epoch ≠ r.coordinatorEpoch then
      (fillContext (refuse .rejectStaleEpoch "preempt rejected: stale coordinator epoch") r, s)
    else if req.authorityGeneration ≠ r.ownershipGeneration then
      (fillContext (refuse .rejectNotOwner
        "preempt rejected: caller does not hold current ownership authority") r, s)
    else if ExecutionStateMachine.isTerminal r.state then
      (fillContext (refuse .rejectAlreadyTerminal "preempt rejected: execution is terminal") r, s)
    else if r.state = .preemptionRequested then
      (fillContext (refuse .allow "preemption already requested (idempotent)") r, s)
    else if r.state = .dispatched ∨ r.state = .running then
      let tr := transition
        { r with preemptionGeneration := r.preemptionGeneration.next } .preemptionRequested
      (tr.1, s.store req.executionId tr.2)
    else
      (fillContext (refuse .rejectNotOwner
        "preempt rejected: execution not running or dispatched") r, s)

def acknowledgePreempt (s : ExecutionEngine) (id : ExecutionId) (epoch : CoordinatorEpoch) :
    Decision × ExecutionEngine :=
  match s.find id with
  | none => (refuse .rejectUnknownExecution "acknowledge_preempt rejected: unknown execution", s)
  | some r =>
    if epoch < s.epoch ∨ epoch < r.coordinatorEpoch then
      (fillContext (refuse .rejectStaleEpoch
        "acknowledge_preempt rejected: stale coordinator epoch") r, s)
    else if r.state ≠ .preemptionRequested then
      (fillContext (refuse .rejectNotOwner
        "acknowledge_preempt rejected: preemption not in flight") r, s)
    else
      let tr := transition (r.retireCurrent .preempted) .preempted
      (tr.1, s.store id tr.2)

def markResumable (s : ExecutionEngine) (id : ExecutionId) (epoch : CoordinatorEpoch) :
    Decision × ExecutionEngine :=
  match s.find id with
  | none => (refuse .rejectUnknownExecution "mark_resumable rejected: unknown execution", s)
  | some r =>
    if epoch < s.epoch ∨ epoch < r.coordinatorEpoch then
      (fillContext (refuse .rejectStaleEpoch
        "mark_resumable rejected: stale coordinator epoch") r, s)
    else if r.state ≠ .preempted then
      (fillContext (refuse .rejectNotOwner
        "mark_resumable rejected: execution is not preempted") r, s)
    else
      let tr := transition r .resumable
      (tr.1, s.store id tr.2)

def resume (s : ExecutionEngine) (amb : Ambient) (id : ExecutionId) (worker : WorkerId)
    (boot : WorkerBootId) (epoch : CoordinatorEpoch) (resumeGen : ResumeGeneration) : Issue :=
  match s.find id with
  | none =>
    { decision := refuse .rejectUnknownExecution "resume rejected: unknown execution"
      engine := s }
  | some r =>
    if epoch ≠ s.epoch ∨ epoch ≠ r.coordinatorEpoch then
      { decision := fillContext
          (refuse .rejectStaleEpoch "resume rejected: stale coordinator epoch") r
        engine := s }
    else if r.state ≠ .resumable then
      { decision := fillContext
          (refuse .rejectPreempted "resume rejected: execution is not resumable") r
        engine := s }
    else if resumeGen ≠ r.resumeGeneration.next then
      { decision := fillContext (refuse .rejectStaleGeneration
          "resume rejected: resume generation is stale (must advance once per resume)") r
        engine := s }
    else
      let r := { r with resumeGeneration := resumeGen }
      let made := r.nextAttempt amb worker boot
      let tr := transition (r.supersedePreempted.install made) .resuming
      let drawn := some (made.id, made.dispatchId)
      if tr.1.code ≠ .allow then
        { decision := tr.1, engine := s.store id tr.2, drawn }
      else
        let r := tr.2
        { decision := fillContext (refuse .resumeAllowed
            "resume authorised: fresh attempt supersedes preempted attempt") r
          engine := s.store id r
          ticket := some (r.ticketFor s.epoch made)
          drawn }

/-! ### Worker loss -/

def markWorkerLost (s : ExecutionEngine) (id : ExecutionId) (worker : WorkerId)
    (boot : WorkerBootId) (epoch : CoordinatorEpoch) : Decision × ExecutionEngine :=
  match s.find id with
  | none => (refuse .rejectUnknownExecution "worker_lost rejected: unknown execution", s)
  | some r =>
    if epoch < s.epoch ∨ epoch < r.coordinatorEpoch then
      (fillContext (refuse .rejectStaleEpoch "worker_lost rejected: stale coordinator epoch") r, s)
    else if ExecutionStateMachine.isTerminal r.state then
      (fillContext (refuse .rejectAlreadyTerminal
        "worker_lost rejected: execution is terminal") r, s)
    else if r.ownerWorker ≠ some worker ∨ r.ownerWorkerBoot ≠ some boot then
      (fillContext (refuse .rejectStaleBoot
        "worker_lost rejected: this worker is not the current owner (stale boot/incarnation)") r, s)
    else if r.state = .dispatched then
      -- the worker died before it executed: known not completed
      let tr := transition r.loseCurrent .ready
      (tr.1, s.store id tr.2)
    else if r.state = .running then
      -- the worker died while running: outcome unknown
      let tr := transition r.loseCurrent .ambiguous
      (fillContext tr.1 tr.2, s.store id tr.2)
    else if r.state = .cancellationRequested then
      let tr := transition r.loseCurrent .cancelled
      (tr.1, s.store id tr.2)
    else if r.state = .preemptionRequested then
      let tr := transition r.loseCurrent .preempted
      (tr.1, s.store id tr.2)
    else
      (fillContext (refuse .defer
        "worker_lost: execution is not in a state where loss is authoritative") r, s)

/-! ### Supersession -/

def supersede (s : ExecutionEngine) (id : ExecutionId) (epoch : CoordinatorEpoch) :
    Decision × ExecutionEngine :=
  match s.find id with
  | none => (refuse .rejectUnknownExecution "supersede rejected: unknown execution", s)
  | some r =>
    if epoch ≠ s.epoch ∨ epoch ≠ r.coordinatorEpoch then
      (fillContext (refuse .rejectStaleEpoch "supersede rejected: stale coordinator epoch") r, s)
    else if ExecutionStateMachine.isTerminal r.state ∧ r.state ≠ .ambiguous then
      (fillContext (refuse .rejectAlreadyTerminal "supersede rejected: execution is terminal") r, s)
    else
      let tr := transition (r.retireCurrent .superseded).dropAuthority .superseded
      (tr.1, s.store id tr.2)

end ExecutionEngine

/-! ### Calls -/

/-- The public mutating operations, with the arguments a caller passes. -/
inductive Op
  | create (id : ExecutionId) (epoch : CoordinatorEpoch)
  | activate (id : ExecutionId) (epoch : CoordinatorEpoch)
  | dispatch (id : ExecutionId) (worker : WorkerId) (boot : WorkerBootId)
      (epoch : CoordinatorEpoch)
  | markRunning (ticket : StartTicket)
  | complete (ticket : CompletionTicket)
  | cancel (req : ControlRequest)
  | finalizeCancel (id : ExecutionId) (epoch : CoordinatorEpoch)
  | preempt (req : ControlRequest)
  | acknowledgePreempt (id : ExecutionId) (epoch : CoordinatorEpoch)
  | markResumable (id : ExecutionId) (epoch : CoordinatorEpoch)
  | resume (id : ExecutionId) (worker : WorkerId) (boot : WorkerBootId)
      (epoch : CoordinatorEpoch) (resumeGen : ResumeGeneration)
  | markWorkerLost (id : ExecutionId) (worker : WorkerId) (boot : WorkerBootId)
      (epoch : CoordinatorEpoch)
  | supersede (id : ExecutionId) (epoch : CoordinatorEpoch)
  | raiseEpoch (epoch : CoordinatorEpoch)

structure Call where
  op : Op
  ambient : Ambient

/-- What a call gives back: whether it threw, the decision it returned, the
ticket it filled in, and the identifiers it drew from the generator. -/
structure Outcome where
  threw : Bool := false
  decision : Option Decision := none
  ticket : Option DispatchTicket := none
  drawn : Option (AttemptId × DispatchId) := none

namespace Outcome

def code? (o : Outcome) : Option DecisionCode := o.decision.map (·.code)

/-- The call returned a decision that is `allowed()`. -/
def allowed (o : Outcome) : Bool := o.decision.any (·.allowed)

/-- The call returned `ALLOW`. -/
def allows (o : Outcome) : Prop := o.code? = some .allow

instance (o : Outcome) : Decidable o.allows := inferInstanceAs (Decidable (_ = _))

end Outcome

namespace ExecutionEngine

def decided (r : Decision × ExecutionEngine) : ExecutionEngine × Outcome :=
  (r.2, { decision := some r.1 })

def issued (i : Issue) : ExecutionEngine × Outcome :=
  (i.engine, { decision := some i.decision, ticket := i.ticket, drawn := i.drawn })

/-- One call. An operation that throws changes nothing. -/
def step (s : ExecutionEngine) (c : Call) : ExecutionEngine × Outcome :=
  match c.op with
  | .create id epoch => decided (s.create c.ambient id epoch)
  | .activate id epoch =>
    match s.activate id epoch with
    | .error _ => (s, { threw := true })
    | .ok r => decided r
  | .dispatch id worker boot epoch =>
    match s.dispatch c.ambient id worker boot epoch with
    | .error _ => (s, { threw := true })
    | .ok i => issued i
  | .markRunning t => decided (s.markRunning t)
  | .complete t => decided (s.complete c.ambient t)
  | .cancel req => decided (s.cancel req)
  | .finalizeCancel id epoch => decided (s.finalizeCancel id epoch)
  | .preempt req => decided (s.preempt req)
  | .acknowledgePreempt id epoch => decided (s.acknowledgePreempt id epoch)
  | .markResumable id epoch => decided (s.markResumable id epoch)
  | .resume id worker boot epoch gen => issued (s.resume c.ambient id worker boot epoch gen)
  | .markWorkerLost id worker boot epoch => decided (s.markWorkerLost id worker boot epoch)
  | .supersede id epoch => decided (s.supersede id epoch)
  | .raiseEpoch epoch => (s.raiseEpoch epoch, {})

end ExecutionEngine

open StepMachine

/-- The engine as a machine that answers calls. -/
def engine : Machine ExecutionEngine Call Outcome := ⟨ExecutionEngine.step⟩

abbrev History := List (Call × Outcome)

end ExecutionFabric
