import ExecutionFabric.Generation
import ExecutionFabric.StateMachine

/-!
The data of the authority model: result digests, decisions, tickets, and the
records of attempts and executions.
-/

namespace ExecutionFabric

/-- A SHA-256 fingerprint of a result payload. -/
structure ResultDigest where
  bytes : List.Vector UInt8 32
  deriving DecidableEq

namespace ResultDigest

def nil : ResultDigest := ⟨List.Vector.replicate 32 0⟩

def isNil (d : ResultDigest) : Bool := d.bytes.toList.all (· == 0)

end ResultDigest

inductive DecisionCode
  | allow | rejectStaleEpoch | rejectStaleBoot | rejectStaleAttempt | rejectStaleGeneration
  | rejectNotOwner | rejectAlreadyTerminal | rejectCancelled | rejectPreempted
  | rejectConflictingCompletion | rejectAlreadyCommitted | rejectInsufficientAuthority
  | retryAllowed | resumeAllowed | defer | unknown | rejectExists | rejectUnknownExecution
  | rejectNoCurrentAttempt | retryRejected
  deriving DecidableEq

namespace DecisionCode

def code : DecisionCode → UInt8
  | allow => 0 | rejectStaleEpoch => 1 | rejectStaleBoot => 2 | rejectStaleAttempt => 3
  | rejectStaleGeneration => 4 | rejectNotOwner => 5 | rejectAlreadyTerminal => 6
  | rejectCancelled => 7 | rejectPreempted => 8 | rejectConflictingCompletion => 9
  | rejectAlreadyCommitted => 10 | rejectInsufficientAuthority => 11 | retryAllowed => 12
  | resumeAllowed => 13 | defer => 14 | unknown => 15 | rejectExists => 16
  | rejectUnknownExecution => 17 | rejectNoCurrentAttempt => 18 | retryRejected => 19

/-- The checked cast back. -/
def ofCode? (c : UInt8) : Option DecisionCode :=
  [allow, rejectStaleEpoch, rejectStaleBoot, rejectStaleAttempt, rejectStaleGeneration,
    rejectNotOwner, rejectAlreadyTerminal, rejectCancelled, rejectPreempted,
    rejectConflictingCompletion, rejectAlreadyCommitted, rejectInsufficientAuthority, retryAllowed,
    resumeAllowed, defer, unknown, rejectExists, rejectUnknownExecution, rejectNoCurrentAttempt,
    retryRejected][c.toNat]?

@[simp] theorem ofCode?_code (c : DecisionCode) : ofCode? c.code = some c := by
  cases c <;> rfl

theorem code_of_ofCode? {c : UInt8} {d : DecisionCode} (h : ofCode? c = some d) : d.code = c :=
  code_of_getElem? (by decide) h

def toText : DecisionCode → ByteString
  | allow => text "ALLOW"
  | rejectStaleEpoch => text "REJECT_STALE_EPOCH"
  | rejectStaleBoot => text "REJECT_STALE_BOOT"
  | rejectStaleAttempt => text "REJECT_STALE_ATTEMPT"
  | rejectStaleGeneration => text "REJECT_STALE_GENERATION"
  | rejectNotOwner => text "REJECT_NOT_OWNER"
  | rejectAlreadyTerminal => text "REJECT_ALREADY_TERMINAL"
  | rejectCancelled => text "REJECT_CANCELLED"
  | rejectPreempted => text "REJECT_PREEMPTED"
  | rejectConflictingCompletion => text "REJECT_CONFLICTING_COMPLETION"
  | rejectAlreadyCommitted => text "REJECT_ALREADY_COMMITTED"
  | rejectInsufficientAuthority => text "REJECT_INSUFFICIENT_AUTHORITY"
  | retryAllowed => text "RETRY_ALLOWED"
  | resumeAllowed => text "RESUME_ALLOWED"
  | defer => text "DEFER"
  | unknown => text "UNKNOWN"
  | rejectExists => text "REJECT_EXISTS"
  | rejectUnknownExecution => text "REJECT_UNKNOWN_EXECUTION"
  | rejectNoCurrentAttempt => text "REJECT_NO_CURRENT_ATTEMPT"
  | retryRejected => text "RETRY_REJECTED"

end DecisionCode

/-- A decision, with the authoritative context that explains it. -/
structure Decision where
  code : DecisionCode := .unknown
  reason : ByteString := []
  executionId : Option ExecutionId := none
  executionGeneration : Option ExecutionGeneration := none
  attemptId : Option AttemptId := none
  attemptGeneration : Option AttemptGeneration := none
  workerId : Option WorkerId := none
  workerBootId : Option WorkerBootId := none
  coordinatorEpoch : Option CoordinatorEpoch := none
  dispatchId : Option DispatchId := none
  dispatchGeneration : Option DispatchGeneration := none
  ownershipGeneration : Option OwnershipGeneration := none
  fenceGeneration : Option FenceGeneration := none
  requiredAuthority : ByteString := []
  deriving DecidableEq

namespace Decision

def allowed (d : Decision) : Bool :=
  d.code = .allow || d.code = .retryAllowed || d.code = .resumeAllowed

/-- `Decision::to_string`. -/
def toText (d : Decision) : ByteString :=
  let field {α : Type} (label : String) (show' : α → ByteString) : Option α → ByteString
    | none => []
    | some a => text label ++ show' a
  d.code.toText
    ++ (if d.reason = [] then [] else text ": " ++ d.reason)
    ++ (match d.executionId with
        | none => []
        | some e =>
            text " [exec=" ++ e.toText
              ++ field " gen=" (fun g => decimal g.value.toNat) d.executionGeneration
              ++ field " attempt=" Id.toText d.attemptId
              ++ field " attemptGen=" (fun g => decimal g.value.toNat) d.attemptGeneration
              ++ field " worker=" Id.toText d.workerId
              ++ field " boot=" Id.toText d.workerBootId
              ++ field " epoch=" (fun g => decimal g.value.toNat) d.coordinatorEpoch
              ++ text "]")
    ++ (if d.requiredAuthority = [] then [] else text " required=" ++ d.requiredAuthority)

end Decision

/-- What a worker presents when it reports a physical completion. -/
structure CompletionTicket where
  executionId : ExecutionId
  executionGeneration : ExecutionGeneration
  attemptId : AttemptId
  attemptGeneration : AttemptGeneration
  workerId : WorkerId
  workerBootId : WorkerBootId
  epoch : CoordinatorEpoch
  dispatchId : DispatchId
  dispatchGeneration : DispatchGeneration
  ownershipGeneration : OwnershipGeneration
  fenceGeneration : FenceGeneration
  completionGeneration : CompletionGeneration
  hasResult : Bool
  resultDigest : ResultDigest
  deriving DecidableEq

/-- What a worker presents when it acknowledges that it started. -/
structure StartTicket where
  executionId : ExecutionId
  executionGeneration : ExecutionGeneration
  attemptId : AttemptId
  attemptGeneration : AttemptGeneration
  workerId : WorkerId
  workerBootId : WorkerBootId
  epoch : CoordinatorEpoch
  dispatchId : DispatchId
  dispatchGeneration : DispatchGeneration
  ownershipGeneration : OwnershipGeneration
  fenceGeneration : FenceGeneration
  deriving DecidableEq

/-- What the engine issues to authorise one physical attempt. -/
structure DispatchTicket where
  executionId : ExecutionId
  executionGeneration : ExecutionGeneration
  attemptId : AttemptId
  attemptGeneration : AttemptGeneration
  workerId : WorkerId
  workerBootId : WorkerBootId
  epoch : CoordinatorEpoch
  dispatchId : DispatchId
  dispatchGeneration : DispatchGeneration
  ownershipGeneration : OwnershipGeneration
  fenceGeneration : FenceGeneration
  deriving DecidableEq

/-- The start ticket a worker copies from the ticket it was issued. -/
def DispatchTicket.start (t : DispatchTicket) : StartTicket where
  executionId := t.executionId
  executionGeneration := t.executionGeneration
  attemptId := t.attemptId
  attemptGeneration := t.attemptGeneration
  workerId := t.workerId
  workerBootId := t.workerBootId
  epoch := t.epoch
  dispatchId := t.dispatchId
  dispatchGeneration := t.dispatchGeneration
  ownershipGeneration := t.ownershipGeneration
  fenceGeneration := t.fenceGeneration

/-- The completion ticket a worker copies from the ticket it was issued. -/
def DispatchTicket.completion (t : DispatchTicket) (digest : ResultDigest) :
    CompletionTicket where
  executionId := t.executionId
  executionGeneration := t.executionGeneration
  attemptId := t.attemptId
  attemptGeneration := t.attemptGeneration
  workerId := t.workerId
  workerBootId := t.workerBootId
  epoch := t.epoch
  dispatchId := t.dispatchId
  dispatchGeneration := t.dispatchGeneration
  ownershipGeneration := t.ownershipGeneration
  fenceGeneration := t.fenceGeneration
  completionGeneration := ⟨1⟩
  hasResult := true
  resultDigest := digest

/-- A request for cancellation or preemption. -/
structure ControlRequest where
  executionId : ExecutionId
  executionGeneration : ExecutionGeneration
  epoch : CoordinatorEpoch
  authorityGeneration : OwnershipGeneration
  cancellationGeneration : CancellationGeneration := ⟨0⟩
  preemptionGeneration : PreemptionGeneration := ⟨0⟩
  resumeGeneration : ResumeGeneration := ⟨0⟩
  deriving DecidableEq

/-- The durable snapshot of one physical attempt. -/
structure AttemptRecord where
  id : AttemptId
  generation : AttemptGeneration
  workerId : WorkerId
  workerBootId : WorkerBootId
  dispatchId : DispatchId
  dispatchGeneration : DispatchGeneration
  ownershipGeneration : OwnershipGeneration
  fenceGeneration : FenceGeneration
  executionStateAtDispatch : ExecutionState := .created
  state : AttemptState := .created
  resultDigest : Option ResultDigest := none
  resultPayloadHex : Option ByteString := none
  failureReason : Option ByteString := none
  deriving DecidableEq

/-- The durable authoritative record of one logical execution. -/
structure ExecutionRecord where
  id : ExecutionId
  generation : ExecutionGeneration
  state : ExecutionState := .created
  coordinatorEpoch : CoordinatorEpoch
  ownershipGeneration : OwnershipGeneration := ⟨0⟩
  fenceGeneration : FenceGeneration := ⟨0⟩
  currentAttemptId : Option AttemptId := none
  currentAttemptGeneration : Option AttemptGeneration := none
  ownerWorker : Option WorkerId := none
  ownerWorkerBoot : Option WorkerBootId := none
  cancellationGeneration : CancellationGeneration := ⟨0⟩
  preemptionGeneration : PreemptionGeneration := ⟨0⟩
  resumeGeneration : ResumeGeneration := ⟨0⟩
  completionGeneration : CompletionGeneration := ⟨0⟩
  commitGeneration : CommitGeneration := ⟨0⟩
  committedDigest : Option ResultDigest := none
  attempts : List AttemptRecord := []
  createdAt : ByteString := []
  committedAt : ByteString := []
  deriving DecidableEq

end ExecutionFabric
