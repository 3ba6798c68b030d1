import ExecutionFabric.Binary
import ExecutionFabric.Record

/-!
The wire protocol: the message types, the payloads, and their codec.

An unpacked payload must end where the buffer ends. Inside the coordinator,
what it sends is kept as the payload it packs.
-/

namespace ExecutionFabric

open Reading

/-- `kFrameVersion`. -/
def frameVersion : UInt8 := 1

inductive MsgType
  | hello | welcome | registerWorker | registerAck | submit | submitAck | dispatch | dispatchAck
  | workerDispatch | workerDispatchAck | start | complete | completeAck | cancel | cancelAck
  | preempt | preemptAck | ackPreempt | markResumable | resume | resumeAck | workerLost | query
  | queryResponse | ping | pong | shutdown
  deriving DecidableEq

/-! ### Payloads -/

structure HelloPayload where
  role : UInt8
  protocolVersion : UInt8
  workerId : WorkerId
  workerBootId : WorkerBootId
  tag : ByteString

structure WelcomePayload where
  epoch : CoordinatorEpoch
  coordinatorId : ByteString
  protocolVersion : UInt32

structure RegisterAckPayload where
  accepted : Bool
  reason : ByteString

structure SubmitPayload where
  executionId : ExecutionId
  epoch : CoordinatorEpoch

/-- The state is written only when there is a record. -/
structure SubmitAckPayload where
  accepted : Bool
  executionId : ExecutionId
  generation : ExecutionGeneration := ⟨0⟩
  state : Option ExecutionState := none
  reason : ByteString

structure DispatchRequestPayload where
  executionId : ExecutionId
  epoch : CoordinatorEpoch
  workerId : WorkerId
  workerBootId : WorkerBootId

/-- A ticket that was never filled in. -/
def DispatchTicket.blank : DispatchTicket where
  executionId := .nil
  executionGeneration := ⟨0⟩
  attemptId := .nil
  attemptGeneration := ⟨0⟩
  workerId := .nil
  workerBootId := .nil
  epoch := ⟨0⟩
  dispatchId := .nil
  dispatchGeneration := ⟨0⟩
  ownershipGeneration := ⟨0⟩
  fenceGeneration := ⟨0⟩

structure DispatchAckPayload where
  accepted : Bool
  decision : DecisionCode
  reason : ByteString
  ticket : DispatchTicket := .blank

structure WorkerDispatchPayload where
  ticket : DispatchTicket
  workBytes : UInt32
  workSeed : UInt32

structure CompletePayload where
  ticket : CompletionTicket
  result : ByteString

structure CompleteAckPayload where
  decision : DecisionCode
  reason : ByteString
  committed : Bool
  committedDigest : ResultDigest := .nil

/-- The payload of `ACK_PREEMPT` and of `MARK_RESUMABLE`. -/
structure ExecutionPayload where
  executionId : ExecutionId
  epoch : CoordinatorEpoch

structure ResumeRequestPayload where
  executionId : ExecutionId
  epoch : CoordinatorEpoch
  resumeGen : ResumeGeneration
  workerId : WorkerId
  workerBootId : WorkerBootId

structure WorkerLostPayload where
  executionId : ExecutionId
  workerId : WorkerId
  workerBootId : WorkerBootId
  epoch : CoordinatorEpoch

/-- The state is written only when there is a record. -/
structure QueryResponsePayload where
  found : Bool := false
  executionId : ExecutionId
  state : Option ExecutionState := none
  generation : ExecutionGeneration := ⟨0⟩
  epoch : CoordinatorEpoch := ⟨0⟩
  currentAttempt : Option AttemptId := none
  currentAttemptGeneration : Option AttemptGeneration := none
  attemptCount : ℕ := 0
  committedDigest : Option ResultDigest := none
  detail : ByteString

/-- What the coordinator sends. -/
inductive Message
  | welcome (p : WelcomePayload)
  | registerAck (p : RegisterAckPayload)
  | submitAck (p : SubmitAckPayload)
  | dispatchAck (p : DispatchAckPayload)
  | workerDispatch (p : WorkerDispatchPayload)
  | completeAck (p : CompleteAckPayload)
  | decision (d : Decision)
  | queryResponse (p : QueryResponsePayload)
  | pong (payload : ByteString)

/-! ### Unpacking -/

/-- Run a decoder over a whole payload. A payload with bytes left over is
refused without a text. -/
def unpack {α : Type} (p : Decoder α) (b : ByteString) : Except ByteString α :=
  match p { data := b } with
  | .error e => .error e
  | .ok (a, r) => if r.ok ∧ r.remaining = 0 then .ok a else .error []

def getId {Tag : Type} : Decoder (Id Tag) := Decoder.id "truncated uuid"

def getGen {Tag : Type} : Decoder (Gen Tag) := Decoder.gen "truncated generation"

def getDigest (error : String) : Decoder ResultDigest :=
  ResultDigest.mk <$> Decoder.read (ByteReader.bytes 32) error

def getState : Decoder ExecutionState :=
  Decoder.enum ExecutionState.ofCode? "truncated state" "invalid state enum"

def getDecisionCode : Decoder DecisionCode :=
  Decoder.enum DecisionCode.ofCode? "truncated decision" "invalid decision enum"

def getDispatchTicket : Decoder DispatchTicket := do
  let executionId ← getId
  let executionGeneration ← getGen
  let attemptId ← getId
  let attemptGeneration ← getGen
  let workerId ← getId
  let workerBootId ← getId
  let epoch ← getGen
  let dispatchId ← getId
  let dispatchGeneration ← getGen
  let ownershipGeneration ← getGen
  let fenceGeneration ← getGen
  pure { executionId, executionGeneration, attemptId, attemptGeneration, workerId, workerBootId,
         epoch, dispatchId, dispatchGeneration, ownershipGeneration, fenceGeneration }

def getStartTicket : Decoder StartTicket := do
  let executionId ← getId
  let executionGeneration ← getGen
  let attemptId ← getId
  let attemptGeneration ← getGen
  let workerId ← getId
  let workerBootId ← getId
  let epoch ← getGen
  let dispatchId ← getId
  let dispatchGeneration ← getGen
  let ownershipGeneration ← getGen
  let fenceGeneration ← getGen
  pure { executionId, executionGeneration, attemptId, attemptGeneration, workerId, workerBootId,
         epoch, dispatchId, dispatchGeneration, ownershipGeneration, fenceGeneration }

/-- Without a result the digest stays what it was, which is nil in a fresh
payload. -/
def getCompletionTicket : Decoder CompletionTicket := do
  let executionId ← getId
  let executionGeneration ← getGen
  let attemptId ← getId
  let attemptGeneration ← getGen
  let workerId ← getId
  let workerBootId ← getId
  let epoch ← getGen
  let dispatchId ← getId
  let dispatchGeneration ← getGen
  let ownershipGeneration ← getGen
  let fenceGeneration ← getGen
  let completionGeneration ← getGen
  let digest ← Decoder.option "truncated has_result"
    (ResultDigest.mk <$> Decoder.read (ByteReader.bytes 32) "truncated digest")
  pure { executionId, executionGeneration, attemptId, attemptGeneration, workerId, workerBootId,
         epoch, dispatchId, dispatchGeneration, ownershipGeneration, fenceGeneration,
         completionGeneration, hasResult := digest.isSome, resultDigest := digest.getD .nil }

/-- The execution generation is not on the wire and stays unset. -/
def getControlRequest : Decoder ControlRequest := do
  let executionId ← getId
  let epoch ← getGen
  let authorityGeneration ← getGen
  let cancellationGeneration ← getGen
  let preemptionGeneration ← getGen
  let resumeGeneration ← getGen
  pure { executionId, executionGeneration := ⟨0⟩, epoch, authorityGeneration,
         cancellationGeneration, preemptionGeneration, resumeGeneration }

def unpackHello : ByteString → Except ByteString HelloPayload := unpack do
  let role ← Decoder.read ByteReader.u8 "truncated role"
  let protocolVersion ← Decoder.read ByteReader.u8 "truncated version"
  let workerId ← getId
  let workerBootId ← getId
  let tag ← Decoder.read ByteReader.string "truncated tag"
  pure { role, protocolVersion, workerId, workerBootId, tag }

def unpackWelcome : ByteString → Except ByteString WelcomePayload := unpack do
  let epoch ← getGen
  let coordinatorId ← Decoder.read ByteReader.string "truncated coordinator id"
  let protocolVersion ← Decoder.read ByteReader.u32 "truncated protocol version"
  pure { epoch, coordinatorId, protocolVersion }

def unpackRegisterAck : ByteString → Except ByteString RegisterAckPayload := unpack do
  let accepted ← Decoder.read ByteReader.boolByte "truncated accepted"
  let reason ← Decoder.read ByteReader.string "truncated reason"
  pure { accepted, reason }

def unpackSubmit : ByteString → Except ByteString SubmitPayload := unpack do
  let executionId ← getId
  let epoch ← getGen
  pure { executionId, epoch }

def unpackSubmitAck : ByteString → Except ByteString SubmitAckPayload := unpack do
  let accepted ← Decoder.read ByteReader.boolByte "truncated accepted"
  let executionId ← getId
  let generation ← getGen
  let state ← getState
  let reason ← Decoder.read ByteReader.string "truncated reason"
  pure { accepted, executionId, generation, state := some state, reason }

def unpackDispatch : ByteString → Except ByteString DispatchRequestPayload := unpack do
  let executionId ← getId
  let epoch ← getGen
  let workerId ← getId
  let workerBootId ← getId
  pure { executionId, epoch, workerId, workerBootId }

def unpackDispatchAck : ByteString → Except ByteString DispatchAckPayload := unpack do
  let accepted ← Decoder.read ByteReader.boolByte "truncated accepted"
  let decision ← getDecisionCode
  let reason ← Decoder.read ByteReader.string "truncated reason"
  let ticket ← getDispatchTicket
  pure { accepted, decision, reason, ticket }

def unpackWorkerDispatch : ByteString → Except ByteString WorkerDispatchPayload := unpack do
  let ticket ← getDispatchTicket
  let workBytes ← Decoder.read ByteReader.u32 "truncated work hint"
  let workSeed ← Decoder.read ByteReader.u32 "truncated work hint"
  pure { ticket, workBytes, workSeed }

def unpackStart : ByteString → Except ByteString StartTicket := unpack getStartTicket

def unpackComplete : ByteString → Except ByteString CompletePayload := unpack do
  let ticket ← getCompletionTicket
  let n ← Decoder.read ByteReader.u32 "truncated result length"
  failIf (ByteReader.maxVector < n.toNat) (text "result too large")
  let result ← Decoder.read (ByteReader.vector n.toNat) "truncated result"
  pure { ticket, result }

/-- Without a commit the digest stays what it was, which is nil in a fresh
payload. -/
def unpackCompleteAck : ByteString → Except ByteString CompleteAckPayload := unpack do
  let decision ← getDecisionCode
  let reason ← Decoder.read ByteReader.string "truncated reason"
  let digest ← Decoder.option "truncated committed" (getDigest "truncated committed digest")
  pure { decision, reason, committed := digest.isSome, committedDigest := digest.getD .nil }

/-- Of the context that explains the decision, two fields are on the wire. -/
def unpackDecision : ByteString → Except ByteString Decision := unpack do
  let code ← getDecisionCode
  let reason ← Decoder.read ByteReader.string "truncated reason"
  let executionId ← Decoder.option "truncated opt" getId
  let executionGeneration ← Decoder.option "truncated opt" getGen
  pure { code, reason, executionId, executionGeneration }

/-- `unpack_cancel`, which also unpacks preemptions. -/
def unpackCancel : ByteString → Except ByteString ControlRequest := unpack getControlRequest

def unpackExecution : ByteString → Except ByteString ExecutionPayload := unpack do
  let executionId ← getId
  let epoch ← getGen
  pure { executionId, epoch }

def unpackAckPreempt : ByteString → Except ByteString ExecutionPayload := unpackExecution

def unpackMarkResumable : ByteString → Except ByteString ExecutionPayload := unpackExecution

def unpackResume : ByteString → Except ByteString ResumeRequestPayload := unpack do
  let executionId ← getId
  let epoch ← getGen
  let resumeGen ← getGen
  let workerId ← getId
  let workerBootId ← getId
  pure { executionId, epoch, resumeGen, workerId, workerBootId }

def unpackWorkerLost : ByteString → Except ByteString WorkerLostPayload := unpack do
  let executionId ← getId
  let workerId ← getId
  let workerBootId ← getId
  let epoch ← getGen
  pure { executionId, workerId, workerBootId, epoch }

def unpackQuery : ByteString → Except ByteString ExecutionId := unpack getId

def unpackQueryResponse : ByteString → Except ByteString QueryResponsePayload := unpack do
  let found ← Decoder.read ByteReader.boolByte "truncated found"
  let executionId ← getId
  let state ← getState
  let generation ← getGen
  let epoch ← getGen
  let currentAttempt ← Decoder.option "truncated opt" getId
  let currentAttemptGeneration ← Decoder.option "truncated opt" getGen
  let attemptCount ← Decoder.read ByteReader.u64 "truncated count"
  let committedDigest ← Decoder.option "truncated opt" (getDigest "truncated digest")
  let detail ← Decoder.read ByteReader.string "truncated detail"
  pure { found, executionId, state := some state, generation, epoch, currentAttempt,
         currentAttemptGeneration, attemptCount := attemptCount.toNat, committedDigest, detail }

/-! ### Packing

A state that was never set is written as whatever `unset` its byte holds. -/

def putState (unset : UInt8) (state : Option ExecutionState) : ByteString :=
  ByteWriter.u8 ((state.map ExecutionState.code).getD unset)

def putDispatchTicket (t : DispatchTicket) : ByteString :=
  ByteWriter.id t.executionId ++ ByteWriter.gen t.executionGeneration ++ ByteWriter.id t.attemptId
    ++ ByteWriter.gen t.attemptGeneration ++ ByteWriter.id t.workerId
    ++ ByteWriter.id t.workerBootId ++ ByteWriter.gen t.epoch ++ ByteWriter.id t.dispatchId
    ++ ByteWriter.gen t.dispatchGeneration ++ ByteWriter.gen t.ownershipGeneration
    ++ ByteWriter.gen t.fenceGeneration

def putStartTicket (t : StartTicket) : ByteString :=
  ByteWriter.id t.executionId ++ ByteWriter.gen t.executionGeneration ++ ByteWriter.id t.attemptId
    ++ ByteWriter.gen t.attemptGeneration ++ ByteWriter.id t.workerId
    ++ ByteWriter.id t.workerBootId ++ ByteWriter.gen t.epoch ++ ByteWriter.id t.dispatchId
    ++ ByteWriter.gen t.dispatchGeneration ++ ByteWriter.gen t.ownershipGeneration
    ++ ByteWriter.gen t.fenceGeneration

def putCompletionTicket (t : CompletionTicket) : ByteString :=
  ByteWriter.id t.executionId ++ ByteWriter.gen t.executionGeneration ++ ByteWriter.id t.attemptId
    ++ ByteWriter.gen t.attemptGeneration ++ ByteWriter.id t.workerId
    ++ ByteWriter.id t.workerBootId ++ ByteWriter.gen t.epoch ++ ByteWriter.id t.dispatchId
    ++ ByteWriter.gen t.dispatchGeneration ++ ByteWriter.gen t.ownershipGeneration
    ++ ByteWriter.gen t.fenceGeneration ++ ByteWriter.gen t.completionGeneration
    ++ ByteWriter.boolByte t.hasResult
    ++ (if t.hasResult then ByteWriter.bytes t.resultDigest.bytes else [])

def putControlRequest (req : ControlRequest) : ByteString :=
  ByteWriter.id req.executionId ++ ByteWriter.gen req.epoch
    ++ ByteWriter.gen req.authorityGeneration ++ ByteWriter.gen req.cancellationGeneration
    ++ ByteWriter.gen req.preemptionGeneration ++ ByteWriter.gen req.resumeGeneration

def packHello (p : HelloPayload) : ByteString :=
  ByteWriter.u8 p.role ++ ByteWriter.u8 p.protocolVersion ++ ByteWriter.id p.workerId
    ++ ByteWriter.id p.workerBootId ++ ByteWriter.string p.tag

def packWelcome (p : WelcomePayload) : ByteString :=
  ByteWriter.gen p.epoch ++ ByteWriter.string p.coordinatorId ++ ByteWriter.u32 p.protocolVersion

def packRegisterAck (p : RegisterAckPayload) : ByteString :=
  ByteWriter.boolByte p.accepted ++ ByteWriter.string p.reason

def packSubmit (p : SubmitPayload) : ByteString :=
  ByteWriter.id p.executionId ++ ByteWriter.gen p.epoch

def packSubmitAck (unset : UInt8) (p : SubmitAckPayload) : ByteString :=
  ByteWriter.boolByte p.accepted ++ ByteWriter.id p.executionId ++ ByteWriter.gen p.generation
    ++ putState unset p.state ++ ByteWriter.string p.reason

def packDispatch (p : DispatchRequestPayload) : ByteString :=
  ByteWriter.id p.executionId ++ ByteWriter.gen p.epoch ++ ByteWriter.id p.workerId
    ++ ByteWriter.id p.workerBootId

def packDispatchAck (p : DispatchAckPayload) : ByteString :=
  ByteWriter.boolByte p.accepted ++ ByteWriter.u8 p.decision.code ++ ByteWriter.string p.reason
    ++ putDispatchTicket p.ticket

def packWorkerDispatch (p : WorkerDispatchPayload) : ByteString :=
  putDispatchTicket p.ticket ++ ByteWriter.u32 p.workBytes ++ ByteWriter.u32 p.workSeed

def packStart (t : StartTicket) : ByteString := putStartTicket t

def packComplete (p : CompletePayload) : ByteString :=
  putCompletionTicket p.ticket ++ ByteWriter.u32 p.result.length.toUInt32 ++ p.result

def packCompleteAck (p : CompleteAckPayload) : ByteString :=
  ByteWriter.u8 p.decision.code ++ ByteWriter.string p.reason ++ ByteWriter.boolByte p.committed
    ++ (if p.committed then ByteWriter.bytes p.committedDigest.bytes else [])

def packDecision (d : Decision) : ByteString :=
  ByteWriter.u8 d.code.code ++ ByteWriter.string d.reason
    ++ ByteWriter.option ByteWriter.id d.executionId
    ++ ByteWriter.option ByteWriter.gen d.executionGeneration

def packCancel (req : ControlRequest) : ByteString := putControlRequest req

def packPreempt (req : ControlRequest) : ByteString := packCancel req

def packExecution (p : ExecutionPayload) : ByteString :=
  ByteWriter.id p.executionId ++ ByteWriter.gen p.epoch

def packAckPreempt (p : ExecutionPayload) : ByteString := packExecution p

def packMarkResumable (p : ExecutionPayload) : ByteString := packExecution p

def packResume (p : ResumeRequestPayload) : ByteString :=
  ByteWriter.id p.executionId ++ ByteWriter.gen p.epoch ++ ByteWriter.gen p.resumeGen
    ++ ByteWriter.id p.workerId ++ ByteWriter.id p.workerBootId

def packWorkerLost (p : WorkerLostPayload) : ByteString :=
  ByteWriter.id p.executionId ++ ByteWriter.id p.workerId ++ ByteWriter.id p.workerBootId
    ++ ByteWriter.gen p.epoch

def packQuery (executionId : ExecutionId) : ByteString := ByteWriter.id executionId

def packQueryResponse (unset : UInt8) (p : QueryResponsePayload) : ByteString :=
  ByteWriter.boolByte p.found ++ ByteWriter.id p.executionId ++ putState unset p.state
    ++ ByteWriter.gen p.generation ++ ByteWriter.gen p.epoch
    ++ ByteWriter.option ByteWriter.id p.currentAttempt
    ++ ByteWriter.option ByteWriter.gen p.currentAttemptGeneration
    ++ ByteWriter.u64 p.attemptCount.toUInt64
    ++ ByteWriter.option (fun d => ByteWriter.bytes d.bytes) p.committedDigest
    ++ ByteWriter.string p.detail

end ExecutionFabric
