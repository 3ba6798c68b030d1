import ExecutionFabric.Engine
import ExecutionFabric.Persistence
import ExecutionFabric.Digest
import ExecutionFabric.Protocol

/-!
The coordinator: one decision thread that takes frames from a queue, asks the
engine, saves and replies.

The handling of one entry of the queue is a `Turn`: the coordinator as it
changes, what it sends, and the calls of the engine it makes. The file at the
persistence path is part of the state and outlives the process. An exception
of the engine leaves the decision thread, which ends the process; a process is
started again by `construct` on the same file.

The closing of a connection reaches the decision thread as an entry of the
queue with a marker, `SHUTDOWN` and four bytes `0xFF`. The table of
connections is unordered; the order it is searched in is supplied from
outside.
-/

namespace ExecutionFabric

open Collections StepMachine

/-- `ConnEntry`. `connected` says that there is a connection object. -/
structure ConnEntry where
  connected : Bool := false
  isWorker : Bool := false
  workerId : WorkerId := .nil
  boot : WorkerBootId := .nil
  activeExecution : Option ExecutionId := none
  activeAttempt : Option AttemptId := none

structure Coordinator where
  epoch : CoordinatorEpoch
  engine : ExecutionEngine
  /-- There is a persistence path, and a store. -/
  persistent : Bool
  /-- The file at that path. -/
  file : Option ByteString
  running : Bool := true
  /-- The decision thread has not been left by an exception. -/
  alive : Bool := true
  nextConnId : ℕ := 1
  conns : Finmap fun _ : ℕ => ConnEntry := ∅

/-- A message on its way to a connection. -/
structure Sent where
  conn : ℕ
  type : MsgType
  message : Message

structure Turn where
  coordinator : Coordinator
  sent : List Sent := []
  calls : List (Call × Outcome) := []

namespace Coordinator

/-- The constructor: an engine, with what can be recovered from the file. -/
def construct (persistent : Bool) (file : Option ByteString) (epoch : CoordinatorEpoch) :
    Coordinator :=
  let k : Coordinator := { epoch, engine := .init epoch, persistent, file }
  if persistent then
    match load file with
    | .error _ => k
    | .ok (recovered, recEpoch) =>
      let k := { k with engine := k.engine.replaceRecords recovered }
      if k.epoch < recEpoch then
        { k with epoch := recEpoch, engine := k.engine.raiseEpoch recEpoch }
      else k
  else k

/-- A connection is accepted. -/
def accept (k : Coordinator) : Coordinator :=
  { k with
    nextConnId := k.nextConnId + 1
    conns := k.conns.insert k.nextConnId { connected := true } }

/-- The connection of a worker, or 0: the first one found in an order of the
table that begins with `order`. -/
def workerConn (k : Coordinator) (order : List ℕ) (worker : WorkerId) : ℕ :=
  ((order ++ sortKeys k.conns.keys).find? fun c =>
    (k.conns.lookup c).any fun entry => entry.isWorker && entry.workerId == worker).getD 0

end Coordinator

namespace Turn

/-- Ask the engine. -/
def call (t : Turn) (c : Call) : Turn :=
  { t with
    coordinator := { t.coordinator with engine := engine.next t.coordinator.engine c }
    calls := t.calls ++ [(c, engine.out t.coordinator.engine c)] }

def persist (t : Turn) : Turn :=
  if t.coordinator.persistent then
    { t with
      coordinator := { t.coordinator with
        file := some (save t.coordinator.engine.recordList t.coordinator.epoch) } }
  else t

/-- `send_to`: nothing is sent where there is no connection. -/
def send (t : Turn) (conn : ℕ) (type : MsgType) (message : Message) : Turn :=
  if (t.coordinator.conns.lookup conn).any (·.connected) then
    { t with sent := t.sent ++ [{ conn, type, message }] }
  else t

/-- The exception of an engine call leaves the decision thread. -/
def crash (t : Turn) : Turn := { t with coordinator := { t.coordinator with alive := false } }

/-- Rewrite the entry of a connection. `operator[]` makes one where there is
none. -/
def modifyConn (t : Turn) (conn : ℕ) (f : ConnEntry → ConnEntry) : Turn :=
  { t with
    coordinator := { t.coordinator with
      conns := t.coordinator.conns.insert conn (f ((t.coordinator.conns.lookup conn).getD {})) } }

end Turn

/-- The decision of a call that returned one. -/
def Outcome.result (o : Outcome) : Decision := o.decision.getD {}

/-! ### The branches of `handle_frame` -/

namespace Turn

def onHello (t : Turn) (conn : ℕ) (hp : HelloPayload) : Turn :=
  let t := t.modifyConn conn fun entry =>
    { entry with isWorker := hp.role == 1, workerId := hp.workerId, boot := hp.workerBootId }
  t.send conn .welcome (.welcome
    { epoch := t.coordinator.epoch
      coordinatorId := text "ExecutionFabric-coordinator"
      protocolVersion := frameVersion.toUInt32 })

def onRegister (t : Turn) (conn : ℕ) : Turn :=
  t.send conn .registerAck (.registerAck { accepted := true, reason := text "registered" })

/-- The reply to `SUBMIT`. -/
def ackSubmit (t : Turn) (conn : ℕ) (sp : SubmitPayload) (o : Outcome) : Turn :=
  let record := t.coordinator.engine.find sp.executionId
  t.persist.send conn .submitAck (.submitAck
    { accepted := o.result.code == .allow
      executionId := sp.executionId
      generation := (record.map (·.generation)).getD ⟨0⟩
      state := record.map (·.state)
      reason := o.result.toText })

def onSubmit (t : Turn) (conn : ℕ) (amb : Ambient) (sp : SubmitPayload) : Turn :=
  let c : Call := ⟨.create sp.executionId sp.epoch, amb⟩
  let o := engine.out t.coordinator.engine c
  let t := t.call c
  if o.result.code = .allow then
    let c : Call := ⟨.activate sp.executionId sp.epoch, amb⟩
    let o := engine.out t.coordinator.engine c
    let t := t.call c
    if o.threw then t.crash else t.ackSubmit conn sp o
  else t.ackSubmit conn sp o

/-- What a dispatch or a resumption is answered with. -/
def dispatchAck (accepted : Bool) (o : Outcome) : Message :=
  .dispatchAck
    { accepted
      decision := o.result.code
      reason := o.result.toText
      ticket := o.ticket.getD .blank }

/-- Hand an accepted dispatch to the worker. -/
def assign (t : Turn) (worker : ℕ) (ticket : DispatchTicket) : Turn :=
  let t :=
    if (t.coordinator.conns.lookup worker).isSome then
      t.modifyConn worker fun entry =>
        { entry with
          activeExecution := some ticket.executionId
          activeAttempt := some ticket.attemptId }
    else t
  (t.send worker .workerDispatch (.workerDispatch
    { ticket, workBytes := 4096, workSeed := 0 })).persist

def onDispatch (t : Turn) (conn : ℕ) (amb : Ambient) (order : List ℕ)
    (dp : DispatchRequestPayload) : Turn :=
  let worker := t.coordinator.workerConn order dp.workerId
  if worker = 0 then
    t.send conn .dispatchAck (.dispatchAck
      { accepted := false
        decision := .rejectNotOwner
        reason := text "worker not connected" })
  else
    let c : Call := ⟨.dispatch dp.executionId dp.workerId dp.workerBootId dp.epoch, amb⟩
    let o := engine.out t.coordinator.engine c
    let t := t.call c
    if o.threw then t.crash
    else if o.result.code = .allow then
      (t.assign worker (o.ticket.getD .blank)).send conn .dispatchAck (dispatchAck true o)
    else t.send conn .dispatchAck (dispatchAck false o)

def onStart (t : Turn) (conn : ℕ) (amb : Ambient) (ticket : StartTicket) : Turn :=
  let c : Call := ⟨.markRunning ticket, amb⟩
  let o := engine.out t.coordinator.engine c
  (t.call c).send conn .completeAck (.decision o.result)

/-- A completion with a result and a nil digest gets the digest of the result. -/
def CompletePayload.filled (cp : CompletePayload) : CompletionTicket :=
  if cp.ticket.hasResult ∧ cp.ticket.resultDigest.isNil then
    { cp.ticket with resultDigest := .ofBuffer cp.result }
  else cp.ticket

def onComplete (t : Turn) (conn : ℕ) (amb : Ambient) (cp : CompletePayload) : Turn :=
  let ticket := CompletePayload.filled cp
  let c : Call := ⟨.complete ticket, amb⟩
  let o := engine.out t.coordinator.engine c
  let t := t.call c
  if o.result.code = .allow then
    let digest := (t.coordinator.engine.find ticket.executionId).bind (·.committedDigest)
    t.persist.send conn .completeAck (.completeAck
      { decision := o.result.code
        reason := o.result.toText
        committed := true
        committedDigest := digest.getD .nil })
  else
    t.send conn .completeAck (.completeAck
      { decision := o.result.code
        reason := o.result.toText
        committed := false })

/-- The branches that ask the engine, save, and reply with the decision. -/
def onControl (t : Turn) (conn : ℕ) (amb : Ambient) (op : Op) (reply : MsgType) : Turn :=
  let c : Call := ⟨op, amb⟩
  let o := engine.out t.coordinator.engine c
  (t.call c).persist.send conn reply (.decision o.result)

def onCancel (t : Turn) (conn : ℕ) (amb : Ambient) (req : ControlRequest) : Turn :=
  t.onControl conn amb (.cancel req) .cancelAck

def onPreempt (t : Turn) (conn : ℕ) (amb : Ambient) (req : ControlRequest) : Turn :=
  t.onControl conn amb (.preempt req) .preemptAck

def onAckPreempt (t : Turn) (conn : ℕ) (amb : Ambient) (ap : ExecutionPayload) : Turn :=
  t.onControl conn amb (.acknowledgePreempt ap.executionId ap.epoch) .preemptAck

def onMarkResumable (t : Turn) (conn : ℕ) (amb : Ambient) (mp : ExecutionPayload) : Turn :=
  t.onControl conn amb (.markResumable mp.executionId mp.epoch) .preemptAck

def onWorkerLost (t : Turn) (conn : ℕ) (amb : Ambient) (wp : WorkerLostPayload) : Turn :=
  t.onControl conn amb
    (.markWorkerLost wp.executionId wp.workerId wp.workerBootId wp.epoch) .completeAck

def onResume (t : Turn) (conn : ℕ) (amb : Ambient) (order : List ℕ)
    (rp : ResumeRequestPayload) : Turn :=
  let worker := t.coordinator.workerConn order rp.workerId
  let c : Call := ⟨.resume rp.executionId rp.workerId rp.workerBootId rp.epoch rp.resumeGen, amb⟩
  let o := engine.out t.coordinator.engine c
  let t := t.call c
  let accepted := o.result.code == .resumeAllowed || o.result.code == .allow
  -- without a connected worker an accepted resumption is not saved
  let t :=
    if o.result.code = .resumeAllowed ∧ worker ≠ 0 then
      (t.send worker .workerDispatch (.workerDispatch
        { ticket := o.ticket.getD .blank, workBytes := 4096, workSeed := 7 })).persist
    else t
  t.send conn .resumeAck (dispatchAck accepted o)

def onQuery (t : Turn) (conn : ℕ) (id : ExecutionId) : Turn :=
  t.send conn .queryResponse (.queryResponse
    (match t.coordinator.engine.find id with
      | some r =>
        { found := true
          executionId := id
          state := some r.state
          generation := r.generation
          epoch := r.coordinatorEpoch
          currentAttempt := r.currentAttemptId
          currentAttemptGeneration := r.currentAttemptGeneration
          attemptCount := r.attempts.length
          committedDigest := r.committedDigest
          detail := text "state=" ++ r.state.toText }
      | none => { executionId := id, detail := text "not found" }))

/-- Handle a payload that was unpacked; a payload that was not is ignored. -/
def given {α : Type} (t : Turn) (unpacked : Except ByteString α) (handle : α → Turn) : Turn :=
  match unpacked with
  | .error _ => t
  | .ok p => handle p

/-- `handle_frame`. -/
def handleFrame (t : Turn) (conn : ℕ) (type : MsgType) (payload : ByteString) (amb : Ambient)
    (order : List ℕ) : Turn :=
  match type with
  | .hello => t.given (unpackHello payload) (t.onHello conn)
  | .registerWorker => t.onRegister conn
  | .submit => t.given (unpackSubmit payload) (t.onSubmit conn amb)
  | .dispatch => t.given (unpackDispatch payload) (t.onDispatch conn amb order)
  | .start => t.given (unpackStart payload) (t.onStart conn amb)
  | .complete => t.given (unpackComplete payload) (t.onComplete conn amb)
  | .cancel => t.given (unpackCancel payload) (t.onCancel conn amb)
  | .preempt => t.given (unpackCancel payload) (t.onPreempt conn amb)
  | .ackPreempt => t.given (unpackAckPreempt payload) (t.onAckPreempt conn amb)
  | .markResumable => t.given (unpackMarkResumable payload) (t.onMarkResumable conn amb)
  | .resume => t.given (unpackResume payload) (t.onResume conn amb order)
  | .workerLost => t.given (unpackWorkerLost payload) (t.onWorkerLost conn amb)
  | .query => t.given (unpackQuery payload) (t.onQuery conn)
  | .ping => t.send conn .pong (.pong payload)
  | .shutdown => { t with coordinator := { t.coordinator with running := false } }
  | _ => t

/-- `on_conn_closed`. -/
def onConnClosed (t : Turn) (conn : ℕ) (amb : Ambient) : Turn :=
  match t.coordinator.conns.lookup conn with
  | none => t
  | some entry =>
    let t := { t with
      coordinator := { t.coordinator with conns := t.coordinator.conns.erase conn } }
    match entry.activeExecution with
    | some id =>
      if entry.isWorker then
        (t.call ⟨.markWorkerLost id entry.workerId entry.boot t.coordinator.epoch, amb⟩).persist
      else t
    | none => t

/-- The payload of the connection-closed marker. -/
def closedMarker : ByteString := [0xFF, 0xFF, 0xFF, 0xFF]

/-- The loop body of `decision_loop`. -/
def decide (t : Turn) (conn : ℕ) (type : MsgType) (payload : ByteString) (amb : Ambient)
    (order : List ℕ) : Turn :=
  if type = .shutdown ∧ payload = closedMarker then t.onConnClosed conn amb
  else t.handleFrame conn type payload amb order

end Turn

/-! ### The machine -/

/-- What happens to a coordinator: a connection is accepted, an entry of the
queue is handled, or the process ends and a new one is started on its file. -/
inductive Event
  | accept
  | inbound (conn : ℕ) (type : MsgType) (payload : ByteString) (amb : Ambient) (order : List ℕ)
  | restart (epoch : CoordinatorEpoch)

/-- What is seen of an event: the messages sent, and the calls of the engine. -/
structure Output where
  sent : List Sent := []
  calls : List (Call × Outcome) := []

def Coordinator.step (k : Coordinator) : Event → Coordinator × Output
  | .accept => (k.accept, {})
  | .inbound conn type payload amb order =>
    if k.alive then
      let t := Turn.decide { coordinator := k } conn type payload amb order
      (t.coordinator, { sent := t.sent, calls := t.calls })
    else (k, {})
  | .restart epoch => (.construct k.persistent k.file epoch, {})

/-- The coordinator as a machine. -/
def coordinator : Machine Coordinator Event Output := ⟨Coordinator.step⟩

end ExecutionFabric
