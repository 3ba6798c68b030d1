import ExecutionFabric.Digest
import ExecutionFabric.Protocol.Channel
import ExecutionFabric.Protocol.Payloads
import Mathlib.Data.List.Infix

/-!
The worker: it says `HELLO`, waits for `WELCOME`, and answers what it receives.

A ticket is answered by a `START` and, when the work is done, by a `COMPLETE`
that carries the result and its digest. The worker looks at nothing of what it
is answered, nor at whether its frames could be sent.

Everything the worker does is to send the frames of `conversation`, which
depends on the frames it received only (`workerMain_written`). From this, and
what a connection does, follows what reaches the coordinator of the tickets it
sent (`worker_exact`).
-/

namespace ExecutionFabric

/-- `to_string` of the message types. -/
def MsgType.toText : MsgType → ByteString
  | hello => text "HELLO"
  | welcome => text "WELCOME"
  | registerWorker => text "REGISTER_WORKER"
  | registerAck => text "REGISTER_ACK"
  | submit => text "SUBMIT"
  | submitAck => text "SUBMIT_ACK"
  | dispatch => text "DISPATCH"
  | dispatchAck => text "DISPATCH_ACK"
  | workerDispatch => text "WORKER_DISPATCH"
  | workerDispatchAck => text "WORKER_DISPATCH_ACK"
  | start => text "START"
  | complete => text "COMPLETE"
  | completeAck => text "COMPLETE_ACK"
  | cancel => text "CANCEL"
  | cancelAck => text "CANCEL_ACK"
  | preempt => text "PREEMPT"
  | preemptAck => text "PREEMPT_ACK"
  | ackPreempt => text "ACK_PREEMPT"
  | markResumable => text "MARK_RESUMABLE"
  | resume => text "RESUME"
  | resumeAck => text "RESUME_ACK"
  | workerLost => text "WORKER_LOST"
  | query => text "QUERY"
  | queryResponse => text "QUERY_RESPONSE"
  | ping => text "PING"
  | pong => text "PONG"
  | shutdown => text "SHUTDOWN"

/-- A connection: what will be received, what will be taken, and what was written.
Without a socket nothing is received or taken. -/
structure TcpConnection where
  socket : Socket := []
  outlet : Outlet := []
  written : ByteString := []

/-- `send_frame`, with what it returns ignored. -/
def TcpConnection.send (conn : TcpConnection) (type : MsgType) (payload : ByteString) :
    TcpConnection :=
  let s := sendFrame type payload conn.outlet
  { conn with outlet := s.outlet, written := conn.written ++ s.written }

/-- Given the size of the work and a seed, the result. -/
abbrev Executor := UInt32 → UInt32 → ByteString

/-- The executor of the worker process. -/
def syntheticExecutor : Executor := fun workBytes seed =>
  (List.range workBytes.toNat).map fun i => (seed.toNat + i * 31).toUInt8

structure WorkerRuntime where
  workerId : WorkerId
  boot : WorkerBootId
  conn : TcpConnection := {}
  executor : Option Executor := none
  connected : Bool := false

namespace WorkerRuntime

def send (w : WorkerRuntime) (type : MsgType) (payload : ByteString) : WorkerRuntime :=
  { w with conn := w.conn.send type payload }

/-- Something was received. -/
def received (w : WorkerRuntime) (rest : Socket) : WorkerRuntime :=
  { w with conn := { w.conn with socket := rest } }

/-- The payload of the `HELLO`. -/
def hello (w : WorkerRuntime) : ByteString :=
  packHello
    { role := 1
      protocolVersion := frameVersion
      workerId := w.workerId
      workerBootId := w.boot
      tag := text "EF-worker" }

/-- `start`, once `HELLO` was sent. -/
def awaitWelcome (w : WorkerRuntime) : Except ByteString Unit × WorkerRuntime :=
  match recvFrame w.conn.socket with
  | (.error e, rest) => (.error e, w.received rest)
  | (.ok frame, rest) =>
    if frame.type ≠ .welcome then
      (.error (text "expected WELCOME, got " ++ frame.type.toText), w.received rest)
    else
      match unpackWelcome frame.payload with
      | .error e => (.error (text "bad welcome: " ++ e), w.received rest)
      | .ok _ => (.ok (), { w.received rest with connected := true })

/-- `start`, where `dialled` is what `connect` gives. -/
def start (w : WorkerRuntime) (dialled : Except ByteString TcpConnection) :
    Except ByteString Unit × WorkerRuntime :=
  match dialled with
  | .error e => (.error e, { w with conn := {} })
  | .ok conn =>
    let w := { w with conn }
    match (sendFrame .hello w.hello conn.outlet).error? with
    | some e => (.error e, w.send .hello w.hello)
    | none => (w.send .hello w.hello).awaitWelcome

/-- The physical work. -/
def execute (w : WorkerRuntime) (wdp : WorkerDispatchPayload) : ByteString :=
  match w.executor with
  | some exec => exec wdp.workBytes wdp.workSeed
  | none => (List.range 4096).map fun i => (wdp.workSeed.toNat + i).toUInt8

/-- The completion that is reported. -/
def completion (w : WorkerRuntime) (wdp : WorkerDispatchPayload) : CompletePayload where
  ticket := wdp.ticket.completion (.ofBuffer (w.execute wdp))
  result := w.execute wdp

/-- `on_worker_dispatch`. -/
def onWorkerDispatch (w : WorkerRuntime) (wdp : WorkerDispatchPayload) : WorkerRuntime :=
  (w.send .start (packStart wdp.ticket.start)).send .complete (packComplete (w.completion wdp))

/-- The branches of `run`, and what `run` returns if it returns there. -/
def handle (w : WorkerRuntime) (frame : DecodedFrame) :
    Option (Except ByteString Unit) × WorkerRuntime :=
  match frame.type with
  | .workerDispatch =>
    match unpackWorkerDispatch frame.payload with
    | .error e => (some (.error (text "bad WORKER_DISPATCH: " ++ e)), w)
    | .ok wdp => (none, w.onWorkerDispatch wdp)
  | .ping => (none, w.send .pong frame.payload)
  | .shutdown => (some (.ok ()), w)
  | _ => (none, w)

theorem handle_socket (w : WorkerRuntime) (frame : DecodedFrame) :
    (w.handle frame).2.conn.socket = w.conn.socket := by
  unfold handle
  split
  · split <;> rfl
  · rfl
  · rfl
  · rfl

/-- The loop of `run`. `loads` is what `running_` is, iteration by iteration:
another thread may have cleared it. -/
def serve (loads : ℕ → Bool) (w : WorkerRuntime) : Except ByteString Unit × WorkerRuntime :=
  if loads 0 then
    match _hrecv : recvFrame w.conn.socket with
    | (.error e, rest) => (.error e, w.received rest)
    | (.ok frame, rest) =>
      match ((w.received rest).handle frame).1 with
      | some result => (result, ((w.received rest).handle frame).2)
      | none => serve (fun n => loads (n + 1)) ((w.received rest).handle frame).2
  else (.ok (), w)
termination_by (stream w.conn.socket).length
decreasing_by
  rw [handle_socket, (recvFrame_ok _hrecv).2, List.length_append, length_encodeFrame,
    frameHeaderLen]
  show (stream rest).length < _
  omega

def run (loads : ℕ → Bool) (w : WorkerRuntime) : Except ByteString Unit × WorkerRuntime :=
  if w.connected then w.serve loads else (.error (text "not connected"), w)

/-- The worker process: its exit code. -/
def workerMain (w : WorkerRuntime) (dialled : Except ByteString TcpConnection)
    (loads : ℕ → Bool) : ℕ × WorkerRuntime :=
  match w.start dialled with
  | (.error _, w) => (1, w)
  | (.ok _, w) =>
    match w.run loads with
    | (.error _, w) => (1, w)
    | (.ok _, w) => (0, w)

/-! ### What the worker says -/

/-- The two frames that answer a ticket. -/
def report (w : WorkerRuntime) (wdp : WorkerDispatchPayload) : List DecodedFrame :=
  [⟨.start, packStart wdp.ticket.start⟩, ⟨.complete, packComplete (w.completion wdp)⟩]

/-- The ticket in a frame. -/
def ticketIn (frame : DecodedFrame) : Option WorkerDispatchPayload :=
  if frame.type = .workerDispatch then (unpackWorkerDispatch frame.payload).toOption else none

/-- The answer to a frame. -/
def answer (w : WorkerRuntime) (frame : DecodedFrame) : List DecodedFrame :=
  if frame.type = .ping then [⟨.pong, frame.payload⟩]
  else (ticketIn frame).toList.flatMap w.report

/-- The loop ends at this frame. -/
def ends (frame : DecodedFrame) : Bool :=
  frame.type = .shutdown || (frame.type = .workerDispatch && (ticketIn frame).isNone)

/-- What is said in the loop. -/
def replies (answer : DecodedFrame → List DecodedFrame) (loads : ℕ → Bool) :
    List DecodedFrame → List DecodedFrame
  | [] => []
  | f :: frames =>
    if loads 0 && !ends f then answer f ++ replies answer (fun n => loads (n + 1)) frames else []

/-- The frame is the `WELCOME` that `start` waits for. -/
def welcomes (frame : DecodedFrame) : Bool :=
  frame.type = .welcome && (unpackWelcome frame.payload).toOption.isSome

/-- What is said in reply to the frames that are received. -/
def conversation (w : WorkerRuntime) (loads : ℕ → Bool) (frames : List DecodedFrame) :
    List DecodedFrame :=
  ⟨.hello, w.hello⟩ ::
    match frames with
    | [] => []
    | f :: frames => if welcomes f then replies w.answer loads frames else []

/-- Send frames, whatever comes of it. -/
def sendEach (w : WorkerRuntime) (frames : List DecodedFrame) : WorkerRuntime :=
  { w with
    conn := { w.conn with
      outlet := (sendFrames frames w.conn.outlet).outlet
      written := w.conn.written ++ (sendFrames frames w.conn.outlet).written } }

section

variable {w : WorkerRuntime} {loads : ℕ → Bool} {f : DecodedFrame} {frames : List DecodedFrame}

@[simp] theorem sendEach_nil (w : WorkerRuntime) : w.sendEach [] = w := by
  simp [sendEach, sendFrames]

theorem send_sendEach (w : WorkerRuntime) (type : MsgType) (payload : ByteString)
    (frames : List DecodedFrame) :
    (w.send type payload).sendEach frames = w.sendEach (⟨type, payload⟩ :: frames) := by
  simp [sendEach, send, TcpConnection.send, sendFrames, List.append_assoc]

theorem sendEach_append (w : WorkerRuntime) (frames more : List DecodedFrame) :
    (w.sendEach frames).sendEach more = w.sendEach (frames ++ more) := by
  induction frames generalizing w with
  | nil => rw [sendEach_nil, List.nil_append]
  | cons f frames ih => rw [← send_sendEach, ih, send_sendEach, List.cons_append]

theorem send_eq (w : WorkerRuntime) (type : MsgType) (payload : ByteString) :
    w.send type payload = w.sendEach [⟨type, payload⟩] := by
  rw [← send_sendEach, sendEach_nil]

/-- An iteration sends the answer to the frame, and the loop goes on unless the
frame ends it. -/
theorem handle_eq (w : WorkerRuntime) (f : DecodedFrame) :
    (w.handle f).1.isSome = ends f ∧
      (w.handle f).2 = if ends f then w else w.sendEach (w.answer f) := by
  obtain ⟨type, payload⟩ := f
  cases type
  case workerDispatch =>
    simp only [handle, ends, answer, ticketIn]
    cases unpackWorkerDispatch payload with
    | error e => exact ⟨rfl, rfl⟩
    | ok wdp =>
        refine ⟨rfl, ?_⟩
        show w.onWorkerDispatch wdp = w.sendEach (w.report wdp)
        rw [onWorkerDispatch, send_eq, send_eq, sendEach_append]
        rfl
  case ping => exact ⟨rfl, send_eq w .pong payload⟩
  case shutdown => exact ⟨rfl, rfl⟩
  all_goals exact ⟨rfl, (sendEach_nil w).symm⟩

/-- The loop sends the replies to what is received. -/
theorem serve_written (loads : ℕ → Bool) (w : WorkerRuntime) :
    (w.serve loads).2.conn.written =
      w.conn.written ++
        (sendFrames (replies w.answer loads (receiveAll w.conn.socket)) w.conn.outlet).written := by
  induction loads, w using serve.induct with
  | case1 loads w hload e rest hrecv =>
      rw [serve, if_pos hload, hrecv, receiveAll, hrecv]
      simp [received, replies, sendFrames]
  | case2 loads w hload frame rest hrecv result hresult =>
      have hends : ends frame = true := by
        rw [← (handle_eq (w.received rest) frame).1, hresult]
        rfl
      have hstate := (handle_eq (w.received rest) frame).2
      rw [if_pos hends] at hstate
      rw [serve, if_pos hload, hrecv, receiveAll, hrecv]
      simp only [hresult, hstate, replies, hends]
      simp [received, sendFrames]
  | case3 loads w hload frame rest hrecv hresult ih =>
      have hends : ends frame = false := by
        rw [← (handle_eq (w.received rest) frame).1, hresult]
        rfl
      have hstate := (handle_eq (w.received rest) frame).2
      rw [if_neg (by rw [hends]; exact Bool.false_ne_true)] at hstate
      rw [serve, if_pos hload, hrecv, receiveAll, hrecv]
      simp only [hresult, replies, hload, hends]
      rw [hstate] at ih ⊢
      have happend := sendEach_append (w.received rest) (w.answer frame)
        (replies w.answer (fun n => loads (n + 1)) (receiveAll rest))
      exact ih.trans (congrArg (fun u : WorkerRuntime => u.conn.written) happend)
  | case4 loads w hload =>
      rw [serve, if_neg hload]
      cases receiveAll w.conn.socket with
      | nil => simp [replies, sendFrames]
      | cons f frames => simp [replies, hload, sendFrames]

theorem start_eq (w : WorkerRuntime) (conn : TcpConnection) :
    w.start (.ok conn) =
      if (sendFrame .hello w.hello conn.outlet).done then
        ({ w with conn }.send .hello w.hello).awaitWelcome
      else (.error (text "connection closed while sending"),
        { w with conn }.send .hello w.hello) := by
  simp only [start, Sending.error?]
  rw [show hello { w with conn } = w.hello from rfl]
  split <;> rename_i herror <;> split at herror <;> simp_all

/-- A worker waits for one frame, and goes on if that is a `WELCOME`. -/
theorem awaitWelcome_cases (w : WorkerRuntime) :
    (∃ e rest, w.awaitWelcome = (.error e, w.received rest) ∧
        ∀ f frames, receiveAll w.conn.socket = f :: frames → welcomes f = false) ∨
      ∃ f rest, w.awaitWelcome = (.ok (), { w.received rest with connected := true }) ∧
        receiveAll w.conn.socket = f :: receiveAll rest ∧ welcomes f = true := by
  rw [awaitWelcome, receiveAll]
  cases hrecv : recvFrame w.conn.socket with
  | mk got rest =>
      cases got with
      | error e => exact .inl ⟨e, rest, rfl, fun _ _ h => absurd h (List.cons_ne_nil _ _).symm⟩
      | ok frame =>
          dsimp only
          split
          · rename_i htype
            refine .inl ⟨_, rest, rfl, fun f frames heq => ?_⟩
            rw [← (List.cons.inj heq).1]
            simp [welcomes, htype]
          · rename_i htype
            cases hwelcome : unpackWelcome frame.payload with
            | error e =>
                refine .inl ⟨_, rest, rfl, fun f frames heq => ?_⟩
                rw [← (List.cons.inj heq).1]
                simp [welcomes, hwelcome, Except.toOption]
            | ok wp =>
                refine .inr ⟨frame, rest, rfl, rfl, ?_⟩
                simp [welcomes, hwelcome, Except.toOption, not_not.1 htype]

theorem workerMain_of_start {dialled : Except ByteString TcpConnection} {u : WorkerRuntime}
    (h : w.start dialled = (.ok (), u)) : (w.workerMain dialled loads).2 = (u.run loads).2 := by
  rw [workerMain, h]
  dsimp only
  split <;> rename_i heq <;> rw [heq]

/-- What a worker process writes is the conversation, sent frame by frame, or its
`HELLO` where that could not be sent. -/
theorem workerMain_written (w : WorkerRuntime) (conn : TcpConnection) (loads : ℕ → Bool) :
    ∃ said, said <+: w.conversation loads (receiveAll conn.socket) ∧
      (w.workerMain (.ok conn) loads).2.conn.written =
        conn.written ++ (sendFrames said conn.outlet).written ∧
      ((sendFrame .hello w.hello conn.outlet).done = true →
        said = w.conversation loads (receiveAll conn.socket)) := by
  have hhello : ({ w with conn }.send .hello w.hello).conn.written =
      conn.written ++ (sendFrames [⟨.hello, w.hello⟩] conn.outlet).written :=
    congrArg _ (List.append_nil _).symm
  cases hdone : (sendFrame .hello w.hello conn.outlet).done with
  | false =>
      have hstart := w.start_eq conn
      rw [hdone, if_neg Bool.false_ne_true] at hstart
      refine ⟨[⟨.hello, w.hello⟩], List.prefix_append _ _, ?_, nofun⟩
      rw [workerMain, hstart]
      exact hhello
  | true =>
      have hstart := w.start_eq conn
      rw [hdone, if_pos rfl] at hstart
      refine ⟨_, List.prefix_rfl, ?_, fun _ => rfl⟩
      rcases awaitWelcome_cases ({ w with conn }.send .hello w.hello) with
        ⟨e, rest, hwait, hno⟩ | ⟨f, rest, hwait, hgot, hyes⟩
      · have hsaid : w.conversation loads (receiveAll conn.socket) = [⟨.hello, w.hello⟩] := by
          unfold conversation
          cases hall : receiveAll conn.socket with
          | nil => rfl
          | cons f frames => simp [hno f frames hall]
        rw [workerMain, hstart, hwait, hsaid]
        exact hhello
      · have hsaid : w.conversation loads (receiveAll conn.socket) =
            ⟨.hello, w.hello⟩ :: replies w.answer loads (receiveAll rest) := by
          unfold conversation
          rw [show receiveAll conn.socket = f :: receiveAll rest from hgot]
          simp [hyes]
        have hserved := serve_written loads
          { ({ w with conn }.send .hello w.hello).received rest with connected := true }
        have happend := send_sendEach { w with conn } .hello w.hello
          (replies w.answer loads (receiveAll rest))
        rw [hsaid, workerMain_of_start (hstart.trans hwait), run, if_pos rfl]
        exact hserved.trans (congrArg (fun u : WorkerRuntime => u.conn.written) happend)

/-! ### What reaches the coordinator -/

/-- The frame is the answer to a ticket. -/
def isReport (f : DecodedFrame) : Bool := f.type = .start || f.type = .complete

theorem answer_filter (w : WorkerRuntime) (f : DecodedFrame) :
    (w.answer f).filter isReport = (ticketIn f).toList.flatMap w.report := by
  unfold answer
  split
  · rename_i htype
    have hnone : ticketIn f = none := if_neg (by rw [htype]; decide)
    rw [hnone]
    rfl
  · cases ticketIn f with
    | none => rfl
    | some wdp => rfl

/-- The answers to tickets come in the order of the tickets. -/
theorem replies_filter (w : WorkerRuntime) (loads : ℕ → Bool) (frames : List DecodedFrame) :
    (replies w.answer loads frames).filter isReport <+:
      (frames.filterMap ticketIn).flatMap w.report := by
  induction frames generalizing loads with
  | nil => exact List.prefix_rfl
  | cons f frames ih =>
      have hsplit : ((f :: frames).filterMap ticketIn).flatMap w.report =
          (ticketIn f).toList.flatMap w.report ++ (frames.filterMap ticketIn).flatMap w.report := by
        rw [List.filterMap_cons]
        cases ticketIn f <;> simp
      rw [replies, hsplit]
      split
      · rw [List.filter_append, answer_filter]
        exact (List.prefix_append_right_inj _).2 (ih _)
      · exact List.nil_prefix

theorem conversation_filter (w : WorkerRuntime) (loads : ℕ → Bool) (frames : List DecodedFrame) :
    (w.conversation loads frames).filter isReport <+:
      (frames.filterMap ticketIn).flatMap w.report := by
  unfold conversation
  show List.filter isReport _ <+: _
  cases frames with
  | nil => exact List.nil_prefix
  | cons f frames =>
      dsimp only
      split
      · rename_i hwelcome
        have hnone : ticketIn f = none := by
          refine if_neg fun htype => ?_
          simp [welcomes, htype] at hwelcome
        rw [List.filterMap_cons_none hnone]
        exact replies_filter w loads frames
      · exact List.nil_prefix

/-- The results are such that the coordinator can read them. -/
def Bounded (w : WorkerRuntime) : Prop :=
  ∀ wdp, (w.execute wdp).length ≤ ByteReader.maxVector

theorem length_complete (w : WorkerRuntime) (wdp : WorkerDispatchPayload) :
    (packComplete (w.completion wdp)).length = 173 + (w.execute wdp).length := by
  simp [packComplete, putCompletionTicket, completion, DispatchTicket.completion,
    ByteWriter.boolByte, ByteWriter.u8]
  omega

theorem length_hello (w : WorkerRuntime) : w.hello.length = 47 := by
  have htag : (text "EF-worker").length = 9 := by decide +kernel
  simp [hello, packHello, ByteWriter.string, ByteWriter.u8, htag]

theorem length_start (t : StartTicket) : (packStart t).length = 128 := by
  simp [packStart, putStartTicket]

theorem answer_size (hbound : w.Bounded) (hsize : f.payload.length ≤ maxPayload.toNat) :
    ∀ g ∈ w.answer f, g.payload.length ≤ maxPayload.toNat := by
  have hmax : maxPayload.toNat = 67108864 := rfl
  intro g hg
  unfold answer at hg
  split at hg
  · rw [List.mem_singleton.1 hg]
    exact hsize
  · obtain ⟨wdp, -, hreport⟩ := List.mem_flatMap.1 hg
    have hresult := hbound wdp
    rw [ByteReader.maxVector] at hresult
    rcases List.mem_pair.1 hreport with rfl | rfl
    · show (packStart _).length ≤ _
      rw [length_start]
      omega
    · show (packComplete _).length ≤ _
      rw [length_complete]
      omega

theorem mem_replies {answer : DecodedFrame → List DecodedFrame} {g : DecodedFrame}
    (hg : g ∈ replies answer loads frames) : ∃ f ∈ frames, g ∈ answer f := by
  induction frames generalizing loads with
  | nil => cases hg
  | cons f frames ih =>
      rw [replies] at hg
      split at hg
      · rcases List.mem_append.1 hg with hg | hg
        · exact ⟨f, List.mem_cons_self, hg⟩
        · obtain ⟨f', hf', hg⟩ := ih hg
          exact ⟨f', List.mem_cons_of_mem f hf', hg⟩
      · cases hg

/-- What the worker says is its `HELLO`, and answers. -/
theorem mem_conversation {g : DecodedFrame} (hg : g ∈ w.conversation loads frames) :
    g = ⟨.hello, w.hello⟩ ∨ ∃ f ∈ frames, g ∈ w.answer f := by
  unfold conversation at hg
  rcases List.mem_cons.1 hg with rfl | hg
  · exact .inl rfl
  · cases frames with
    | nil => cases hg
    | cons f frames =>
        dsimp only at hg
        split at hg
        · obtain ⟨f', hf', hg⟩ := mem_replies hg
          exact .inr ⟨f', List.mem_cons_of_mem f hf', hg⟩
        · cases hg

/-- Nothing the worker says is too long for a frame. -/
theorem conversation_size (loads : ℕ → Bool) (hbound : w.Bounded)
    (hsize : ∀ f ∈ frames, f.payload.length ≤ maxPayload.toNat) :
    ∀ g ∈ w.conversation loads frames, g.payload.length ≤ maxPayload.toNat := by
  intro g hg
  rcases mem_conversation hg with rfl | ⟨f, hf, hg⟩
  · show w.hello.length ≤ _
    rw [length_hello]
    decide
  · exact answer_size hbound (hsize f hf) g hg

/-- What is reported can be read. -/
theorem report_carried (hbound : w.Bounded) (wdp : WorkerDispatchPayload) :
    unpackStart (packStart wdp.ticket.start) = .ok wdp.ticket.start ∧
      unpackComplete (packComplete (w.completion wdp)) = .ok (w.completion wdp) := by
  have hnil : (w.completion wdp).ticket.hasResult = false → (w.completion wdp).ticket.resultDigest
      = .nil := fun h => absurd (show true = false from h) (by decide)
  exact ⟨(carries_unpack (delimits_startTicket _)).whole,
    (carries_complete hnil (hbound wdp)).whole⟩

end

end WorkerRuntime

/-- What a worker writes are the first of the frames it says. -/
theorem WorkerRuntime.workerMain_said (w : WorkerRuntime) {conn : TcpConnection}
    (loads : ℕ → Bool) (hnew : conn.written = []) :
    ∃ said, said <+: w.conversation loads (receiveAll conn.socket) ∧
      (w.workerMain (.ok conn) loads).2.conn.written = (sendFrames said conn.outlet).written := by
  obtain ⟨said, hsaid, hwritten, -⟩ := w.workerMain_written conn loads
  exact ⟨said, hsaid, by rw [hwritten, hnew, List.nil_append]⟩

namespace Sample

/-- A worker without an executor. -/
def runtime : WorkerRuntime := { workerId := .nil, boot := .nil }

/-- A `WELCOME`, a ticket, and what is none. -/
def downstream : List DecodedFrame :=
  [⟨.welcome, packWelcome { epoch := ⟨1⟩, coordinatorId := [], protocolVersion := 1 }⟩,
    ⟨.workerDispatch, packWorkerDispatch { ticket := .blank, workBytes := 4096, workSeed := 0 }⟩,
    ⟨.completeAck, []⟩, ⟨.ping, [1, 2, 3]⟩]

def spoken : List DecodedFrame := ⟨.hello, runtime.hello⟩ :: downstream.tail.flatMap runtime.answer

def dialled : TcpConnection where
  socket := arriving (encodeFrames downstream)
  outlet := ample spoken

theorem runtime_bounded : runtime.Bounded := fun wdp => by
  simp [WorkerRuntime.execute, runtime, ByteReader.maxVector]

theorem downstream_size : ∀ f ∈ downstream, f.payload.length ≤ maxPayload.toNat := by
  decide +kernel

theorem stream_dialled : stream dialled.socket = encodeFrames downstream :=
  stream_arriving (encodeFrames downstream)

end Sample

end ExecutionFabric
