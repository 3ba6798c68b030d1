import ExecutionFabric.Library.Dialogue
import ExecutionFabric.Protocol.Targets
import ExecutionFabric.Worker

/-!
The controller: a client that drives the coordinator.

Each of its calls sends one frame, waits for one frame, and unpacks that one's
payload as the answer; the type of what it receives is looked at by `connect`
only. What a controller does next may depend on what its calls returned
(`Script`).

What is said and what is returned depends on the frames that are received
(`Controller.conversation`, `Controller.results`), and no frame is sent before
the one before it was answered (`Controller.waits`). `clientMain_written` is
what connects these to the code.
-/

namespace ExecutionFabric

/-- The connection is lost: no more bytes are taken. -/
def TcpConnection.lost (conn : TcpConnection) (rest : Socket) : TcpConnection :=
  { conn with socket := rest, outlet := [] }

structure Controller where
  conn : TcpConnection := {}
  epoch : CoordinatorEpoch := ⟨0⟩

namespace Controller

/-- Send a frame and receive one. Where nothing is received, now or ever, the
connection is lost. -/
def ask (c : Controller) (type : MsgType) (payload : ByteString) :
    Except ByteString DecodedFrame × Controller :=
  match (sendFrame type payload c.conn.outlet).error? with
  | some e => (.error e, { c with conn := c.conn.send type payload })
  | none =>
    match recvFrame c.conn.socket with
    | (.error e, rest) => (.error e, { c with conn := (c.conn.send type payload).lost rest })
    | (.ok frame, rest) =>
      (.ok frame, { c with conn := { c.conn.send type payload with socket := rest } })

/-- What `connect` sends. -/
def hello : DecodedFrame where
  type := .hello
  payload := packHello
    { role := 0
      protocolVersion := frameVersion
      workerId := .nil
      workerBootId := .nil
      tag := text "proof-controller" }

theorem unpack_hello : unpackHello hello.payload = .ok
    { role := 0
      protocolVersion := frameVersion
      workerId := .nil
      workerBootId := .nil
      tag := text "proof-controller" } := by
  have htag : (text "proof-controller").length ≤ ByteReader.maxString := by decide +kernel
  exact (carries_hello htag).whole

/-- What `connect` makes of the first frame. -/
def greeted (frame : DecodedFrame) : Except ByteString CoordinatorEpoch :=
  if frame.type ≠ .welcome then .error (text "expected WELCOME")
  else (·.epoch) <$> unpackWelcome frame.payload

/-- `connect`, where `dialled` is what the connection's own `connect` gives. -/
def connect (c : Controller) (dialled : Except ByteString TcpConnection) :
    Except ByteString CoordinatorEpoch × Controller :=
  match dialled with
  | .error e => (.error e, { c with conn := {} })
  | .ok conn =>
    match { c with conn }.ask hello.type hello.payload with
    | (.error e, c) => (.error e, c)
    | (.ok frame, c) =>
      match greeted frame with
      | .error e => (.error e, c)
      | .ok epoch => (.ok epoch, { c with epoch })

/-! ### The calls -/

/-- What the calls have in common: what is received is unpacked into `out`. -/
def exchange (c : Controller) (type : MsgType) (payload : ByteString) (u : Unpacker)
    (out : u.Target) : Except ByteString u.Target × Controller :=
  match c.ask type payload with
  | (.error e, c) => (.error e, c)
  | (.ok frame, c) => (u.into out frame.payload, c)

def submit (c : Controller) (ex : ExecutionId) (epoch : CoordinatorEpoch)
    (out : SubmitAckPayload) : Except ByteString SubmitAckPayload × Controller :=
  c.exchange .submit (packSubmit { executionId := ex, epoch }) .submitAck out

def dispatch (c : Controller) (ex : ExecutionId) (w : WorkerId) (b : WorkerBootId)
    (epoch : CoordinatorEpoch) (out : DispatchAckPayload) :
    Except ByteString DispatchAckPayload × Controller :=
  c.exchange .dispatch
    (packDispatch { executionId := ex, epoch, workerId := w, workerBootId := b }) .dispatchAck out

def complete (c : Controller) (ct : CompletionTicket) (result : ByteString)
    (out : CompleteAckPayload) : Except ByteString CompleteAckPayload × Controller :=
  c.exchange .complete (packComplete { ticket := ct, result }) .completeAck out

def cancel (c : Controller) (req : ControlRequest) (out : Decision) :
    Except ByteString Decision × Controller :=
  c.exchange .cancel (packCancel req) .decision out

def preempt (c : Controller) (req : ControlRequest) (out : Decision) :
    Except ByteString Decision × Controller :=
  c.exchange .preempt (packPreempt req) .decision out

def ackPreempt (c : Controller) (ex : ExecutionId) (epoch : CoordinatorEpoch) (out : Decision) :
    Except ByteString Decision × Controller :=
  c.exchange .ackPreempt (packAckPreempt { executionId := ex, epoch }) .decision out

def markResumable (c : Controller) (ex : ExecutionId) (epoch : CoordinatorEpoch)
    (out : Decision) : Except ByteString Decision × Controller :=
  c.exchange .markResumable (packMarkResumable { executionId := ex, epoch }) .decision out

def resume (c : Controller) (rp : ResumeRequestPayload) (out : DispatchAckPayload) :
    Except ByteString DispatchAckPayload × Controller :=
  c.exchange .resume (packResume rp) .dispatchAck out

def query (c : Controller) (ex : ExecutionId) (out : QueryResponsePayload) :
    Except ByteString QueryResponsePayload × Controller :=
  c.exchange .query (packQuery ex) .queryResponse out

/-- A call, with its arguments. -/
inductive Request
  | submit (ex : ExecutionId) (epoch : CoordinatorEpoch)
  | dispatch (ex : ExecutionId) (w : WorkerId) (b : WorkerBootId) (epoch : CoordinatorEpoch)
  | complete (ct : CompletionTicket) (result : ByteString)
  | cancel (req : ControlRequest)
  | preempt (req : ControlRequest)
  | ackPreempt (ex : ExecutionId) (epoch : CoordinatorEpoch)
  | markResumable (ex : ExecutionId) (epoch : CoordinatorEpoch)
  | resume (rp : ResumeRequestPayload)
  | query (ex : ExecutionId)

namespace Request

/-- What the call sends. -/
def frame : Request → DecodedFrame
  | submit ex epoch => ⟨.submit, packSubmit { executionId := ex, epoch }⟩
  | dispatch ex w b epoch =>
    ⟨.dispatch, packDispatch { executionId := ex, epoch, workerId := w, workerBootId := b }⟩
  | complete ct result => ⟨.complete, packComplete { ticket := ct, result }⟩
  | cancel req => ⟨.cancel, packCancel req⟩
  | preempt req => ⟨.preempt, packPreempt req⟩
  | ackPreempt ex epoch => ⟨.ackPreempt, packAckPreempt { executionId := ex, epoch }⟩
  | markResumable ex epoch => ⟨.markResumable, packMarkResumable { executionId := ex, epoch }⟩
  | resume rp => ⟨.resume, packResume rp⟩
  | query ex => ⟨.query, packQuery ex⟩

/-- What the call unpacks. -/
def unpacker : Request → Unpacker
  | submit .. => .submitAck
  | dispatch .. | resume .. => .dispatchAck
  | complete .. => .completeAck
  | cancel .. | preempt .. | ackPreempt .. | markResumable .. => .decision
  | query .. => .queryResponse

/-- What the call gives back. -/
abbrev Reply (r : Request) : Type := r.unpacker.Target

/-- The type of the message that is meant for the call. -/
def replyType : Request → MsgType
  | submit .. => .submitAck
  | dispatch .. => .dispatchAck
  | complete .. => .completeAck
  | cancel .. => .cancelAck
  | preempt .. | ackPreempt .. | markResumable .. => .preemptAck
  | resume .. => .resumeAck
  | query .. => .queryResponse

end Request

/-- Make a call. -/
def perform (c : Controller) (r : Request) (out : r.Reply) : Except ByteString r.Reply × Controller :=
  match r with
  | .submit ex epoch => c.submit ex epoch out
  | .dispatch ex w b epoch => c.dispatch ex w b epoch out
  | .complete ct result => c.complete ct result out
  | .cancel req => c.cancel req out
  | .preempt req => c.preempt req out
  | .ackPreempt ex epoch => c.ackPreempt ex epoch out
  | .markResumable ex epoch => c.markResumable ex epoch out
  | .resume rp => c.resume rp out
  | .query ex => c.query ex out

theorem perform_eq (c : Controller) (r : Request) (out : r.Reply) :
    c.perform r out = c.exchange r.frame.type r.frame.payload r.unpacker out := by
  cases r <;> rfl

/-! ### What drives a controller -/

/-- The calls to be made, each with the message that is filled in. What comes
next may depend on what the call returned. -/
inductive Script
  | done
  | call (r : Request) (out : r.Reply) (next : Except ByteString r.Reply → Script)

/-- A call that was made, the message it was to fill in, and what it returned. -/
structure Called where
  request : Request
  out : request.Reply
  result : Except ByteString request.Reply

def Script.run : Script → Controller → List Called × Controller
  | .done, c => ([], c)
  | .call r out next, c =>
    let x := c.perform r out
    let more := (next x.1).run x.2
    (⟨r, out, x.1⟩ :: more.1, more.2)

/-- A driver: it connects, and goes on as it likes. -/
abbrev Driver := Except ByteString CoordinatorEpoch → Script

def clientMain (driver : Driver) (dialled : Except ByteString TcpConnection) :
    List Called × Controller :=
  let x := connect {} dialled
  (driver x.1).run x.2

/-! ### What a controller says, and what it is told -/

/-- What is said upon the frames that are received. -/
def Script.sends : Script → List DecodedFrame → List DecodedFrame
  | .done, _ => []
  | .call r _ _, [] => [r.frame]
  | .call r out next, f :: got => r.frame :: (next (r.unpacker.into out f.payload)).sends got

/-- The calls that received a frame. -/
def Script.hears : Script → List DecodedFrame → List Called
  | .call r out next, f :: got =>
    ⟨r, out, r.unpacker.into out f.payload⟩ :: (next (r.unpacker.into out f.payload)).hears got
  | _, _ => []

def conversation (driver : Driver) (got : List DecodedFrame) : List DecodedFrame :=
  hello ::
    match got with
    | [] => []
    | f :: got => (driver (greeted f)).sends got

def results (driver : Driver) : List DecodedFrame → List Called
  | [] => []
  | f :: got => (driver (greeted f)).hears got

/-! ### One thing at a time -/

section

variable {s : Script} {c : Controller} {driver : Driver} {got : List DecodedFrame}

theorem Script.length_sends (s : Script) (got : List DecodedFrame) :
    (s.sends got).length ≤ got.length + 1 := by
  induction s generalizing got with
  | done => exact Nat.zero_le _
  | call r out next ih =>
      cases got with
      | nil => exact Nat.le_refl 1
      | cons f got => exact Nat.succ_le_succ (ih _ got)

theorem Script.sends_mono (s : Script) {more : List DecodedFrame} (h : got <+: more) :
    s.sends got <+: s.sends more := by
  induction s generalizing got more with
  | done => exact List.prefix_rfl
  | call r out next ih =>
      cases got with
      | nil => cases more <;> exact List.cons_prefix_cons.2 ⟨rfl, List.nil_prefix⟩
      | cons f got =>
          obtain ⟨rest, rfl, hrest⟩ := List.cons_prefix_iff.1 h
          exact List.cons_prefix_cons.2 ⟨rfl, ih _ hrest⟩

theorem waits (driver : Driver) : Dialogue.Waits (conversation driver) where
  bounded got := by
    cases got with
    | nil => exact Nat.le_refl 1
    | cons f got => exact Nat.succ_le_succ (Script.length_sends _ got)
  grows {got more} h := by
    cases got with
    | nil => exact List.cons_prefix_cons.2 ⟨rfl, List.nil_prefix⟩
    | cons f got =>
        obtain ⟨rest, rfl, hrest⟩ := List.cons_prefix_iff.1 h
        exact List.cons_prefix_cons.2 ⟨rfl, Script.sends_mono _ hrest⟩

/-- The n-th call that received a frame sent the n-th of the frames, and unpacked
the n-th that was received. -/
theorem Script.hears_sends {n : ℕ} {x : Called} (h : (s.hears got)[n]? = some x) :
    (s.sends got)[n]? = some x.request.frame ∧
      ∃ f, got[n]? = some f ∧ x.result = x.request.unpacker.into x.out f.payload := by
  induction s generalizing got n with
  | done => cases h
  | call r out next ih =>
      cases got with
      | nil => cases h
      | cons f got =>
          cases n with
          | zero =>
              obtain rfl := Option.some.inj h
              exact ⟨rfl, f, rfl, rfl⟩
          | succ n => exact ih _ h

/-! ### What is written -/

theorem ask_of_broken (type : MsgType) (payload : ByteString) (h : Broken c.conn.outlet) :
    (∃ e, (c.ask type payload).1 = .error e) ∧
      (c.ask type payload).2.conn.written = c.conn.written ∧
      Broken (c.ask type payload).2.conn.outlet := by
  obtain ⟨hfailed, hnone, hbroken⟩ := sendFrame_of_broken type payload h
  have hask : c.ask type payload =
      (.error (text "connection closed while sending"),
        { c with conn := c.conn.send type payload }) := by
    simp [ask, Sending.error?, hfailed]
  rw [hask]
  refine ⟨⟨_, rfl⟩, ?_, hbroken⟩
  show c.conn.written ++ _ = _
  rw [hnone, List.append_nil]

/-- The three ways in which a frame is sent and another one received: it cannot
be sent, nothing is received, or something is. -/
theorem ask_cases (c : Controller) (type : MsgType) (payload : ByteString)
    (hgood : FailsForGood c.conn.outlet) :
    (c.ask type payload).2.conn.written =
        c.conn.written ++ (sendFrame type payload c.conn.outlet).written ∧
      ((∃ e, (c.ask type payload).1 = .error e ∧ Broken (c.ask type payload).2.conn.outlet ∧
          ((sendFrame type payload c.conn.outlet).done = false ∨
            receiveAll c.conn.socket = [])) ∨
        ∃ f, (c.ask type payload).1 = .ok f ∧
          (c.ask type payload).2.conn.outlet = (sendFrame type payload c.conn.outlet).outlet ∧
          receiveAll c.conn.socket = f :: receiveAll (c.ask type payload).2.conn.socket) := by
  unfold ask Sending.error?
  cases hdone : (sendFrame type payload c.conn.outlet).done with
  | false => exact ⟨rfl, .inl ⟨_, rfl, (sendAll_outlet _ hgood).2 hdone, .inl rfl⟩⟩
  | true =>
      dsimp only [if_true]
      rw [receiveAll]
      cases hrecv : recvFrame c.conn.socket with
      | mk got rest =>
          cases got with
          | error e => exact ⟨rfl, .inl ⟨e, rfl, fun _ _ => List.not_mem_nil, .inr rfl⟩⟩
          | ok f => exact ⟨rfl, .inr ⟨f, rfl, rfl, rfl⟩⟩

theorem perform_ask (c : Controller) (r : Request) (out : r.Reply) :
    c.perform r out =
      ((c.ask r.frame.type r.frame.payload).1.bind fun f => r.unpacker.into out f.payload,
        (c.ask r.frame.type r.frame.payload).2) := by
  rw [perform_eq, exchange]
  cases c.ask r.frame.type r.frame.payload with
  | mk result c => cases result <;> rfl

/-- On a broken connection every call fails, and nothing is written. -/
theorem Script.run_of_broken (s : Script) (h : Broken c.conn.outlet) :
    (∀ x ∈ (s.run c).1, ∃ e, x.result = .error e) ∧
      (s.run c).2.conn.written = c.conn.written := by
  induction s generalizing c with
  | done => exact ⟨fun x hx => absurd hx List.not_mem_nil, rfl⟩
  | call r out next ih =>
      obtain ⟨⟨e, hfails⟩, hnone, hbroken⟩ := ask_of_broken r.frame.type r.frame.payload h
      rw [Script.run, perform_ask, hfails]
      obtain ⟨hrest, hwritten⟩ := ih (.error e) hbroken
      refine ⟨fun x hx => ?_, hwritten.trans hnone⟩
      rcases List.mem_cons.1 hx with rfl | hx
      · exact ⟨e, rfl⟩
      · exact hrest x hx

/-- What a controller writes are the first of the frames it says; the calls that
return something are the first of those that are told something. -/
structure Wrote (sends : List DecodedFrame → List DecodedFrame)
    (hears : List DecodedFrame → List Called) (conn : TcpConnection) (calls : List Called)
    (written : ByteString) : Prop where
  said : ∃ said, said <+: sends (receiveAll conn.socket) ∧
    written = conn.written ++ (sendFrames said conn.outlet).written
  told : ∃ heard failed, heard <+: receiveAll conn.socket ∧ calls = hears heard ++ failed ∧
    ∀ x ∈ failed, ∃ e, x.result = .error e

theorem Script.run_wrote (s : Script) (hgood : FailsForGood c.conn.outlet) :
    Wrote s.sends s.hears c.conn (s.run c).1 (s.run c).2.conn.written := by
  induction s generalizing c with
  | done =>
      refine ⟨⟨[], List.nil_prefix, (List.append_nil _).symm⟩, [], [], List.nil_prefix, rfl, ?_⟩
      exact fun x hx => absurd hx List.not_mem_nil
  | call r out next ih =>
      have hkept := (sendAll_outlet (encodeFrame r.frame.type r.frame.payload) hgood).1
      obtain ⟨hwritten, hask⟩ := ask_cases c r.frame.type r.frame.payload hgood
      rw [Script.run, perform_ask]
      rcases hask with ⟨e, hfails, hbroken, -⟩ | ⟨f, hhears, houtlet, hgot⟩
      · rw [hfails]
        obtain ⟨hrest, hsilent⟩ := (next (.error e)).run_of_broken hbroken
        refine ⟨⟨[r.frame], ?_, ?_⟩, [], _, List.nil_prefix, rfl, fun x hx => ?_⟩
        · cases receiveAll c.conn.socket <;> exact List.cons_prefix_cons.2 ⟨rfl, List.nil_prefix⟩
        · exact (hsilent.trans hwritten).trans (congrArg _ (List.append_nil _).symm)
        · rcases List.mem_cons.1 hx with rfl | hx
          · exact ⟨e, rfl⟩
          · exact hrest x hx
      · rw [hhears]
        obtain ⟨⟨said, hsaid, hmore⟩, heard, failed, hheard, hcalls, hfailed⟩ :=
          ih (r.unpacker.into out f.payload) (c := (c.ask r.frame.type r.frame.payload).2)
            (by rw [houtlet]; exact hkept)
        refine ⟨⟨r.frame :: said, ?_, ?_⟩, f :: heard, failed, ?_, ?_, hfailed⟩
        · rw [hgot]
          exact List.cons_prefix_cons.2 ⟨rfl, hsaid⟩
        · refine hmore.trans ?_
          rw [hwritten, houtlet, List.append_assoc]
          rfl
        · rw [hgot]
          exact List.cons_prefix_cons.2 ⟨rfl, hheard⟩
        · exact congrArg (List.cons _) hcalls

theorem clientMain_wrote (driver : Driver) {conn : TcpConnection}
    (hgood : FailsForGood conn.outlet) :
    Wrote (conversation driver) (results driver) conn (clientMain driver (.ok conn)).1
      (clientMain driver (.ok conn)).2.conn.written := by
  have hkept := (sendAll_outlet (encodeFrame hello.type hello.payload) hgood).1
  obtain ⟨hwritten, hask⟩ := ask_cases { conn } hello.type hello.payload hgood
  unfold clientMain connect
  dsimp only
  generalize ask { conn } hello.type hello.payload = x at hwritten hask
  obtain ⟨got, c⟩ := x
  rcases hask with ⟨e, hfails, hbroken, -⟩ | ⟨f, hhears, houtlet, hgot⟩
  · obtain rfl : got = .error e := hfails
    obtain ⟨hrest, hsilent⟩ := (driver (.error e)).run_of_broken hbroken
    refine ⟨⟨[hello], ?_, ?_⟩, [], _, List.nil_prefix, rfl, hrest⟩
    · exact List.cons_prefix_cons.2 ⟨rfl, List.nil_prefix⟩
    · exact (hsilent.trans hwritten).trans (congrArg _ (List.append_nil _).symm)
  · obtain rfl : got = .ok f := hhears
    have hall : ∀ d : Controller, d.conn = c.conn →
        Wrote (conversation driver) (results driver) conn ((driver (greeted f)).run d).1
          ((driver (greeted f)).run d).2.conn.written := by
      intro d hd
      obtain ⟨⟨said, hsaid, hmore⟩, heard, failed, hheard, hcalls, hfailed⟩ :=
        (driver (greeted f)).run_wrote (c := d) (by rw [hd, houtlet]; exact hkept)
      rw [hd] at hsaid hmore hheard
      refine ⟨⟨hello :: said, ?_, ?_⟩, f :: heard, failed, ?_, hcalls, hfailed⟩
      · rw [hgot]
        exact List.cons_prefix_cons.2 ⟨rfl, hsaid⟩
      · refine hmore.trans ?_
        rw [hwritten, houtlet, List.append_assoc]
        rfl
      · rw [hgot]
        exact List.cons_prefix_cons.2 ⟨rfl, hheard⟩
    dsimp only
    generalize greeted f = first at hall ⊢
    cases first with
    | error e => exact hall c rfl
    | ok epoch => exact hall { c with epoch } rfl

/-- The frames of the calls are within the limit. -/
def Script.Bounded : Script → Prop
  | .done => True
  | .call r _ next => r.frame.payload.length ≤ maxPayload.toNat ∧ ∀ x, (next x).Bounded

theorem Script.mem_sends {f : DecodedFrame} (hf : f ∈ s.sends got) :
    ∃ r : Request, f = r.frame ∧ (s.Bounded → f.payload.length ≤ maxPayload.toNat) := by
  induction s generalizing got with
  | done => cases hf
  | call r out next ih =>
      have hfirst : f = r.frame → ∃ r' : Request, f = r'.frame ∧
          ((Script.call r out next).Bounded → f.payload.length ≤ maxPayload.toNat) := by
        rintro rfl
        exact ⟨r, rfl, fun h => h.1⟩
      cases got with
      | nil => exact hfirst (List.mem_singleton.1 hf)
      | cons g got =>
          rcases List.mem_cons.1 hf with hf | hf
          · exact hfirst hf
          · obtain ⟨r', hr', hsize⟩ := ih _ hf
            exact ⟨r', hr', fun h => hsize (h.2 _)⟩

/-- A controller says who it is, and makes its calls. -/
theorem mem_conversation {f : DecodedFrame} (hf : f ∈ conversation driver got) :
    f = hello ∨ ∃ r : Request, f = r.frame := by
  rcases List.mem_cons.1 hf with rfl | hf
  · exact .inl rfl
  · cases got with
    | nil => cases hf
    | cons g got =>
        obtain ⟨r, hr, -⟩ := Script.mem_sends hf
        exact .inr ⟨r, hr⟩

theorem conversation_size (hbound : ∀ x, (driver x).Bounded) (got : List DecodedFrame) :
    ∀ f ∈ conversation driver got, f.payload.length ≤ maxPayload.toNat := by
  intro f hf
  rcases List.mem_cons.1 hf with rfl | hf
  · decide +kernel
  · cases got with
    | nil => cases hf
    | cons g got =>
        obtain ⟨r, -, hsize⟩ := Script.mem_sends hf
        exact hsize (hbound _)

end

end Controller

namespace Sample

open Controller

/-- There is room for what is sent. -/
theorem ask_ample {c : Controller} {f : DecodedFrame} {frames : List DecodedFrame}
    (h : c.conn.outlet = ample (f :: frames)) :
    (c.ask f.type f.payload).2.conn.written =
        c.conn.written ++ encodeFrame f.type f.payload ∧
      ((∃ e, (c.ask f.type f.payload).1 = .error e ∧
          Broken (c.ask f.type f.payload).2.conn.outlet ∧ receiveAll c.conn.socket = []) ∨
        ∃ g, (c.ask f.type f.payload).1 = .ok g ∧
          (c.ask f.type f.payload).2.conn.outlet = ample frames ∧
          receiveAll c.conn.socket = g :: receiveAll (c.ask f.type f.payload).2.conn.socket) := by
  have hgood : FailsForGood c.conn.outlet := h ▸ ample_failsForGood _
  obtain ⟨hwritten, hask⟩ := ask_cases c f.type f.payload hgood
  rw [h, sendFrame_ample] at hwritten hask
  refine ⟨hwritten, ?_⟩
  rcases hask with ⟨e, hfails, hbroken, hwhy⟩ | hhears
  · exact .inl ⟨e, hfails, hbroken, hwhy.resolve_left Bool.noConfusion⟩
  · exact .inr hhears

/-- Where there is room for all that is said, all of it is written, and all that is
heard is returned. -/
theorem run_ample (s : Script) {c : Controller}
    (hample : c.conn.outlet = ample (s.sends (receiveAll c.conn.socket))) :
    (s.run c).2.conn.written =
        c.conn.written ++ encodeFrames (s.sends (receiveAll c.conn.socket)) ∧
      s.hears (receiveAll c.conn.socket) <+: (s.run c).1 := by
  induction s generalizing c with
  | done => exact ⟨(List.append_nil _).symm, List.prefix_rfl⟩
  | call r out next ih =>
      have hfirst : ∃ frames, (Script.call r out next).sends (receiveAll c.conn.socket) =
          r.frame :: frames := by
        cases receiveAll c.conn.socket <;> exact ⟨_, rfl⟩
      obtain ⟨frames, hframes⟩ := hfirst
      rw [hframes] at hample
      obtain ⟨hwritten, hask⟩ := ask_ample hample
      rw [Script.run, perform_ask]
      rcases hask with ⟨e, hfails, hbroken, hnone⟩ | ⟨f, hhears, houtlet, hgot⟩
      · rw [hfails, hnone]
        refine ⟨((next (.error e)).run_of_broken hbroken).2.trans (hwritten.trans ?_),
          List.nil_prefix⟩
        rw [Script.sends, encodeFrames, List.flatMap_singleton]
      · rw [hgot, Script.sends] at hframes
        rw [← (List.cons.inj hframes).2] at houtlet
        rw [hhears, hgot]
        obtain ⟨hmore, htold⟩ := ih (r.unpacker.into out f.payload) houtlet
        refine ⟨hmore.trans ?_, List.cons_prefix_cons.2 ⟨rfl, htold⟩⟩
        rw [hwritten, Script.sends, List.append_assoc]
        rfl

theorem clientMain_ample (driver : Driver) {conn : TcpConnection} (hnew : conn.written = [])
    (hample : conn.outlet = ample (conversation driver (receiveAll conn.socket))) :
    (clientMain driver (.ok conn)).2.conn.written =
        encodeFrames (conversation driver (receiveAll conn.socket)) ∧
      results driver (receiveAll conn.socket) <+: (clientMain driver (.ok conn)).1 := by
  obtain ⟨hwritten, hask⟩ := ask_ample (c := { conn }) hample
  rw [show ({ conn } : Controller).conn.written = [] from hnew, List.nil_append] at hwritten
  unfold clientMain connect
  dsimp only
  generalize ask { conn } Controller.hello.type Controller.hello.payload = x at hwritten hask
  obtain ⟨got, c⟩ := x
  rcases hask with ⟨e, hfails, hbroken, hnone⟩ | ⟨f, hhears, houtlet, hgot⟩
  · obtain rfl : got = .error e := hfails
    have hnone : receiveAll conn.socket = [] := hnone
    rw [hnone]
    refine ⟨((driver (.error e)).run_of_broken hbroken).2.trans (hwritten.trans ?_),
      List.nil_prefix⟩
    rw [conversation, encodeFrames, List.flatMap_singleton]
  · obtain rfl : got = .ok f := hhears
    have hall : ∀ d : Controller, d.conn = c.conn →
        ((driver (greeted f)).run d).2.conn.written =
            encodeFrames (conversation driver (receiveAll conn.socket)) ∧
          results driver (receiveAll conn.socket) <+: ((driver (greeted f)).run d).1 := by
      intro d hd
      rw [show receiveAll conn.socket = f :: receiveAll c.conn.socket from hgot] at houtlet ⊢
      have hrun := run_ample (driver (greeted f)) (c := d) (by rw [hd]; exact houtlet)
      rw [hd] at hrun
      refine ⟨?_, hrun.2⟩
      rw [hrun.1, show c.conn.written = _ from hwritten, conversation, encodeFrames, encodeFrames,
        List.flatMap_cons]
    dsimp only
    generalize greeted f = reply at hall ⊢
    cases reply with
    | error e => exact hall c rfl
    | ok epoch => exact hall { c with epoch } rfl

end Sample

end ExecutionFabric
