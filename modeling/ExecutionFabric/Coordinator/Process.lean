import ExecutionFabric.Coordinator.Turns

/-!
The threads of a coordinator process, and the queue between them.

An acceptor takes connections, a reader for each of them puts the frames it
receives into the queue, and the decision thread handles one entry after the
other. `stop` clears `running_`, which the acceptor and the readers look at when
they are at the head of their loops. A step of the process is one of these
threads passing from one such point to the next, so every interleaving is a
list of events; an event whose thread is elsewhere changes nothing.

Two things are kept that the code does not store: which connections have failed
or closed, and who put an entry into the queue.

`Process.step_moves` says what an event can do; what holds of every reachable
process is proved from it. A run of the process is, for its coordinator, a run
(`process_run_refines`).
-/

namespace ExecutionFabric

open Collections StepMachine

/-- Who put an entry into the queue. -/
inductive Producer
  /-- A reader that received a frame. -/
  | receiver
  /-- A reader that ended; its connection had failed or closed, or not. -/
  | leaver (failed : Bool)
  | stop
  deriving DecidableEq

/-- `Inbound`. -/
structure Inbound where
  conn : ℕ
  type : MsgType
  payload : ByteString
  producer : Producer
  deriving DecidableEq

/-- The entry has the form of a connection-closed marker. -/
def Inbound.IsMarker (i : Inbound) : Prop := i.type = .shutdown ∧ i.payload = Turn.closedMarker

instance (i : Inbound) : Decidable i.IsMarker := inferInstanceAs (Decidable (_ ∧ _))

/-- Where the acceptor is: at the head of its loop, or in `accept`. -/
inductive AcceptorPoint
  | checking
  | accepting
  | returned
  deriving DecidableEq

/-- Where a reader is: at the head of its loop, or in `recv_frame`. -/
inductive ReaderPoint
  | checking
  | receiving
  deriving DecidableEq

/-- Where `stop` is: not called, joining the acceptor, joining the decision
thread, or past that. -/
inductive StopPoint
  | idle
  | closing
  | joining
  | joined
  deriving DecidableEq

/-- How an iteration of `decision_loop` ends. -/
inductive Flow
  | again
  | leave
  deriving DecidableEq

/-- A coordinator after `start`. -/
structure Process where
  coordinator : Coordinator
  queue : List Inbound := []
  /-- `decision_loop` has returned. -/
  returned : Bool := false
  acceptor : AcceptorPoint := .checking
  /-- The readers that have not ended. -/
  readers : Finmap fun _ : ℕ => ReaderPoint := ∅
  /-- The connections that have not failed or closed. -/
  up : Finset ℕ := ∅
  stopping : StopPoint := .idle

/-- An entry that the decision thread took, and its turn. -/
structure Handled where
  entry : Inbound
  turn : Turn

namespace Process

/-- What happens next. -/
inductive Event
  | acceptorChecks
  | accepts
  | acceptFails
  /-- A connection fails, is closed by its peer, or brings what is no frame. -/
  | fails (conn : ℕ)
  | readerChecks (conn : ℕ)
  | receives (conn : ℕ) (type : MsgType) (payload : ByteString)
  | recvFails (conn : ℕ)
  | decides (amb : Ambient) (order : List ℕ)
  /-- `stop` is called. -/
  | stops
  | wakes
  | joins

def start (persistent : Bool) (file : Option ByteString) (epoch : CoordinatorEpoch) : Process where
  coordinator := .construct persistent file epoch

/-! ### The threads -/

/-- `queue_.push_back`. -/
def push (p : Process) (i : Inbound) : Process := { p with queue := p.queue ++ [i] }

/-- The test of `acceptor_loop`. -/
def acceptorChecks (p : Process) : Process :=
  if p.acceptor = .checking then
    { p with acceptor := if p.coordinator.running then .accepting else .returned }
  else p

/-- A connection gets its number, its entry in the table, and a reader. -/
def accepts (p : Process) : Process :=
  if p.acceptor = .accepting then
    { p with
      coordinator := p.coordinator.accept
      acceptor := .checking
      readers := p.readers.insert p.coordinator.nextConnId .checking
      up := insert p.coordinator.nextConnId p.up }
  else p

def acceptFails (p : Process) : Process :=
  if p.acceptor = .accepting then { p with acceptor := .checking } else p

def fails (p : Process) (conn : ℕ) : Process := { p with up := p.up.erase conn }

/-- What `reader_loop` does after its loop. -/
def readerEnds (p : Process) (conn : ℕ) : Process :=
  { p with readers := p.readers.erase conn }.push
    { conn
      type := .shutdown
      payload := Turn.closedMarker
      producer := .leaver (decide (conn ∉ p.up)) }

/-- The test of `reader_loop`. -/
def readerChecks (p : Process) (conn : ℕ) : Process :=
  if p.readers.lookup conn = some .checking then
    if p.coordinator.running then { p with readers := p.readers.insert conn .receiving }
    else p.readerEnds conn
  else p

/-- `recv_frame` returns a frame, which may have been sent before the
connection failed. -/
def receives (p : Process) (conn : ℕ) (type : MsgType) (payload : ByteString) : Process :=
  if p.readers.lookup conn = some .receiving then
    { p with readers := p.readers.insert conn .checking }.push
      { conn, type, payload, producer := .receiver }
  else p

/-- `recv_frame` returns false. -/
def recvFails (p : Process) (conn : ℕ) : Process :=
  if p.readers.lookup conn = some .receiving ∧ conn ∉ p.up then p.readerEnds conn else p

/-- The loop body of `decision_loop`, and how it ends. -/
def decisionBody (k : Coordinator) (i : Inbound) (amb : Ambient) (order : List ℕ) : Turn × Flow :=
  if i.IsMarker then
    -- `continue`
    (Turn.onConnClosed { coordinator := k } i.conn amb, .again)
  else (Turn.handleFrame { coordinator := k } i.conn i.type i.payload amb order, .again)

/-- An iteration of `decision_loop`. On an empty queue the thread waits. -/
def decides (p : Process) (amb : Ambient) (order : List ℕ) : Process × Option Handled :=
  match p.returned, p.queue with
  | false, i :: rest =>
    let body := decisionBody p.coordinator i amb order
    ({ p with
        coordinator := body.1.coordinator
        queue := rest
        returned := decide (body.2 = .leave) },
      some ⟨i, body.1⟩)
  | _, _ => (p, none)

/-- `stop` up to the joining of the acceptor. It returns at once if the
coordinator is not running. -/
def stops (p : Process) : Process :=
  if p.stopping = .idle ∧ p.coordinator.running then
    { p with coordinator := { p.coordinator with running := false }, stopping := .closing }
  else p

/-- The acceptor has been joined, and `stop` wakes the decision thread. -/
def wakes (p : Process) : Process :=
  if p.stopping = .closing ∧ p.acceptor = .returned then
    { p with stopping := .joining }.push
      { conn := 0, type := .shutdown, payload := [], producer := .stop }
  else p

/-- The joining of the decision thread completes. -/
def joins (p : Process) : Process :=
  if p.stopping = .joining ∧ p.returned then { p with stopping := .joined } else p

/-- A process that an exception has ended does nothing more. -/
def step (p : Process) (ev : Event) : Process × Option Handled :=
  if p.coordinator.alive then
    match ev with
    | .acceptorChecks => (p.acceptorChecks, none)
    | .accepts => (p.accepts, none)
    | .acceptFails => (p.acceptFails, none)
    | .fails conn => (p.fails conn, none)
    | .readerChecks conn => (p.readerChecks conn, none)
    | .receives conn type payload => (p.receives conn type payload, none)
    | .recvFails conn => (p.recvFails conn, none)
    | .decides amb order => p.decides amb order
    | .stops => (p.stops, none)
    | .wakes => (p.wakes, none)
    | .joins => (p.joins, none)
  else (p, none)

end Process

/-- The process as a machine. -/
def process : Machine Process Process.Event (Option Handled) := ⟨Process.step⟩

/-! ### What a turn does to the table -/

namespace Turn

/-- How the turn came about, that started as `t`, of an entry of the connection
`conn`: only a `HELLO` makes an entry of the table, and for that connection. -/
inductive Steps (conn : ℕ) (type : MsgType) (t : Turn) : Turn → Prop
  | start : Steps conn type t t
  | call {u : Turn} (h : Steps conn type t u) (c : Call) : Steps conn type t (u.call c)
  | persist {u : Turn} (h : Steps conn type t u) : Steps conn type t u.persist
  | send {u : Turn} (h : Steps conn type t u) (c : ℕ) (reply : MsgType) (message : Message) :
      Steps conn type t (u.send c reply message)
  | crash {u : Turn} (h : Steps conn type t u) : Steps conn type t u.crash
  | greet {u : Turn} (h : Steps conn type t u) (htype : type = .hello)
      (f : ConnEntry → ConnEntry) : Steps conn type t (u.modifyConn conn f)
  | note {u : Turn} (h : Steps conn type t u) (c : ℕ)
      (hc : (u.coordinator.conns.lookup c).isSome = true) (f : ConnEntry → ConnEntry) :
      Steps conn type t (u.modifyConn c f)
  | forget {u : Turn} (h : Steps conn type t u) :
      Steps conn type t { u with
        coordinator := { u.coordinator with conns := u.coordinator.conns.erase conn } }
  | halt {u : Turn} (h : Steps conn type t u) :
      Steps conn type t { u with coordinator := { u.coordinator with running := false } }

section

variable {conn : ℕ} {type : MsgType} {t u : Turn}

theorem Steps.given {α : Type} (h : Steps conn type t u) {unpacked : Except ByteString α}
    {handle : α → Turn} (hhandle : ∀ p, Steps conn type t (handle p)) :
    Steps conn type t (u.given unpacked handle) := by
  cases unpacked with
  | error _ => exact h
  | ok p => exact hhandle p

theorem Steps.onControl (h : Steps conn type t u) (c : ℕ) (amb : Ambient) (op : Op)
    (reply : MsgType) : Steps conn type t (u.onControl c amb op reply) :=
  (h.call _).persist.send _ _ _

theorem Steps.assign (h : Steps conn type t u) (worker : ℕ) (ticket : DispatchTicket) :
    Steps conn type t (u.assign worker ticket) := by
  unfold Turn.assign
  refine Steps.persist (Steps.send ?_ _ _ _)
  split
  · rename_i hfound
    exact h.note worker hfound _
  · exact h

theorem Steps.onSubmit (h : Steps conn type t u) (c : ℕ) (amb : Ambient) (sp : SubmitPayload) :
    Steps conn type t (u.onSubmit c amb sp) := by
  unfold Turn.onSubmit
  dsimp only
  split
  · split
    · exact ((h.call _).call _).crash
    · exact ((h.call _).call _).persist.send _ _ _
  · exact (h.call _).persist.send _ _ _

theorem Steps.onDispatch (h : Steps conn type t u) (c : ℕ) (amb : Ambient) (order : List ℕ)
    (dp : DispatchRequestPayload) : Steps conn type t (u.onDispatch c amb order dp) := by
  unfold Turn.onDispatch
  dsimp only
  split
  · exact h.send _ _ _
  · split
    · exact (h.call _).crash
    · split
      · exact ((h.call _).assign _ _).send _ _ _
      · exact (h.call _).send _ _ _

theorem Steps.onComplete (h : Steps conn type t u) (c : ℕ) (amb : Ambient) (cp : CompletePayload) :
    Steps conn type t (u.onComplete c amb cp) := by
  unfold Turn.onComplete
  dsimp only
  split
  · exact (h.call _).persist.send _ _ _
  · exact (h.call _).send _ _ _

theorem Steps.onResume (h : Steps conn type t u) (c : ℕ) (amb : Ambient) (order : List ℕ)
    (rp : ResumeRequestPayload) : Steps conn type t (u.onResume c amb order rp) := by
  unfold Turn.onResume
  dsimp only
  refine Steps.send ?_ _ _ _
  split
  · exact ((h.call _).send _ _ _).persist
  · exact h.call _

theorem Steps.onConnClosed (h : Steps conn type t u) (amb : Ambient) :
    Steps conn type t (u.onConnClosed conn amb) := by
  unfold Turn.onConnClosed
  split
  · exact h
  · dsimp only
    split
    · split
      · exact (h.forget.call _).persist
      · exact h.forget
    · exact h.forget

/-- A turn takes only these steps. -/
theorem decide_steps (t : Turn) (conn : ℕ) (type : MsgType) (payload : ByteString) (amb : Ambient)
    (order : List ℕ) : Steps conn type t (t.decide conn type payload amb order) := by
  have hstart : Steps conn type t t := .start
  unfold decide
  split
  · exact hstart.onConnClosed amb
  · unfold handleFrame
    cases type
    case hello => exact hstart.given fun hp => (hstart.greet rfl _).send _ _ _
    case registerWorker => exact hstart.send _ _ _
    case submit => exact hstart.given fun sp => hstart.onSubmit conn amb sp
    case dispatch => exact hstart.given fun dp => hstart.onDispatch conn amb order dp
    case start => exact hstart.given fun ticket => (hstart.call _).send _ _ _
    case complete => exact hstart.given fun cp => hstart.onComplete conn amb cp
    case cancel => exact hstart.given fun req => hstart.onControl conn amb _ _
    case preempt => exact hstart.given fun req => hstart.onControl conn amb _ _
    case ackPreempt => exact hstart.given fun ap => hstart.onControl conn amb _ _
    case markResumable => exact hstart.given fun mp => hstart.onControl conn amb _ _
    case resume => exact hstart.given fun rp => hstart.onResume conn amb order rp
    case workerLost => exact hstart.given fun wp => hstart.onControl conn amb _ _
    case query => exact hstart.given fun id => hstart.send _ _ _
    case ping => exact hstart.send _ _ _
    case shutdown => exact hstart.halt
    all_goals exact hstart

theorem persist_frame (t : Turn) :
    t.persist.coordinator.nextConnId = t.coordinator.nextConnId ∧
      t.persist.coordinator.conns = t.coordinator.conns := by
  unfold persist
  split <;> exact ⟨rfl, rfl⟩

/-- A turn gives out no number. -/
theorem Steps.nextConnId (h : Steps conn type t u) :
    u.coordinator.nextConnId = t.coordinator.nextConnId := by
  induction h with
  | start => rfl
  | persist h ih => exact (persist_frame _).1.trans ih
  | send h c reply message ih => rw [send_coordinator, ih]
  | call h c ih | crash h ih | greet h htype f ih | note h c hc f ih | forget h ih | halt h ih =>
      exact ih

/-- A key of the table was there before, or is that of a connection that said
`HELLO`. -/
theorem Steps.key (h : Steps conn type t u) {c : ℕ} (hc : c ∈ u.coordinator.conns) :
    c ∈ t.coordinator.conns ∨ c = conn ∧ type = .hello := by
  induction h with
  | start => exact .inl hc
  | persist h ih => exact ih ((persist_frame _).2 ▸ hc)
  | send h c reply message ih => exact ih (by rwa [send_coordinator] at hc)
  | call h c ih | crash h ih | halt h ih => exact ih hc
  | greet h htype f ih =>
      rcases Finmap.mem_insert.1 hc with rfl | hc
      · exact .inr ⟨rfl, htype⟩
      · exact ih hc
  | note h d hd f ih =>
      rcases Finmap.mem_insert.1 hc with rfl | hc
      · exact ih (Finmap.lookup_isSome.1 hd)
      · exact ih hc
  | forget h ih => exact ih (Finmap.mem_erase.1 hc).2

end

end Turn

/-! ### What an event does -/

namespace Process

theorem decisionBody_eq (k : Coordinator) (i : Inbound) (amb : Ambient) (order : List ℕ) :
    decisionBody k i amb order =
      (Turn.decide { coordinator := k } i.conn i.type i.payload amb order, .again) := by
  by_cases hmarker : i.type = .shutdown ∧ i.payload = Turn.closedMarker
  · rw [decisionBody, if_pos (show i.IsMarker from hmarker), Turn.decide, if_pos hmarker]
  · rw [decisionBody, if_neg (show ¬i.IsMarker from hmarker), Turn.decide, if_neg hmarker]

/-- The turn of an entry. -/
def turn (p : Process) (i : Inbound) (amb : Ambient) (order : List ℕ) : Turn :=
  Turn.decide { coordinator := p.coordinator } i.conn i.type i.payload amb order

/-- The entry that an event hands to the decision thread. -/
def taken (p : Process) : Event → Option Inbound
  | .decides _ _ => if p.coordinator.alive ∧ p.returned = false then p.queue.head? else none
  | _ => none

/-- What the events can do. -/
inductive Moves (p : Process) : Event → Process × Option Handled → Prop
  | idle {ev : Event} (htaken : p.taken ev = none) : Moves p ev (p, none)
  | acceptor {ev : Event} (point : AcceptorPoint) (htaken : p.taken ev = none) :
      Moves p ev ({ p with acceptor := point }, none)
  | accepted : Moves p .accepts
      ({ p with
          coordinator := p.coordinator.accept
          acceptor := .checking
          readers := p.readers.insert p.coordinator.nextConnId .checking
          up := insert p.coordinator.nextConnId p.up }, none)
  | failed (conn : ℕ) : Moves p (.fails conn) (p.fails conn, none)
  | reads {conn : ℕ} (hreader : conn ∈ p.readers) :
      Moves p (.readerChecks conn)
        ({ p with readers := p.readers.insert conn .receiving }, none)
  | received {conn : ℕ} {type : MsgType} {payload : ByteString}
      (hreader : p.readers.lookup conn = some .receiving) :
      Moves p (.receives conn type payload)
        ({ p with readers := p.readers.insert conn .checking }.push
          { conn, type, payload, producer := .receiver }, none)
  | stopped {conn : ℕ} (hreader : p.readers.lookup conn = some .checking)
      (hrunning : p.coordinator.running = false) :
      Moves p (.readerChecks conn) (p.readerEnds conn, none)
  | lost {conn : ℕ} (hreader : conn ∈ p.readers) (hconn : conn ∉ p.up) :
      Moves p (.recvFails conn) (p.readerEnds conn, none)
  | decided {i : Inbound} {rest : List Inbound} {amb : Ambient} {order : List ℕ}
      (hqueue : p.queue = i :: rest) (htaken : p.taken (.decides amb order) = some i) :
      Moves p (.decides amb order)
        ({ p with coordinator := (p.turn i amb order).coordinator, queue := rest },
          some ⟨i, p.turn i amb order⟩)
  | stops (halive : p.coordinator.alive = true) : Moves p .stops
      ({ p with coordinator := { p.coordinator with running := false }, stopping := .closing },
        none)
  | wakes : Moves p .wakes
      ({ p with stopping := .joining }.push
        { conn := 0, type := .shutdown, payload := [], producer := .stop }, none)
  | joins (hreturned : p.returned = true) : Moves p .joins ({ p with stopping := .joined }, none)

theorem mem_of_reading {readers : Finmap fun _ : ℕ => ReaderPoint} {conn : ℕ} {point : ReaderPoint}
    (h : readers.lookup conn = some point) : conn ∈ readers :=
  Finmap.lookup_isSome.1 (by rw [h]; rfl)

/-- An iteration of the decision loop, if there is something to take. -/
theorem decides_moves (p : Process) (amb : Ambient) (order : List ℕ)
    (halive : p.coordinator.alive = true) :
    Moves p (.decides amb order) (p.decides amb order) := by
  have htaken : p.taken (.decides amb order) =
      if p.coordinator.alive ∧ p.returned = false then p.queue.head? else none := rfl
  unfold decides
  split
  · rename_i i rest hreturned hqueue
    rw [if_pos ⟨halive, hreturned⟩, hqueue] at htaken
    simp only [decisionBody_eq]
    have hmove := Moves.decided hqueue htaken
    rw [turn] at hmove
    convert hmove using 3
    exact hreturned.symm
  · rename_i hnone
    refine .idle ?_
    rw [htaken]
    split
    · rename_i hpos
      cases hqueue : p.queue with
      | nil => rfl
      | cons i rest => exact absurd hqueue (hnone i rest hpos.2)
    · rfl

theorem step_moves (p : Process) (ev : Event) : Moves p ev (p.step ev) := by
  unfold step
  split
  · rename_i halive
    cases ev with
    | acceptorChecks =>
        unfold acceptorChecks
        dsimp only
        split
        · exact .acceptor _ rfl
        · exact .idle rfl
    | accepts =>
        unfold accepts
        dsimp only
        split
        · exact .accepted
        · exact .idle rfl
    | acceptFails =>
        unfold acceptFails
        dsimp only
        split
        · exact .acceptor _ rfl
        · exact .idle rfl
    | fails conn => exact .failed conn
    | readerChecks conn =>
        unfold readerChecks
        dsimp only
        split
        · rename_i hreader
          split
          · exact .reads (mem_of_reading hreader)
          · rename_i hrunning
            exact .stopped hreader (Bool.eq_false_iff.2 hrunning)
        · exact .idle rfl
    | receives conn type payload =>
        unfold receives
        dsimp only
        split
        · rename_i hreader
          exact .received hreader
        · exact .idle rfl
    | recvFails conn =>
        unfold recvFails
        dsimp only
        split
        · rename_i hreader
          exact .lost (mem_of_reading hreader.1) hreader.2
        · exact .idle rfl
    | decides amb order => exact p.decides_moves amb order halive
    | stops =>
        unfold stops
        dsimp only
        split
        · exact .stops halive
        · exact .idle rfl
    | wakes =>
        unfold wakes
        dsimp only
        split
        · exact .wakes
        · exact .idle rfl
    | joins =>
        unfold joins
        dsimp only
        split
        · rename_i hjoining
          exact .joins hjoining.2
        · exact .idle rfl
  · rename_i hdead
    refine .idle ?_
    cases ev with
    | decides amb order => exact if_neg fun h => hdead h.1
    | _ => rfl

end Process

/-! ### Reachable processes -/

namespace Coordinator

variable (persistent : Bool) (file : Option ByteString) (epoch : CoordinatorEpoch)

@[simp] theorem construct_nextConnId : (construct persistent file epoch).nextConnId = 1 := by
  simp only [construct]
  repeat' split
  all_goals rfl

@[simp] theorem construct_conns : (construct persistent file epoch).conns = ∅ := by
  simp only [construct]
  repeat' split
  all_goals rfl

end Coordinator

namespace Process

variable {p : Process}

/-- Connections are numbered from 1 on, and the number 0 of the entry that
`stop` makes does not get into the table. -/
structure Numbered (p : Process) : Prop where
  next : 0 < p.coordinator.nextConnId
  readers : ∀ c ∈ p.readers, 0 < c ∧ c < p.coordinator.nextConnId
  queue : ∀ i ∈ p.queue, i.conn < p.coordinator.nextConnId ∧ (i.type = .hello → 0 < i.conn)
  table : 0 ∉ p.coordinator.conns

theorem numbered_start (persistent : Bool) (file : Option ByteString) (epoch : CoordinatorEpoch) :
    (start persistent file epoch).Numbered where
  next := by simp [start]
  readers := fun _ hc => absurd hc Finmap.notMem_empty
  queue := fun _ hi => absurd hi List.not_mem_nil
  table := by
    rw [start, Coordinator.construct_conns]
    exact Finmap.notMem_empty

/-- Another entry at the end of the queue. -/
theorem Numbered.push (h : p.Numbered) {i : Inbound} (hconn : i.conn < p.coordinator.nextConnId)
    (hhello : i.type = .hello → 0 < i.conn) : (p.push i).Numbered where
  next := h.next
  readers := h.readers
  queue := by
    intro j hj
    rcases List.mem_append.1 hj with hj | hj
    · exact h.queue j hj
    · rw [List.mem_singleton.1 hj]
      exact ⟨hconn, hhello⟩
  table := h.table

theorem Numbered.setReader (h : p.Numbered) {conn : ℕ} (hconn : conn ∈ p.readers)
    (point : ReaderPoint) : { p with readers := p.readers.insert conn point }.Numbered where
  next := h.next
  readers := by
    intro c hc
    rcases Finmap.mem_insert.1 hc with rfl | hc
    · exact h.readers c hconn
    · exact h.readers c hc
  queue := h.queue
  table := h.table

theorem Numbered.readerEnds (h : p.Numbered) {conn : ℕ} (hconn : conn ∈ p.readers) :
    (p.readerEnds conn).Numbered := by
  have herase : { p with readers := p.readers.erase conn }.Numbered :=
    ⟨h.next, fun c hc => h.readers c (Finmap.mem_erase.1 hc).2, h.queue, h.table⟩
  exact herase.push (h.readers conn hconn).2 nofun

theorem Numbered.next_event (h : p.Numbered) (ev : Event) : (process.next p ev).Numbered := by
  have hmoves := p.step_moves ev
  show (p.step ev).1.Numbered
  generalize p.step ev = x at hmoves
  cases hmoves with
  | idle => exact h
  | acceptor => exact ⟨h.next, h.readers, h.queue, h.table⟩
  | accepted =>
      refine ⟨Nat.succ_pos _, fun c hc => ?_, fun i hi => ?_, fun hzero => ?_⟩
      · rcases Finmap.mem_insert.1 hc with rfl | hc
        · exact ⟨h.next, Nat.lt_succ_self _⟩
        · exact ⟨(h.readers c hc).1, (h.readers c hc).2.trans (Nat.lt_succ_self _)⟩
      · exact ⟨(h.queue i hi).1.trans (Nat.lt_succ_self _), (h.queue i hi).2⟩
      · rcases Finmap.mem_insert.1 hzero with hzero | hzero
        · exact absurd hzero h.next.ne
        · exact h.table hzero
  | failed => exact ⟨h.next, h.readers, h.queue, h.table⟩
  | reads hreader => exact h.setReader hreader _
  | received hreader =>
      have hmem := mem_of_reading hreader
      have hconn := h.readers _ hmem
      exact (h.setReader hmem _).push hconn.2 fun _ => hconn.1
  | stopped hreader => exact h.readerEnds (mem_of_reading hreader)
  | lost hreader => exact h.readerEnds hreader
  | @decided i rest amb order hqueue =>
      have hsteps := Turn.decide_steps { coordinator := p.coordinator } i.conn i.type i.payload amb
        order
      have hi := h.queue i (hqueue ▸ List.mem_cons_self)
      have hnext : (p.turn i amb order).coordinator.nextConnId = p.coordinator.nextConnId :=
        hsteps.nextConnId
      refine ⟨hnext ▸ h.next, hnext ▸ h.readers, fun j hj => ?_, fun hzero => ?_⟩
      · rw [hnext]
        exact h.queue j (hqueue ▸ List.mem_cons_of_mem _ hj)
      · rcases hsteps.key hzero with hzero | ⟨hzero, hhello⟩
        · exact h.table hzero
        · exact absurd hzero (hi.2 hhello).ne
  | stops => exact ⟨h.next, h.readers, h.queue, h.table⟩
  | wakes =>
      have hjoining : { p with stopping := .joining }.Numbered :=
        ⟨h.next, h.readers, h.queue, h.table⟩
      exact hjoining.push h.next nofun
  | joins => exact ⟨h.next, h.readers, h.queue, h.table⟩

theorem numbered (persistent : Bool) (file : Option ByteString) (epoch : CoordinatorEpoch)
    (evs : List Event) : (process.run (start persistent file epoch) evs).Numbered :=
  Machine.run_preserves (fun _ ev h => h.next_event ev) (numbered_start persistent file epoch) evs

end Process

/-! ### The coordinator of a process -/

/-- An event does to the coordinator what the coordinator can do by itself;
`stop` is to it as the `SHUTDOWN` of a client. -/
theorem process_next_refines (p : Process) (ev : Process.Event) :
    ∃ events, (process.next p ev).coordinator = coordinator.run p.coordinator events := by
  have hmoves := p.step_moves ev
  show ∃ events, (p.step ev).1.coordinator = coordinator.run p.coordinator events
  generalize p.step ev = y at hmoves
  cases hmoves with
  | accepted => exact ⟨[.accept], rfl⟩
  | @decided i rest amb order hqueue htaken =>
      have halive : p.coordinator.alive = true := by
        by_contra hdead
        exact absurd ((if_neg fun h => hdead h.1).symm.trans htaken) nofun
      exact ⟨[.inbound i.conn i.type i.payload amb order], (next_of_alive halive).symm⟩
  | stops halive =>
      have hturn : (Turn.decide { coordinator := p.coordinator } 0 .shutdown [] (Sample.ambient 0)
          []).coordinator = { p.coordinator with running := false } := by
        rw [Turn.decide, if_neg (fun h => absurd h.2 (by decide))]
        rfl
      exact ⟨[.inbound 0 .shutdown [] (Sample.ambient 0) []],
        hturn.symm.trans (next_of_alive halive).symm⟩
  | _ => exact ⟨[], rfl⟩

/-- Every run of the process is a run of its coordinator. -/
theorem process_run_refines (p : Process) (evs : List Process.Event) :
    ∃ events, (process.run p evs).coordinator = coordinator.run p.coordinator events := by
  have hstep : ∀ (q : Process) (ev : Process.Event),
      (∃ events, q.coordinator = coordinator.run p.coordinator events) →
        ∃ events, (process.next q ev).coordinator = coordinator.run p.coordinator events := by
    rintro q ev ⟨before, hbefore⟩
    obtain ⟨events, hevents⟩ := process_next_refines q ev
    exact ⟨before ++ events, by rw [hevents, hbefore, Machine.run_append]⟩
  exact Machine.run_preserves hstep ⟨[], rfl⟩ evs

/-- The entry is that of a worker, which announced these identities. -/
structure ConnEntry.Announced (entry : ConnEntry) (worker : WorkerId) (boot : WorkerBootId) :
    Prop where
  isWorker : entry.isWorker = true
  worker : entry.workerId = worker
  boot : entry.boot = boot

/-! ### The order of the queue -/

namespace Process

variable {p : Process} {ev : Event} {x : Handled}

/-- What comes out of an event is the turn of the entry it took. -/
theorem out_some (h : process.out p ev = some x) :
    ∃ amb order rest, ev = .decides amb order ∧ p.queue = x.entry :: rest ∧
      p.taken ev = some x.entry ∧ x.turn = p.turn x.entry amb order := by
  have hmoves := p.step_moves ev
  change (p.step ev).2 = some x at h
  generalize p.step ev = y at hmoves h
  cases hmoves with
  | decided hqueue htaken =>
      obtain rfl := Option.some.inj h
      exact ⟨_, _, _, rfl, hqueue, htaken, rfl⟩
  | _ => cases h

/-- The entry that an event hands to the decision thread is handled. -/
theorem out_of_taken {i : Inbound} (h : p.taken ev = some i) :
    ∃ amb order, ev = .decides amb order ∧ process.out p ev = some ⟨i, p.turn i amb order⟩ := by
  have hmoves := p.step_moves ev
  show ∃ amb order, _ ∧ (p.step ev).2 = _
  generalize p.step ev = y at hmoves
  cases hmoves with
  | decided hqueue htaken =>
      obtain rfl := Option.some.inj (htaken.symm.trans h)
      exact ⟨_, _, rfl, rfl⟩
  | idle htaken | acceptor point htaken => exact absurd (htaken.symm.trans h) nofun
  | _ => cases h

/-- The entries handled in a history. -/
def entries (h : List (Event × Option Handled)) : List Inbound :=
  h.flatMap fun x => x.2.toList.map Handled.entry

theorem next_queue (p : Process) (ev : Event) :
    p.queue <+: (process.out p ev).toList.map Handled.entry ++ (process.next p ev).queue := by
  have hmoves := p.step_moves ev
  show p.queue <+: (p.step ev).2.toList.map Handled.entry ++ (p.step ev).1.queue
  generalize p.step ev = y at hmoves
  cases hmoves with
  | decided hqueue => exact hqueue ▸ List.prefix_rfl
  | received | stopped | lost | wakes => exact List.prefix_append _ _
  | _ => exact List.prefix_rfl

/-- In every run the entries of the queue are handled first, and in their order. -/
theorem run_queue (p : Process) (evs : List Event) :
    p.queue <+: entries (process.trace p evs) ++ (process.run p evs).queue :=
  Machine.queue_prefix queue (fun x : Option Handled => x.toList.map Handled.entry) next_queue p evs

end Process

end ExecutionFabric
