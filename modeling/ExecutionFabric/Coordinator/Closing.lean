import ExecutionFabric.Coordinator.Process
import ExecutionFabric.Coordinator.Requests

/-!
Is a connection that is reported as closed closed?

The closing of a connection is told to the decision thread by an entry of the
same form as a frame, and nothing distinguishes the two. A client that sends
`SHUTDOWN` with the four bytes of the marker is taken off the table, and its
worker is reported as lost, while its connection is open (`marker_forged`). And
a reader also ends, and makes such an entry, when it finds `running_` cleared,
whatever its connection does.

`closings_genuine` says that these are the only ways: as long as no frame has
the form of the marker, and no reader finds `running_` cleared on an open
connection, what is handled as a closed connection is one. Even then the worker
reported as lost can be that of an open connection, if two connections announced
the same identities.
-/

namespace ExecutionFabric

open Collections StepMachine

namespace Process

/-- A reader made the entry after its connection had failed or closed, which
has not been opened again. -/
structure Genuine (p : Process) (i : Inbound) : Prop where
  producer : i.producer = .leaver true
  closed : i.conn ∉ p.up

/-- A marker, if the event hands one to the decision thread, is genuine. -/
def ClosesGenuine (p : Process) (ev : Event) : Prop :=
  ∀ i, p.taken ev = some i → i.IsMarker → p.Genuine i

/-- The guard of the runs in which no frame has the form of the marker, and no
reader of an open connection ends because `running_` is cleared. -/
def Honest (p : Process) : Event → Prop
  | .receives conn type payload =>
      p.readers.lookup conn = some .receiving →
        ¬(type = .shutdown ∧ payload = Turn.closedMarker)
  | .readerChecks conn =>
      p.readers.lookup conn = some .checking → p.coordinator.running = true ∨ conn ∉ p.up
  | _ => True

/-- No worker that the closing of a connection reports as lost is that of an
open connection. -/
def Spares (p : Process) (ev : Event) : Prop :=
  ∀ x, process.out p ev = some x → x.entry.IsMarker →
    ∀ c ∈ x.turn.calls, ∀ id worker boot e, c.1.op = .markWorkerLost id worker boot e →
      ∀ conn ∈ p.up, ∀ entry, p.coordinator.conns.lookup conn = some entry →
        ¬entry.Announced worker boot

/-- A worker whose connection is reported as closed, with an execution to be
lost, has no other connection that is open. -/
def Sole (p : Process) (ev : Event) : Prop :=
  ∀ i lost, p.taken ev = some i → i.IsMarker → p.coordinator.conns.lookup i.conn = some lost →
    lost.isWorker = true → lost.activeExecution ≠ none →
      ∀ conn ∈ p.up, conn ≠ i.conn → ∀ entry, p.coordinator.conns.lookup conn = some entry →
        ¬entry.Announced lost.workerId lost.boot

/-! ### Markers in the queue -/

/-- Every marker in the queue is genuine. -/
def AllGenuine (p : Process) : Prop := ∀ i ∈ p.queue, i.IsMarker → p.Genuine i

variable {p : Process} {ev : Event} {i : Inbound}

theorem AllGenuine.push (h : p.AllGenuine) (hi : i.IsMarker → p.Genuine i) :
    (p.push i).AllGenuine := by
  intro j hj hmarker
  rcases List.mem_append.1 hj with hj | hj
  · exact ⟨(h j hj hmarker).producer, (h j hj hmarker).closed⟩
  · rw [List.mem_singleton.1 hj] at hmarker ⊢
    exact ⟨(hi hmarker).producer, (hi hmarker).closed⟩

/-- A reader ends, and its connection is not open. -/
theorem AllGenuine.readerEnds (h : p.AllGenuine) {conn : ℕ} (hconn : conn ∉ p.up) :
    (p.readerEnds conn).AllGenuine := by
  have herase : { p with readers := p.readers.erase conn }.AllGenuine := fun i hi hmarker =>
    ⟨(h i hi hmarker).producer, (h i hi hmarker).closed⟩
  exact herase.push fun _ => ⟨congrArg Producer.leaver (decide_eq_true hconn), hconn⟩

theorem AllGenuine.next_event (h : p.AllGenuine) (hnumbered : p.Numbered) (hhonest : p.Honest ev) :
    (process.next p ev).AllGenuine := by
  have hkept : ∀ {q : Process}, q.queue = p.queue → (∀ i ∈ p.queue, i.conn ∈ q.up → i.conn ∈ p.up) →
      q.AllGenuine := by
    intro q hqueue hup i hi hmarker
    rw [hqueue] at hi
    exact ⟨(h i hi hmarker).producer, fun hconn => (h i hi hmarker).closed (hup i hi hconn)⟩
  have hmoves := p.step_moves ev
  show (p.step ev).1.AllGenuine
  generalize p.step ev = y at hmoves
  cases hmoves with
  | accepted =>
      -- a new connection has a number that is not in the queue
      refine hkept rfl fun i hi hconn => (Finset.mem_insert.1 hconn).resolve_left fun heq => ?_
      exact absurd (heq ▸ (hnumbered.queue i hi).1) (Nat.lt_irrefl _)
  | failed conn => exact hkept rfl fun i _ => Finset.mem_of_mem_erase
  | @received conn type payload hreader =>
      have hreading : { p with readers := p.readers.insert conn .checking }.AllGenuine :=
        hkept rfl fun _ _ => id
      exact hreading.push fun hmarker => absurd hmarker (hhonest hreader)
  | @stopped conn hreader hrunning =>
      have hconn : conn ∉ p.up := (hhonest hreader).resolve_left fun h => by
        rw [hrunning] at h
        cases h
      exact h.readerEnds hconn
  | lost hreader hconn => exact h.readerEnds hconn
  | @decided j rest amb order hqueue =>
      intro i hi hmarker
      have hmem : i ∈ p.queue := hqueue ▸ List.mem_cons_of_mem j hi
      exact ⟨(h i hmem hmarker).producer, (h i hmem hmarker).closed⟩
  | wakes =>
      have hjoining : { p with stopping := .joining }.AllGenuine := hkept rfl fun _ _ => id
      exact hjoining.push fun hmarker => absurd hmarker.2 nofun
  | _ => exact hkept rfl fun _ _ => id

theorem genuine_of_meets (persistent : Bool) (file : Option ByteString) (epoch : CoordinatorEpoch)
    (evs : List Event) (h : process.Meets Honest (start persistent file epoch) evs) :
    (process.run (start persistent file epoch) evs).AllGenuine := by
  have hstep : ∀ q ev, Honest q ev → q.Numbered ∧ q.AllGenuine →
      (process.next q ev).Numbered ∧ (process.next q ev).AllGenuine :=
    fun q ev hhonest hq => ⟨hq.1.next_event ev, hq.2.next_event hq.1 hhonest⟩
  have hstart : (start persistent file epoch).AllGenuine := fun i hi =>
    absurd hi List.not_mem_nil
  exact (Runs.preserves hstep (runs_trace process _ evs h)
    ⟨numbered_start persistent file epoch, hstart⟩).2

theorem mem_of_taken (h : p.taken ev = some i) : i ∈ p.queue := by
  obtain ⟨amb, order, -, hout⟩ := out_of_taken h
  obtain ⟨_, _, rest, -, hqueue, -, -⟩ := out_some hout
  rw [hqueue]
  exact List.mem_cons_self

/-- The turn of a marker makes the calls of the closing. -/
theorem turn_calls (hmarker : i.IsMarker) (amb : Ambient) (order : List ℕ) :
    (p.turn i amb order).calls =
      engine.trace p.coordinator.engine (p.coordinator.closing i.conn amb) := by
  have hrequests : p.coordinator.requests i.conn i.type i.payload amb order =
      p.coordinator.closing i.conn amb := if_pos hmarker
  rw [← hrequests]
  exact (Turn.decide_follows p.coordinator i.conn i.type i.payload amb order).made

/-- The one call of a closing, if the table remembers an execution of the worker. -/
theorem mem_closing {k : Coordinator} {conn : ℕ} {amb : Ambient} {c : Call}
    (h : c ∈ k.closing conn amb) :
    ∃ lost id, k.conns.lookup conn = some lost ∧ lost.isWorker = true ∧
      lost.activeExecution = some id ∧
        c = ⟨.markWorkerLost id lost.workerId lost.boot k.epoch, amb⟩ := by
  unfold Coordinator.closing at h
  split at h
  · cases h
  · rename_i lost hlost
    split at h
    · rename_i id hactive
      split at h
      · rename_i hworker
        exact ⟨lost, id, hlost, hworker, hactive, List.mem_singleton.1 h⟩
      · cases h
    · cases h

theorem closing_of_active {k : Coordinator} {conn : ℕ} {amb : Ambient} {lost : ConnEntry}
    {id : ExecutionId} (hlost : k.conns.lookup conn = some lost) (hworker : lost.isWorker = true)
    (hactive : lost.activeExecution = some id) :
    k.closing conn amb = [⟨.markWorkerLost id lost.workerId lost.boot k.epoch, amb⟩] := by
  simp only [Coordinator.closing, hlost, hactive, if_pos hworker]

/-- Where the marker is genuine, the worker reported as lost is spared exactly if
no other open connection is its. -/
theorem spares_iff (h : p.ClosesGenuine ev) : p.Spares ev ↔ p.Sole ev := by
  constructor
  · intro hspares i lost htaken hmarker hlost hworker hactive conn hup _ entry hentry hannounced
    obtain ⟨amb, order, -, hout⟩ := out_of_taken htaken
    obtain ⟨id, hid⟩ := Option.ne_none_iff_exists'.1 hactive
    have hcalls := p.turn_calls hmarker amb order
    rw [closing_of_active hlost hworker hid] at hcalls
    have hreported : ∃ o, (⟨.markWorkerLost id lost.workerId lost.boot p.coordinator.epoch, amb⟩, o)
        ∈ (p.turn i amb order).calls := by
      rw [hcalls]
      exact ⟨_, List.mem_cons_self⟩
    obtain ⟨o, hreported⟩ := hreported
    exact hspares _ hout hmarker _ hreported id _ _ _ rfl conn hup entry hentry hannounced
  · rintro hsole x hout hmarker c hc id worker boot e hop conn hup entry hentry hannounced
    obtain ⟨amb, order, -, -, -, htaken, hturn⟩ := out_some hout
    rw [hturn, p.turn_calls hmarker] at hc
    have hcall : c.1 ∈ p.coordinator.closing x.entry.conn amb := by
      have hfst := List.mem_map_of_mem (f := Prod.fst) hc
      rwa [Machine.map_fst_trace] at hfst
    obtain ⟨lost, active, hlost, hworker, hactive, hcall⟩ := mem_closing hcall
    rw [hcall] at hop
    obtain ⟨-, rfl, rfl, -⟩ := Op.markWorkerLost.inj hop
    have hother : conn ≠ x.entry.conn := fun heq => (h _ htaken hmarker).closed (heq ▸ hup)
    exact hsole _ lost htaken hmarker hlost hworker (hactive ▸ Option.some_ne_none active) conn hup hother
      entry hentry hannounced

end Process

/-- In a run in which no frame has the form of the marker and no reader of an
open connection ends, what is handled as a closed connection is one, and the
worker that is reported as lost has no open connection exactly if it had but the
closed one. -/
theorem closings_genuine (persistent : Bool) (file : Option ByteString) (e₀ : CoordinatorEpoch)
    (events : List Process.Event)
    (h : process.Meets Process.Honest (.start persistent file e₀) events) :
    ∀ evs ev, evs ++ [ev] <+: events →
      (process.run (.start persistent file e₀) evs).ClosesGenuine ev ∧
        ((process.run (.start persistent file e₀) evs).Spares ev ↔
          (process.run (.start persistent file e₀) evs).Sole ev) := by
  intro evs ev hevs
  have hbefore : process.Meets Process.Honest (.start persistent file e₀) evs :=
    h.of_prefix ((List.prefix_append evs [ev]).trans hevs)
  have hall := Process.genuine_of_meets persistent file e₀ evs hbefore
  have hgenuine : (process.run (.start persistent file e₀) evs).ClosesGenuine ev :=
    fun i htaken hmarker => hall i (Process.mem_of_taken htaken) hmarker
  exact ⟨hgenuine, Process.spares_iff hgenuine⟩

namespace Sample

/-- A connection is accepted, and its reader waits for a frame. -/
def reading : List Process.Event := [.acceptorChecks, .accepts, .readerChecks 1]

end Sample

/-- A connection is accepted and fails, and its closing is handled. -/
theorem failure_genuine :
    ∃ i, (process.run (.start false none ⟨1⟩) (Sample.reading ++ [.fails 1, .recvFails 1])).taken
        (.decides (Sample.ambient 0) []) = some i ∧ i.IsMarker ∧
      (process.run (.start false none ⟨1⟩) (Sample.reading ++ [.fails 1, .recvFails 1])).Genuine i := by
  let evs : List Process.Event := Sample.reading ++ [.fails 1, .recvFails 1]
  let ev : Process.Event := .decides (Sample.ambient 0) []
  have hmeets : process.Meets Process.Honest (.start false none ⟨1⟩) (evs ++ [ev]) :=
    ⟨trivial, trivial, fun _ => .inl (by decide +kernel), trivial, trivial, trivial, trivial⟩
  have htaken : (process.run (.start false none ⟨1⟩) evs).taken ev =
      some ⟨1, .shutdown, Turn.closedMarker, .leaver true⟩ := by rfl
  have hgenuine := (closings_genuine false none ⟨1⟩ (evs ++ [ev]) hmeets evs ev
    List.prefix_rfl).1 _ htaken ⟨rfl, rfl⟩
  exact ⟨_, htaken, ⟨rfl, rfl⟩, hgenuine⟩

/-- A client sends the frame that has the form of the marker. -/
theorem marker_forged :
    ¬∀ persistent file e₀ events ev,
      (process.run (.start persistent file e₀) events).ClosesGenuine ev := by
  intro hclaim
  let evs : List Process.Event := Sample.reading ++ [.receives 1 .shutdown Turn.closedMarker]
  let ev : Process.Event := .decides (Sample.ambient 0) []
  have htaken : (process.run (.start false none ⟨1⟩) evs).taken ev =
      some ⟨1, .shutdown, Turn.closedMarker, .receiver⟩ := by rfl
  have hgenuine := hclaim false none ⟨1⟩ evs ev _ htaken ⟨rfl, rfl⟩
  exact absurd hgenuine.producer nofun

end ExecutionFabric
