import ExecutionFabric.Coordinator.Requests
import ExecutionFabric.Engine.Enabled

/-!
What becomes of the executions of a worker that disconnects?

The table of connections remembers one execution per connection, the one that
was dispatched to it last, and the closing of the connection asks the engine
to take that one away. Ownership is a matter of the records, and any number of
them may name the worker: a second dispatch overwrites what the table
remembers, a resumption is never entered there, and the loss of an execution in
`RESUMING` is deferred. Such executions are left with a worker that is gone
(`closing_orphans`). `closings_complete_iff` says when none is.
-/

namespace ExecutionFabric

open Collections StepMachine ExecutionEngine

/-! ### Assigned executions -/

/-- The states in which an execution is with its worker. -/
def ExecutionState.assigned (st : ExecutionState) : Bool :=
  st ∈ [dispatched, running, resuming]

/-- The record names that incarnation of the worker as owner, and is with it. -/
structure ExecutionRecord.With (r : ExecutionRecord) (worker : WorkerId) (boot : WorkerBootId) :
    Prop where
  worker : r.ownerWorker = some worker
  boot : r.ownerWorkerBoot = some boot
  assigned : r.state.assigned = true

/-- No execution is with that incarnation of the worker. -/
def ExecutionEngine.Clear (s : ExecutionEngine) (worker : WorkerId) (boot : WorkerBootId) : Prop :=
  s.Every fun r => ¬r.With worker boot

/-- The loss of the record is classified under the epoch `e`, and not refused
or deferred. -/
structure ExecutionRecord.Losable (r : ExecutionRecord) (cur e : CoordinatorEpoch) : Prop where
  current : cur ≤ e
  record : r.coordinatorEpoch ≤ e
  state : r.state ≠ .resuming

section

variable {s : ExecutionEngine} {amb : Ambient} {id : ExecutionId} {worker : WorkerId}
  {boot : WorkerBootId} {e : CoordinatorEpoch} {r r' : ExecutionRecord} {o : Outcome}

theorem ExecutionState.lossTarget_of_assigned {st : ExecutionState} (h : st.assigned = true)
    (hne : st ≠ .resuming) : ∃ target, st.lossTarget = some target := by
  cases st <;> simp_all [ExecutionState.assigned, ExecutionState.lossTarget]

/-- The effect of a loss: the record was losable, and is with nobody. -/
theorem Effect.loss {cur : CoordinatorEpoch}
    (effect : Effect cur amb r (.markWorkerLost id worker boot e) o r') :
    r.Losable cur e ∧ r'.state.assigned = false := by
  cases effect with
  | lost hcur hrec hworker hboot hstate gives =>
      rcases ExecutionState.lossTarget_cases hstate with ⟨h, rfl⟩ | ⟨h, rfl⟩ | ⟨h, rfl⟩ | ⟨h, rfl⟩
        <;> exact ⟨⟨hcur, hrec, by rw [h]; exact nofun⟩, rfl⟩

/-- After the report of a loss, nothing is with the worker exactly when nothing
was but the execution reported, and that could be classified. -/
theorem clear_after_loss_iff :
    (engine.next s ⟨.markWorkerLost id worker boot e, amb⟩).Clear worker boot ↔
      ∀ id' r, s.find id' = some r → r.With worker boot → id' = id ∧ r.Losable s.epoch e := by
  have hsame : (engine.next s ⟨.markWorkerLost id worker boot e, amb⟩).epoch = s.epoch :=
    epoch_next rfl nofun
  constructor
  · -- what was with the worker is not any more, so the call acted on it
    intro hclear id' r hfind hwith
    have hview := step_view s ⟨.markWorkerLost id worker boot e, amb⟩ id'
    rw [hfind] at hview
    generalize hx : (engine.next s ⟨.markWorkerLost id worker boot e, amb⟩).find id' = x at hview
    cases hview with
    | idle => exact absurd hwith (hclear id' r hx)
    | acted htarget hcur effect =>
        refine ⟨(Option.some.inj htarget).symm, ?_⟩
        rw [← hsame]
        exact effect.loss.1
  · intro hlosable id' r' hfind hwith
    cases origin hfind with
    | idle hx =>
        -- a losable record does not stay as it is
        obtain ⟨rfl, hcur, hrec, hresuming⟩ := hlosable id' r' hx hwith
        obtain ⟨target, htarget⟩ := ExecutionState.lossTarget_of_assigned hwith.assigned hresuming
        have hacts : Acts s amb (.markWorkerLost id' worker boot e) id' _ _ :=
          markWorkerLost_acts hx
            (.lost hcur hrec hwith.worker hwith.boot htarget (Outcome.plain_gives _ _ _))
        have hstate : r'.state = target :=
          congrArg ExecutionRecord.state (Option.some.inj (hfind.symm.trans hacts.find))
        have hgone : target.assigned = true := hstate ▸ hwith.assigned
        rcases ExecutionState.lossTarget_cases htarget with ⟨-, rfl⟩ | ⟨-, rfl⟩ | ⟨-, rfl⟩ | ⟨-, rfl⟩
          <;> cases hgone
    | created _ hop => cases hop
    | acted _ htarget hcur effect =>
        exact absurd (effect.loss.2.symm.trans hwith.assigned) nofun

end

/-! ### Closing a connection -/

/-- The connection is that of a worker, and no other announced the same
identities. -/
structure Coordinator.Serves (k : Coordinator) (conn : ℕ) (entry : ConnEntry) : Prop where
  found : k.conns.lookup conn = some entry
  worker : entry.isWorker = true
  sole : ∀ c x, k.conns.lookup c = some x → x.workerId = entry.workerId → x.boot = entry.boot →
    c = conn

/-- The only connection, if it is a worker's, is the one that serves it. -/
theorem serves_alone {k : Coordinator} {conn : ℕ} {entry : ConnEntry}
    (hkeys : k.conns.keys = {conn}) (hfound : k.conns.lookup conn = some entry)
    (hworker : entry.isWorker = true) : k.Serves conn entry := by
  refine ⟨hfound, hworker, fun c x hx _ _ => ?_⟩
  have hmem : c ∈ k.conns.keys := Finmap.mem_keys.2 (Finmap.mem_of_lookup_eq_some hx)
  rw [hkeys] at hmem
  exact Finset.mem_singleton.1 hmem

/-- All that is with the worker is the one execution that the table remembers,
and its loss can be classified under the epoch of the coordinator. -/
def Coordinator.Remembers (k : Coordinator) (entry : ConnEntry) : Prop :=
  ∀ id r, k.engine.find id = some r → r.With entry.workerId entry.boot →
    entry.activeExecution = some id ∧ r.Losable k.engine.epoch k.epoch

/-- The entry of the queue that a closed connection leaves behind. -/
inductive Event.Closes : Event → ℕ → Prop
  | marker (conn : ℕ) (amb : Ambient) (order : List ℕ) :
      Closes (.inbound conn .shutdown Turn.closedMarker amb order) conn

section

variable {k : Coordinator} {conn : ℕ} {amb : Ambient} {entry : ConnEntry} {ev : Event}

theorem closing_clear_iff (hfound : k.conns.lookup conn = some entry)
    (hworker : entry.isWorker = true) :
    (Turn.onConnClosed { coordinator := k } conn amb).coordinator.engine.Clear entry.workerId
      entry.boot ↔ k.Remembers entry := by
  have hreached := (Turn.Follows.onConnClosed k conn amb).reached
  rw [hreached]
  unfold Coordinator.Remembers Coordinator.closing
  simp only [hfound]
  cases hactive : entry.activeExecution with
  | none =>
      -- no loss is reported, and the engine stays as it is
      constructor
      · exact fun hclear id r hfind hwith => absurd hwith (hclear id r hfind)
      · exact fun hnone id r hfind hwith => absurd (hnone id r hfind hwith).1 nofun
  | some id =>
      dsimp only
      rw [if_pos hworker]
      refine clear_after_loss_iff.trans ?_
      simp only [Option.some.injEq, eq_comm]

/-- The event, if it is the closing of such a connection, leaves nothing with
its worker. -/
def LeavesNone (k : Coordinator) (ev : Event) : Prop :=
  ∀ conn entry, ev.Closes conn → k.alive = true → k.Serves conn entry →
    (coordinator.next k ev).engine.Clear entry.workerId entry.boot

/-- The guard of the runs in which the table keeps track of its workers. -/
def KeepsTrack (k : Coordinator) (ev : Event) : Prop :=
  ∀ conn entry, ev.Closes conn → k.alive = true → k.Serves conn entry → k.Remembers entry

theorem leavesNone_iff : LeavesNone k ev ↔ KeepsTrack k ev := by
  refine forall_congr' fun conn => forall_congr' fun entry => ?_
  refine forall_congr' fun hcloses => forall_congr' fun halive => forall_congr' fun hserves => ?_
  obtain ⟨conn, amb, order⟩ := hcloses
  have hnext : coordinator.next k (.inbound conn .shutdown Turn.closedMarker amb order)
      = (Turn.onConnClosed { coordinator := k } conn amb).coordinator := by
    rw [next_of_alive halive, Turn.decide, if_pos ⟨rfl, rfl⟩]
  rw [hnext]
  exact closing_clear_iff hserves.found hserves.worker

end

/-- In a run, every closing of a worker's only connection leaves nothing with
the worker exactly when the table kept track of it each time. -/
theorem closings_complete_iff (persistent : Bool) (file : Option ByteString)
    (e₀ : CoordinatorEpoch) (events : List Event) :
    (∀ evs ev, evs ++ [ev] <+: events →
      LeavesNone (coordinator.run (.construct persistent file e₀) evs) ev) ↔
      coordinator.Meets KeepsTrack (.construct persistent file e₀) events :=
  Machine.forall_iff_meets fun _ _ _ => leavesNone_iff

/-- Two executions are dispatched to a worker, which then disconnects: the first
stays with it. -/
theorem closing_orphans :
    ¬∀ persistent file e₀ events ev,
      LeavesNone (coordinator.run (.construct persistent file e₀) events) ev := by
  intro hclaim
  let other : ExecutionId := Sample.sampleId 2
  let events := Sample.connecting ++ [Sample.submitFrame Sample.execution 1,
    Sample.submitFrame other 1, Sample.dispatchFrame Sample.execution 10 1,
    Sample.dispatchFrame other 20 1]
  let k := coordinator.run (.construct false none ⟨1⟩) events
  let closed := Sample.inbound .shutdown Turn.closedMarker
  have hfacts : k.alive = true ∧ k.conns.keys = {1} ∧
      (k.conns.lookup 1).map (fun x => (x.isWorker, x.workerId, x.boot))
        = some (true, Sample.worker, Sample.boot) ∧
      ((coordinator.next k closed).engine.find Sample.execution).map
        (fun r => (r.ownerWorker, r.ownerWorkerBoot, r.state))
          = some (some Sample.worker, some Sample.boot, .dispatched) := by decide +kernel
  obtain ⟨halive, hkeys, hconn, hleft⟩ := hfacts
  obtain ⟨entry, hfound, hentry⟩ := Option.map_eq_some_iff.1 hconn
  obtain ⟨r, hfind, hr⟩ := Option.map_eq_some_iff.1 hleft
  simp only [Prod.mk.injEq] at hentry hr
  have hserves := serves_alone hkeys hfound hentry.1
  have hclear := hclaim false none ⟨1⟩ events closed 1 entry (.marker 1 _ _) halive hserves
  have howner : r.ownerWorker = some entry.workerId := by rw [hr.1, hentry.2.1]
  have hboot : r.ownerWorkerBoot = some entry.boot := by rw [hr.2.1, hentry.2.2]
  have hstate : r.state = .dispatched := hr.2.2
  exact hclear Sample.execution r hfind ⟨howner, hboot, by rw [hstate]; rfl⟩

end ExecutionFabric
