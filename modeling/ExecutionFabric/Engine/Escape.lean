import ExecutionFabric.Engine.Authority
import ExecutionFabric.Engine.Enabled

/-!
Can every execution still be settled?

A caller who may present any ticket settles an execution whose record has the
epoch of the engine: the plans below go down the state graph, one effect at a
time. A record keeps the epoch it was created under, and nothing that settles
an execution accepts a record with an older epoch than the engine, the end of a
requested cancellation excepted. Outside that state an older record is
therefore trapped (`trapped_step`), and the two sides meet in `escapes_iff`.
-/

namespace ExecutionFabric

open StepMachine ExecutionEngine ExecutionStateMachine

/-- The execution has come to an end. -/
def Settled (id : ExecutionId) (s : ExecutionEngine) : Prop :=
  ∃ r, s.find id = some r ∧
    (r.state = .committed ∨ r.state = .cancelled ∨ r.state = .superseded)

/-- In the environment `env`, some operations settle the execution. -/
def Escapes (env : ℕ → Ambient) (s : ExecutionEngine) (id : ExecutionId) : Prop :=
  Steers engine Call.mk (Settled id) env s

/-! ### Plans -/

/-- The record of the execution, of the same epoch as the engine. -/
structure Stands (s : ExecutionEngine) (id : ExecutionId) (r : ExecutionRecord) : Prop where
  find : s.find id = some r
  key : r.id = id
  epoch : r.coordinatorEpoch = s.epoch
  shaped : r.Shaped

section

variable {s : ExecutionEngine} {id : ExecutionId} {r r' : ExecutionRecord} {op : Op} {o : Outcome}
  {amb : Ambient} {env : ℕ → Ambient}

/-- An effect under the epoch of the engine leads to a record that stands. -/
theorem Stands.act (h : Stands s id r) (htarget : op.target = some id) (hop : op.epoch = s.epoch)
    (effect : Effect s.epoch amb r op o r') : Stands (engine.next s ⟨op, amb⟩) id r' := by
  have hepoch : (s.adoptFor op).epoch = s.epoch := by
    unfold adoptFor
    split
    · rw [adoptEpoch_epoch_of_le _ hop.ge, hop]
    · rfl
  have hacts : Acts s amb op id o r' :=
    effect_acts htarget h.find hop.ge (hepoch.symm ▸ effect)
  obtain ⟨hkey, hrecord, -⟩ := effect.frame
  refine ⟨?_, hkey.trans h.key, ?_, effect.shaped h.shaped⟩
  · rw [hacts.next, find_store_self]
  · rw [hacts.next, store_epoch, hepoch, hrecord, h.epoch]

/-- One step of a plan. -/
theorem Stands.escapes (op : Op) (h : Stands s id r) (htarget : op.target = some id)
    (hop : op.epoch = s.epoch) (effect : Effect s.epoch (env 0) r op o r')
    (hrest : ∀ {t}, Stands t id r' → Escapes (fun n => env (n + 1)) t id) : Escapes env s id :=
  .step op (hrest (h.act htarget hop effect))

/-- A request by whoever owns the execution. -/
def ExecutionRecord.request (r : ExecutionRecord) : ControlRequest where
  executionId := r.id
  executionGeneration := r.generation
  epoch := r.coordinatorEpoch
  authorityGeneration := r.ownershipGeneration

/-- The start ticket of the attempt `a`, had it been issued. -/
def ExecutionRecord.startOf (r : ExecutionRecord) (a : AttemptRecord) : StartTicket where
  executionId := r.id
  executionGeneration := r.generation
  attemptId := a.id
  attemptGeneration := a.generation
  workerId := a.workerId
  workerBootId := a.workerBootId
  epoch := r.coordinatorEpoch
  dispatchId := a.dispatchId
  dispatchGeneration := a.dispatchGeneration
  ownershipGeneration := a.ownershipGeneration
  fenceGeneration := a.fenceGeneration

theorem Stands.request_authorised (h : Stands s id r) : r.request.Authorised s.epoch r :=
  ⟨h.epoch, rfl, rfl⟩

/-- A settled record is the end of every plan. -/
theorem Stands.settled (h : Stands s id r)
    (hstate : r.state = .committed ∨ r.state = .cancelled ∨ r.state = .superseded) :
    Escapes env s id := .here ⟨r, h.find, hstate⟩

theorem Stands.escapes_created (h : Stands s id r) (hstate : r.state = .created) :
    Escapes env s id :=
  h.escapes (.cancel r.request) (congrArg some h.key) h.epoch
    (.cancelledEarly h.request_authorised hstate (Outcome.plain_gives _ _ _))
    fun h => h.settled (.inr (.inl rfl))

/-- A requested cancellation can be finalised under any epoch of the record. -/
theorem escapes_cancelling (hfind : s.find id = some r) (hle : r.coordinatorEpoch ≤ s.epoch)
    (hstate : r.state = .cancellationRequested) : Escapes env s id := by
  have hacts : Acts s (env 0) (.finalizeCancel id s.epoch) id _ _ :=
    effect_acts rfl hfind le_rfl
      (.cancelFinalized le_rfl hle hstate (Outcome.plain_gives .allow none none))
  refine .step (.finalizeCancel id s.epoch) (.here
    ⟨{ r.retireCurrent .cancelled with state := .cancelled }, ?_, .inr (.inl rfl)⟩)
  rw [hacts.next, find_store_self]

theorem Stands.escapes_cancellable (h : Stands s id r) (hstate : r.state.cancellable = true) :
    Escapes env s id :=
  h.escapes (.cancel r.request) (congrArg some h.key) h.epoch
    (.cancelRequested h.request_authorised hstate (Outcome.plain_gives _ _ _))
    fun h => escapes_cancelling h.find h.epoch.le rfl

theorem Stands.escapes_ambiguous (h : Stands s id r) (hstate : r.state = .ambiguous) :
    Escapes env s id :=
  h.escapes (.supersede id s.epoch) rfl rfl
    (.superseded h.epoch (by rw [hstate]; rfl) (Outcome.plain_gives _ _ _)) fun h =>
    h.settled (.inr (.inr rfl))

/-- A resuming attempt is started with a ticket made from the record. -/
theorem Stands.escapes_held (h : Stands s id r) (hstate : r.state = .resuming) (hheld : r.Held) :
    Escapes env s id := by
  obtain ⟨a, -, -, held⟩ := hheld.current
  have auth : StartAuthorised s.epoch r (r.startOf a) :=
    ⟨h.epoch, rfl, held.attempt, held.attemptGeneration, held.worker, held.boot,
      held.ownership.symm, held.fence.symm⟩
  exact h.escapes (.markRunning (r.startOf a)) (congrArg some h.key) h.epoch
    (.started auth (.inr hstate) (Outcome.plain_gives _ _ _)) fun h => h.escapes_cancellable rfl

/-- A resuming record whose authority was dropped gets a new attempt from a
dispatch, although the dispatch is rejected. -/
theorem Stands.escapes_resuming (h : Stands s id r) (hstate : r.state = .resuming) :
    Escapes env s id := by
  rcases h.shaped.holding with hvacant | hheld
  · refine h.escapes (.dispatch id .nil .nil s.epoch) rfl rfl
      (.dispatchStuck h.epoch.le hstate (Outcome.plain_gives _ _ _)) fun h => ?_
    refine h.escapes_held ?_ (h.shaped.holding.held rfl)
    simp [ExecutionRecord.install, ExecutionRecord.supersedeCurrent_eq, hstate]
  · exact h.escapes_held hstate hheld

theorem Stands.escapes_resumable (h : Stands s id r) (hstate : r.state = .resumable) :
    Escapes env s id :=
  h.escapes (.resume id .nil .nil s.epoch r.resumeGeneration.next) rfl rfl
    (.resumed h.epoch hstate (Outcome.plain_gives _ _ _)) fun h => h.escapes_resuming rfl

theorem Stands.escapes_preempted (h : Stands s id r) (hstate : r.state = .preempted) :
    Escapes env s id :=
  h.escapes (.markResumable id s.epoch) rfl rfl
    (.madeResumable le_rfl h.epoch.le hstate (Outcome.plain_gives _ _ _))
    fun h => h.escapes_resumable rfl

theorem Stands.escapes_preempting (h : Stands s id r) (hstate : r.state = .preemptionRequested) :
    Escapes env s id :=
  h.escapes (.acknowledgePreempt id s.epoch) rfl rfl
    (.preemptAcknowledged le_rfl h.epoch.le hstate (Outcome.plain_gives _ _ _))
    fun h => h.escapes_preempted rfl

/-- A record that stands is settled or can be settled. -/
theorem Stands.escapes_any (h : Stands s id r) : Escapes env s id := by
  have hvisited := h.shaped.visited
  cases hstate : r.state with
  | created => exact h.escapes_created hstate
  | ready => exact h.escapes_cancellable (by rw [hstate]; rfl)
  | dispatched => exact h.escapes_cancellable (by rw [hstate]; rfl)
  | running => exact h.escapes_cancellable (by rw [hstate]; rfl)
  | cancellationRequested => exact escapes_cancelling h.find h.epoch.le hstate
  | preemptionRequested => exact h.escapes_preempting hstate
  | preempted => exact h.escapes_preempted hstate
  | resumable => exact h.escapes_resumable hstate
  | resuming => exact h.escapes_resuming hstate
  | ambiguous => exact h.escapes_ambiguous hstate
  | committed => exact h.settled (.inl hstate)
  | cancelled => exact h.settled (.inr (.inl hstate))
  | superseded => exact h.settled (.inr (.inr hstate))
  | _ =>
      rw [hstate] at hvisited
      cases hvisited

end

/-! ### The trap -/

/-- The record is live and older than the epoch of the engine, and no
cancellation of it was requested. -/
def Trapped (id : ExecutionId) (s : ExecutionEngine) : Prop :=
  ∃ r, s.find id = some r ∧ r.coordinatorEpoch < s.epoch ∧ isTerminal r.state = false ∧
    r.state ≠ .cancellationRequested

theorem Trapped.not_settled {id : ExecutionId} {s : ExecutionEngine} (h : Trapped id s) :
    ¬Settled id s := by
  obtain ⟨r, hfind, -, hlive, -⟩ := h
  rintro ⟨r', hfind', hstate⟩
  obtain rfl := Option.some.inj (hfind.symm.trans hfind')
  rcases hstate with h | h | h <;> rw [h] at hlive <;> cases hlive

/-- Under a newer epoch, an effect leads neither to an end nor to a requested
cancellation. -/
theorem Effect.trapped {e : CoordinatorEpoch} {amb : Ambient} {r r' : ExecutionRecord} {op : Op}
    {o : Outcome} (effect : Effect e amb r op o r') (hold : r.coordinatorEpoch < e)
    (hlive : isTerminal r.state = false) (hstate : r.state ≠ .cancellationRequested) :
    isTerminal r'.state = false ∧ r'.state ≠ .cancellationRequested := by
  cases effect with
  | activated => exact ⟨rfl, fun h => by cases h⟩
  | dispatched => exact ⟨rfl, fun h => by cases h⟩
  | dispatchStuck hrec hstate' gives =>
      simpa [ExecutionRecord.install, ExecutionRecord.supersedeCurrent_eq] using ⟨hlive, hstate⟩
  | started => exact ⟨rfl, fun h => by cases h⟩
  | committed auth => exact absurd (auth.recordEpoch.symm.trans auth.epoch) hold.ne
  | completeStuck auth => exact absurd (auth.recordEpoch.symm.trans auth.epoch) hold.ne
  | cancelledEarly auth => exact absurd (auth.recordEpoch.symm.trans auth.epoch) hold.ne
  | cancelRequested auth => exact absurd (auth.recordEpoch.symm.trans auth.epoch) hold.ne
  | cancelStuck auth => exact absurd (auth.recordEpoch.symm.trans auth.epoch) hold.ne
  | cancelFinalized hcur hrec hstate' => exact absurd hstate' hstate
  | preemptRequested auth => exact absurd (auth.recordEpoch.symm.trans auth.epoch) hold.ne
  | preemptAcknowledged => exact ⟨rfl, fun h => by cases h⟩
  | madeResumable => exact ⟨rfl, fun h => by cases h⟩
  | resumed hrec => exact absurd hrec hold.ne
  | lost hcur hrec hworker hboot hloss gives =>
      rcases ExecutionState.lossTarget_cases hloss with ⟨-, rfl⟩ | ⟨-, rfl⟩ | ⟨h, -⟩ | ⟨-, rfl⟩
      · exact ⟨rfl, fun h => by cases h⟩
      · exact ⟨rfl, fun h => by cases h⟩
      · exact absurd h hstate
      · exact ⟨rfl, fun h => by cases h⟩
  | superseded hrec => exact absurd hrec hold.ne
  | supersedeStuck hrec => exact absurd hrec hold.ne

theorem trapped_step (id : ExecutionId) (s : ExecutionEngine) (c : Call) (h : Trapped id s) :
    Trapped id (engine.next s c) := by
  obtain ⟨r, hfind, hold, hlive, hstate⟩ := h
  have hold' : r.coordinatorEpoch < (engine.next s c).epoch := hold.trans_le (epoch_le_next s c)
  have hview := step_view s c id
  rw [hfind] at hview
  generalize hy : (engine.next s c).find id = y at hview
  cases hview with
  | idle => exact ⟨r, hy, hold', hlive, hstate⟩
  | acted htarget hcur effect =>
      obtain ⟨hlive', hstate'⟩ := effect.trapped hold' hlive hstate
      exact ⟨_, hy, effect.frame.2.1 ▸ hold', hlive', hstate'⟩

/-- A live execution can be settled exactly when its record has the epoch of the
engine or a cancellation of it was requested. -/
theorem escapes_iff {s : ExecutionEngine} {id : ExecutionId} {r : ExecutionRecord}
    (hs : Reachable s) (hfind : s.find id = some r) (hlive : isTerminal r.state = false)
    (env : ℕ → Ambient) :
    Escapes env s id ↔ r.coordinatorEpoch = s.epoch ∨ r.state = .cancellationRequested := by
  obtain ⟨hkey, hle⟩ := hs.keyed hfind
  constructor
  · intro hescapes
    by_contra hcond
    obtain ⟨hepoch, hstate⟩ := not_or.1 hcond
    have htrapped : Trapped id s := ⟨r, hfind, lt_of_le_of_ne hle hepoch, hlive, hstate⟩
    exact not_steers_of_trap (fun s op amb => trapped_step id s ⟨op, amb⟩)
      (fun _ => Trapped.not_settled) htrapped hescapes
  · rintro (hepoch | hstate)
    · exact Stands.escapes_any ⟨hfind, hkey, hepoch, hs.shaped hfind⟩
    · exact escapes_cancelling hfind hle hstate

theorem escapes_iff_sample :
    Escapes (fun _ => Sample.ambient 10) (engine.run (init ⟨1⟩) Sample.readying) Sample.execution :=
  have hs : Reachable (engine.run (init ⟨1⟩) Sample.readying) :=
    reachable_run _ _
  have hfind : (engine.run (init ⟨1⟩) Sample.readying).find Sample.execution
      = some Sample.readied := by decide +kernel
  (escapes_iff hs hfind rfl _).2 (.inl (by decide +kernel))

/-- A rollover strands the executions that are waiting. -/
theorem stranded :
    ¬∀ (s : ExecutionEngine) (id : ExecutionId) (r : ExecutionRecord), Reachable s →
      s.find id = some r → isTerminal r.state = false →
      ∃ calls : List Call, Settled id (engine.run s calls) := by
  intro hclaim
  have hs : Reachable (engine.run (init ⟨1⟩)
      (Sample.readying ++ [Sample.call (.raiseEpoch ⟨2⟩)])) :=
    reachable_run _ _
  have hfind : (engine.run (init ⟨1⟩) (Sample.readying ++ [Sample.call (.raiseEpoch ⟨2⟩)])).find
      Sample.execution = some Sample.readied := by decide +kernel
  obtain ⟨calls, hsettled⟩ := hclaim _ _ _ hs hfind rfl
  have run := runs_always engine (engine.run (init ⟨1⟩)
    (Sample.readying ++ [Sample.call (.raiseEpoch ⟨2⟩)])) calls
  refine (run.preserves (fun t c _ => trapped_step Sample.execution t c) ?_).not_settled hsettled
  exact ⟨Sample.readied, hfind, by decide +kernel, rfl, nofun⟩

end ExecutionFabric
