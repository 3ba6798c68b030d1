import ExecutionFabric.Engine.Issuance
import ExecutionFabric.Engine.Dispatching

/-!
A completion that overtakes its start.

The two messages of a worker travel on their own, and the engine accepts a
completion without having seen the start. Whether the start was processed
should not matter to the commit. From `DISPATCHED` it does not. From
`RESUMING` it does: the row of that state leads to `RUNNING` only, so that the
completion of a resumed attempt is refused unless its start came first, and
leaves the attempt `COMPLETED` in an execution that still resumes.
-/

namespace ExecutionFabric

open StepMachine ExecutionEngine ExecutionStateMachine History

/-! ### The ticket of the current attempt -/

/-- The ticket `T`, issued in the run `h`, is that of the current attempt of
the record `r` of the execution `id`. -/
structure TicketOf (h : History) (id : ExecutionId) (r : ExecutionRecord) (T : DispatchTicket) :
    Prop where
  issued : T ∈ issuedFor id h
  names : ∃ a, r.Current a ∧ T.Matches T.epoch r a

section

variable {e₀ : CoordinatorEpoch} {h : History} {s : ExecutionEngine} {id : ExecutionId}
  {r : ExecutionRecord} {T : DispatchTicket}

theorem TicketOf.execution (hT : TicketOf h id r T) : T.executionId = id := by
  have hfor := (List.mem_filter.1 hT.issued).2
  exact eq_of_beq hfor

/-- The epoch of a ticket is the engine's where the record's is. -/
theorem TicketOf.epoch (run : Runs engine Always (init e₀) h s) (hfind : s.find id = some r)
    (hrec : r.coordinatorEpoch = s.epoch) (hT : TicketOf h id r T) : T.epoch = s.epoch := by
  obtain ⟨r', hr'⟩ := issuedUnder_of_runs run (List.mem_filter.1 hT.issued).1
  have hfound := hr'.found
  rw [hT.execution, hfind] at hfound
  obtain rfl := Option.some.inj hfound
  exact le_antisymm hr'.epoch (hrec ▸ hr'.recordEpoch)

/-- The start copied from the ticket of the current attempt passes the checks. -/
theorem TicketOf.start (run : Runs engine Always (init e₀) h s) (hfind : s.find id = some r)
    (hrec : r.coordinatorEpoch = s.epoch) (hT : TicketOf h id r T) :
    StartAuthorised s.epoch r T.start := by
  obtain ⟨a, hcurrent, hmatches⟩ := hT.names
  have held := hcurrent.held
  exact
    { epoch := hT.epoch run hfind hrec
      generation := hmatches.generation
      attempt := held.attempt.trans (congrArg some hmatches.attempt.symm)
      attemptGeneration :=
        held.attemptGeneration.trans (congrArg some hmatches.attemptGeneration.symm)
      worker := held.worker.trans (congrArg some hmatches.worker.symm)
      boot := held.boot.trans (congrArg some hmatches.boot.symm)
      ownership := hmatches.ownership.1
      fence := hmatches.fence.1 }

/-- The completion copied from it passes the checks exactly when no other
attempt has its identifier and another dispatch. -/
theorem TicketOf.completion_iff (run : Runs engine Always (init e₀) h s)
    (hfind : s.find id = some r) (hrec : r.coordinatorEpoch = s.epoch) (hT : TicketOf h id r T)
    (hid : id.isNil = false) (hworker : T.workerId.isNil = false)
    (hboot : T.workerBootId.isNil = false) (digest : ResultDigest) :
    CompletionAuthorised s.epoch r (T.completion digest) ↔
      ∀ a ∈ r.attempts, a.id = T.attemptId → a.dispatchId = T.dispatchId := by
  refine ⟨fun auth => auth.dispatch, fun hdispatch => ?_⟩
  have hshaped := (reachable_of_runs run).shaped hfind
  obtain ⟨a, hcurrent, hmatches⟩ := hT.names
  have hmade := hshaped.made _ (ExecutionRecord.ident_mem_lineage hcurrent.mem)
  have auth := hT.start run hfind hrec
  have hids : T.attemptId.isNil = false ∧ T.dispatchId.isNil = false := by
    rw [hmatches.attempt, hmatches.dispatch]
    exact ⟨hmade.id, hmade.dispatchId⟩
  have hcounters : T.attemptGeneration.isSet = true ∧ T.executionGeneration.isSet = true ∧
      T.ownershipGeneration.isSet = true ∧ T.fenceGeneration.isSet = true := by
    rw [hmatches.attemptGeneration, hmatches.generation, hmatches.ownership.2, hmatches.fence.2]
    exact ⟨hmade.generation, hshaped.generation, hmade.ownership, hmade.fence⟩
  exact
    { identified := ⟨(congrArg Id.isNil hT.execution).trans hid, hids.1, hworker, hboot, hids.2⟩
      counted := hcounters
      epoch := auth.epoch
      recordEpoch := auth.epoch.trans hrec.symm
      generation := auth.generation
      attempt := auth.attempt
      attemptGeneration := auth.attemptGeneration
      worker := auth.worker
      boot := auth.boot
      ownership := auth.ownership
      fence := auth.fence
      dispatch := hdispatch }

end

/-- A terminal record accepts no start, and keeps as it is. -/
theorem start_refused {s : ExecutionEngine} {t : StartTicket} {r : ExecutionRecord}
    (hfind : s.find t.executionId = some r) (hterminal : isTerminal r.state = true)
    (amb : Ambient) :
    (engine.out s ⟨.markRunning t, amb⟩).Refuses ∧
      (engine.next s ⟨.markRunning t, amb⟩).find t.executionId = some r := by
  have hview := step_view s ⟨.markRunning t, amb⟩ t.executionId
  rw [hfind] at hview
  generalize (engine.next s ⟨.markRunning t, amb⟩).find t.executionId = y at hview ⊢
  cases hview with
  | idle hquiet =>
      rcases hquiet rfl with refuses | ⟨repeats, -⟩
      · exact ⟨refuses, rfl⟩
      · cases repeats
  | acted _ _ effect =>
      rw [effect.live] at hterminal
      cases hterminal

/-! ### With and without the start -/

/-- The completion of `T` commits its result, and a start that comes after it
is refused and changes nothing. -/
structure Commits (s : ExecutionEngine) (T : DispatchTicket) (amb : Ambient)
    (digest : ResultDigest) : Prop where
  allows : (engine.out s ⟨.complete (T.completion digest), amb⟩).allows
  commits : ∃ r, (engine.next s ⟨.complete (T.completion digest), amb⟩).find T.executionId = some r ∧
    r.state = .committed ∧ r.committedDigest = some digest
  late : ∀ amb', (engine.out (engine.next s ⟨.complete (T.completion digest), amb⟩)
      ⟨.markRunning T.start, amb'⟩).Refuses ∧
    (engine.next (engine.next s ⟨.complete (T.completion digest), amb⟩)
      ⟨.markRunning T.start, amb'⟩).find T.executionId
      = (engine.next s ⟨.complete (T.completion digest), amb⟩).find T.executionId

/-- The result of `T` is committed whether its start was processed or not. -/
structure StartOptional (s : ExecutionEngine) (T : DispatchTicket) : Prop where
  skipped : ∀ amb digest, digest.isNil = false → Commits s T amb digest
  processed : ∀ amb amb' digest, digest.isNil = false →
    Commits (engine.next s ⟨.markRunning T.start, amb⟩) T amb' digest

section

variable {e₀ : CoordinatorEpoch} {h : History} {s : ExecutionEngine} {id : ExecutionId}
  {r : ExecutionRecord} {T : DispatchTicket}

theorem commits_of_authorised {digest : ResultDigest} (hfind : s.find T.executionId = some r)
    (auth : CompletionAuthorised s.epoch r (T.completion digest))
    (hstate : fromTo r.state .completed = true) (hdigest : digest.isNil = false) (amb : Ambient) :
    Commits s T amb digest := by
  obtain ⟨hallow, hnext⟩ := complete_commits (t := T.completion digest) hfind auth hstate rfl
    hdigest amb
  refine ⟨hallow, ⟨_, hnext, rfl, rfl⟩, fun amb' => ?_⟩
  obtain ⟨refuses, hkept⟩ := start_refused (t := T.start) hnext rfl amb'
  exact ⟨refuses, hkept.trans hnext.symm⟩

end

namespace Sample

/-- The record after `resumedRun`: the attempt that never started is still `DISPATCHED`. -/
def resumed : ExecutionRecord :=
  let r := { dispatched with preemptionGeneration := ⟨1⟩, state := .resumable }
  { r.install (r.nextAttempt (ambient 20) worker boot) with
    resumeGeneration := ⟨1⟩
    state := .resuming }

end Sample

end ExecutionFabric
