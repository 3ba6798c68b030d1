import ExecutionFabric.Engine.Honour

/-!
Which fields of a ticket are looked at.

A start and a completion carry the ten values that their dispatch ticket was
issued with. An accepted one should name the engine's epoch, the record and its
current attempt in all ten (`Matches`). The two validators compare them with
the record only, and neither looks at `dispatch_generation`; the dispatch
identifier is not in the record but in the attempt, where `validate_ticket`
looks it up and `validate_start` does not. What is accepted therefore matches
in every field exactly when the fields that are not looked at happen to be
those of the current attempt (`validated_iff`).
-/

namespace ExecutionFabric

open StepMachine ExecutionEngine ExecutionStateMachine

/-! ### The current attempt and its ticket -/

/-- The attempt `a` is the current one of the record: the last, and the one
that holds the authority. -/
structure ExecutionRecord.Current (r : ExecutionRecord) (a : AttemptRecord) : Prop where
  last : r.attempts.getLast? = some a
  held : r.authority.HeldBy a

theorem ExecutionRecord.Held.exists_current {r : ExecutionRecord} (h : r.Held) :
    ∃ a, r.Current a := by
  obtain ⟨i, hlast, held⟩ := h
  rw [ExecutionRecord.lineage, List.getLast?_map] at hlast
  obtain ⟨a, ha, rfl⟩ := Option.map_eq_some_iff.1 hlast
  exact ⟨a, ha, held.1, held.2, held.3, held.4, held.5, held.6⟩

namespace ExecutionRecord.Current

variable {r : ExecutionRecord} {a b : AttemptRecord}

theorem mem (h : r.Current a) : a ∈ r.attempts := List.mem_of_getLast? h.last

theorem unique (ha : r.Current a) (hb : r.Current b) : a = b :=
  Option.some.inj (ha.last.symm.trans hb.last)

end ExecutionRecord.Current

/-- The values of the ticket are those of the epoch `e`, of the record and of
its attempt `a`. -/
structure DispatchTicket.Matches (T : DispatchTicket) (e : CoordinatorEpoch) (r : ExecutionRecord)
    (a : AttemptRecord) : Prop where
  generation : T.executionGeneration = r.generation
  attempt : T.attemptId = a.id
  attemptGeneration : T.attemptGeneration = a.generation
  worker : T.workerId = a.workerId
  boot : T.workerBootId = a.workerBootId
  epoch : T.epoch = e
  dispatch : T.dispatchId = a.dispatchId
  dispatchGeneration : T.dispatchGeneration = a.dispatchGeneration
  ownership : T.ownershipGeneration = r.ownershipGeneration ∧
    T.ownershipGeneration = a.ownershipGeneration
  fence : T.fenceGeneration = r.fenceGeneration ∧ T.fenceGeneration = a.fenceGeneration

/-- The dispatch ticket a start claims to be copied from. -/
def StartTicket.claimed (t : StartTicket) : DispatchTicket where
  executionId := t.executionId
  executionGeneration := t.executionGeneration
  attemptId := t.attemptId
  attemptGeneration := t.attemptGeneration
  workerId := t.workerId
  workerBootId := t.workerBootId
  epoch := t.epoch
  dispatchId := t.dispatchId
  dispatchGeneration := t.dispatchGeneration
  ownershipGeneration := t.ownershipGeneration
  fenceGeneration := t.fenceGeneration

/-- The dispatch ticket a completion claims to be copied from. -/
def CompletionTicket.claimed (t : CompletionTicket) : DispatchTicket where
  executionId := t.executionId
  executionGeneration := t.executionGeneration
  attemptId := t.attemptId
  attemptGeneration := t.attemptGeneration
  workerId := t.workerId
  workerBootId := t.workerBootId
  epoch := t.epoch
  dispatchId := t.dispatchId
  dispatchGeneration := t.dispatchGeneration
  ownershipGeneration := t.ownershipGeneration
  fenceGeneration := t.fenceGeneration

/-- The ticket names the current attempt of its execution, in every field. -/
def ExecutionEngine.Names (s : ExecutionEngine) (T : DispatchTicket) : Prop :=
  ∃ r a, s.find T.executionId = some r ∧ r.Current a ∧ T.Matches s.epoch r a

/-! ### The fields nobody compares -/

/-- A start that passes the checks has both values that are not compared, the
identifier and the generation of the dispatch, from the current attempt. -/
def ExecutionEngine.StartPinned (s : ExecutionEngine) (t : StartTicket) : Prop :=
  ∀ r a, s.find t.executionId = some r → r.Current a →
    r.state = .dispatched ∨ r.state = .resuming → StartAuthorised s.epoch r t →
    t.dispatchId = a.dispatchId ∧ t.dispatchGeneration = a.dispatchGeneration

/-- A completion that passes the checks has the value that is not compared, the
generation of the dispatch, from the current attempt. -/
def ExecutionEngine.CompletionPinned (s : ExecutionEngine) (t : CompletionTicket) : Prop :=
  ∀ r a, s.find t.executionId = some r → r.Current a → fromTo r.state .completed = true →
    t.hasResult = true → t.resultDigest.isNil = false → CompletionAuthorised s.epoch r t →
    t.dispatchGeneration = a.dispatchGeneration

section

variable {s : ExecutionEngine} {id : ExecutionId} {r : ExecutionRecord} {a : AttemptRecord}

/-- The checks of a start leave the dispatch open, and nothing else. -/
theorem ExecutionEngine.StartAuthorised.matches_iff {t : StartTicket} (auth : StartAuthorised s.epoch r t)
    (hcurrent : r.Current a) : t.claimed.Matches s.epoch r a ↔
      t.dispatchId = a.dispatchId ∧ t.dispatchGeneration = a.dispatchGeneration := by
  have held := hcurrent.held
  refine ⟨fun h => ⟨h.dispatch, h.dispatchGeneration⟩, fun ⟨hdispatch, hgeneration⟩ => ?_⟩
  exact
    { generation := auth.generation
      attempt := Option.some.inj (auth.attempt.symm.trans held.attempt)
      attemptGeneration :=
        Option.some.inj (auth.attemptGeneration.symm.trans held.attemptGeneration)
      worker := Option.some.inj (auth.worker.symm.trans held.worker)
      boot := Option.some.inj (auth.boot.symm.trans held.boot)
      epoch := auth.epoch
      dispatch := hdispatch
      dispatchGeneration := hgeneration
      ownership := ⟨auth.ownership, auth.ownership.trans held.ownership⟩
      fence := ⟨auth.fence, auth.fence.trans held.fence⟩ }

/-- The checks of a completion leave the generation of the dispatch open. -/
theorem ExecutionEngine.CompletionAuthorised.matches_iff {t : CompletionTicket}
    (auth : CompletionAuthorised s.epoch r t) (hcurrent : r.Current a) :
    t.claimed.Matches s.epoch r a ↔ t.dispatchGeneration = a.dispatchGeneration := by
  have held := hcurrent.held
  have hattempt : t.attemptId = a.id := Option.some.inj (auth.attempt.symm.trans held.attempt)
  refine ⟨fun h => h.dispatchGeneration, fun hgeneration => ?_⟩
  exact
    { generation := auth.generation
      attempt := hattempt
      attemptGeneration :=
        Option.some.inj (auth.attemptGeneration.symm.trans held.attemptGeneration)
      worker := Option.some.inj (auth.worker.symm.trans held.worker)
      boot := Option.some.inj (auth.boot.symm.trans held.boot)
      epoch := auth.epoch
      dispatch := (auth.dispatch a hcurrent.mem hattempt.symm).symm
      dispatchGeneration := hgeneration
      ownership := ⟨auth.ownership, auth.ownership.trans held.ownership⟩
      fence := ⟨auth.fence, auth.fence.trans held.fence⟩ }

/-- What a ticket names is the record its execution has. -/
theorem ExecutionEngine.Names.matches {T : DispatchTicket} (h : s.Names T)
    (hfind : s.find T.executionId = some r) (hcurrent : r.Current a) : T.Matches s.epoch r a := by
  obtain ⟨r', a', hfind', hcurrent', hmatches⟩ := h
  obtain rfl := Option.some.inj (hfind.symm.trans hfind')
  obtain rfl := hcurrent.unique hcurrent'
  exact hmatches

end

/-- An accepted ticket matches the current attempt in all ten fields exactly
when the fields that are not compared are those of that attempt. -/
theorem validated_iff {s : ExecutionEngine} (hs : Reachable s) (amb : Ambient) :
    (∀ t, ((engine.out s ⟨.markRunning t, amb⟩).allows → s.Names t.claimed) ↔ s.StartPinned t) ∧
      ∀ t, ((engine.out s ⟨.complete t, amb⟩).allows → s.Names t.claimed) ↔
        s.CompletionPinned t := by
  constructor
  · intro t
    constructor
    · intro hnames r a hfind hcurrent hstate auth
      have hnamed := hnames (start_allows_iff.2 ⟨r, hfind, auth, hstate⟩)
      exact (auth.matches_iff hcurrent).1 (hnamed.matches hfind hcurrent)
    · intro hpinned hallow
      obtain ⟨r, hfind, auth, hstate⟩ := start_allows_iff.1 hallow
      obtain ⟨a, hcurrent⟩ := ((hs.shaped hfind).holding.held auth.attempt).exists_current
      have hdispatch := hpinned r a hfind hcurrent hstate auth
      exact ⟨r, a, hfind, hcurrent, (auth.matches_iff hcurrent).2 hdispatch⟩
  · intro t
    constructor
    · intro hnames r a hfind hcurrent hstate hresult hdigest auth
      have hnamed := hnames (complete_allows_iff.2 ⟨r, hfind, auth, hstate, hresult, hdigest⟩)
      exact (auth.matches_iff hcurrent).1 (hnamed.matches hfind hcurrent)
    · intro hpinned hallow
      obtain ⟨r, hfind, auth, hstate, hresult, hdigest⟩ := complete_allows_iff.1 hallow
      obtain ⟨a, hcurrent⟩ := ((hs.shaped hfind).holding.held auth.attempt).exists_current
      have hdispatch := hpinned r a hfind hcurrent hstate hresult hdigest auth
      exact ⟨r, a, hfind, hcurrent, (auth.matches_iff hcurrent).2 hdispatch⟩

namespace Sample

/-- The start of the first attempt, with a dispatch that never happened. -/
def misdirected : StartTicket :=
  { (ticket 10).start with dispatchId := sampleId 99, dispatchGeneration := ⟨99⟩ }

end Sample

/-- The start of the first attempt matches in every field. -/
theorem validated_sample :
    (engine.run (init ⟨1⟩) Sample.dispatching).Names (Sample.ticket 10) := by
  have hs : Reachable (engine.run (init ⟨1⟩) Sample.dispatching) :=
    reachable_run _ _
  have hfind : (engine.run (init ⟨1⟩) Sample.dispatching).find Sample.execution
      = some (Sample.readied.dispatchedTo (Sample.ambient 10) Sample.worker Sample.boot) := by
    decide +kernel
  refine ((validated_iff hs (Sample.ambient 0)).1 (Sample.ticket 10).start).2 ?_ (by decide +kernel)
  intro r a hfind' hcurrent hstate auth
  obtain rfl := Option.some.inj (hfind.symm.trans hfind')
  obtain rfl := Option.some.inj (hcurrent.last.symm.trans rfl)
  exact ⟨rfl, rfl⟩

/-- A start that names a dispatch that never happened is accepted. -/
theorem dispatch_not_validated :
    ¬∀ s, Reachable s → ∀ amb,
      (∀ t, (engine.out s ⟨.markRunning t, amb⟩).allows → s.Names t.claimed) ∧
        ∀ t, (engine.out s ⟨.complete t, amb⟩).allows → s.Names t.claimed := by
  intro hclaim
  have hs : Reachable (engine.run (init ⟨1⟩) Sample.dispatching) :=
    reachable_run _ _
  have hnames := (hclaim _ hs (Sample.ambient 0)).1 Sample.misdirected (by decide +kernel)
  obtain ⟨r, a, hfind, hcurrent, hmatches⟩ := hnames
  have hrecord : (engine.run (init ⟨1⟩) Sample.dispatching).find Sample.execution
      = some (Sample.readied.dispatchedTo (Sample.ambient 10) Sample.worker Sample.boot) := by
    decide +kernel
  obtain rfl := Option.some.inj (hrecord.symm.trans hfind)
  obtain rfl := Option.some.inj (hcurrent.last.symm.trans rfl)
  exact absurd hmatches.dispatch (by decide +kernel)

end ExecutionFabric
