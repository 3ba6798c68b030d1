import ExecutionFabric.Engine.Authority
import ExecutionFabric.Engine.Enabled

/-!
Is an issued ticket honoured?

A dispatch that is allowed hands out a ticket, and the engine should accept a
start and a completion copied from it. The three validators do not agree on
which epoch counts: `dispatch` asks for one that is not stale, `validate_start`
for the engine's, and `validate_ticket` for the engine's and the record's. The
record keeps the epoch it was created under, so that the start is always
accepted (`start_honoured`) and the completion exactly when the dispatch was
made under the epoch of the record (`dispatch_honoured_iff`).
-/

namespace ExecutionFabric

open StepMachine ExecutionEngine ExecutionStateMachine

variable {s : ExecutionEngine} {c : Call} {id : ExecutionId} {r : ExecutionRecord}
  {worker : WorkerId} {boot : WorkerBootId} {e : CoordinatorEpoch}

namespace ExecutionRecord

/-- The record an allowed dispatch leaves. -/
def dispatchedTo (r : ExecutionRecord) (amb : Ambient) (worker : WorkerId) (boot : WorkerBootId) :
    ExecutionRecord :=
  { r.supersedeCurrent.install (r.nextAttempt amb worker boot) with state := .dispatched }

/-- The record an accepted start leaves. -/
def started (r : ExecutionRecord) (id : AttemptId) : ExecutionRecord :=
  { r.startAttempt id with state := .running }

@[simp] theorem lineage_dispatchedTo (r : ExecutionRecord) (amb : Ambient) (worker : WorkerId)
    (boot : WorkerBootId) : (r.dispatchedTo amb worker boot).lineage
      = r.lineage ++ [(r.nextAttempt amb worker boot).ident] :=
  (lineage_install _ _).trans (by simp)

@[simp] theorem lineage_started (r : ExecutionRecord) (id : AttemptId) :
    (r.started id).lineage = r.lineage := r.lineage_startAttempt id

/-- The dispatch check of a completion, on the lineage. -/
theorem dispatch_check_iff {r : ExecutionRecord} {i : AttemptId} {d : DispatchId} :
    (∀ a ∈ r.attempts, a.id = i → a.dispatchId = d) ↔
      ∀ a ∈ r.lineage, a.id = i → a.dispatchId = d := by
  simp [lineage]

end ExecutionRecord

/-- What an allowed dispatch does. -/
theorem dispatch_allows (hop : c.op = .dispatch id worker boot e)
    (hallow : (engine.out s c).allows) (hfind : s.find id = some r) :
    r.state.dispatchable = true ∧ (engine.next s c).epoch = e ∧
      (engine.out s c).ticket = some (r.ticketFor e (r.nextAttempt c.ambient worker boot)) ∧
      (engine.next s c).find id = some (r.dispatchedTo c.ambient worker boot) := by
  obtain ⟨r₁, r', hfind₁, hfind', effect⟩ := effect_of_allows id
    (by rw [hop]; rfl) hallow (by rw [hop]; exact nofun) (by rw [hop]; exact nofun)
  obtain rfl : r = r₁ := Option.some.inj (hfind.symm.trans hfind₁)
  generalize hepoch : (engine.next s c).epoch = e' at effect
  rw [hop] at effect
  cases effect with
  | dispatched hrec hstate gives => exact ⟨hstate, rfl, gives.ticket, hfind'⟩
  | dispatchStuck hrec hstate gives => exact absurd hallow (gives.not_allows (by decide))

/-- The completion of a ticket is accepted after its start, and commits. -/
structure Honoured (s : ExecutionEngine) (id : ExecutionId) (T : DispatchTicket) : Prop where
  start : ∀ amb, (engine.out s ⟨.markRunning T.start, amb⟩).allows
  complete : ∀ amb amb' digest, digest.isNil = false →
    (engine.out (engine.next s ⟨.markRunning T.start, amb⟩)
      ⟨.complete (T.completion digest), amb'⟩).allows
  commits : ∀ amb amb' digest, digest.isNil = false → ∃ r,
    (engine.next (engine.next s ⟨.markRunning T.start, amb⟩)
      ⟨.complete (T.completion digest), amb'⟩).find id = some r ∧
    r.state = .committed ∧ r.committedDigest = some digest

section

variable {amb : Ambient}

theorem start_authorised : StartAuthorised e (r.dispatchedTo amb worker boot)
    (r.ticketFor e (r.nextAttempt amb worker boot)).start where
  epoch := rfl
  generation := by
    simp [DispatchTicket.start, ExecutionRecord.ticketFor, ExecutionRecord.dispatchedTo,
      ExecutionRecord.install, ExecutionRecord.supersedeCurrent_eq]
  attempt := rfl
  attemptGeneration := rfl
  worker := rfl
  boot := rfl
  ownership := rfl
  fence := rfl

/-- The completion checks that remain once a ticket is the current one. -/
theorem completion_authorised_iff (e : CoordinatorEpoch) (amb : Ambient) (hshaped : r.Shaped)
    (hid : r.id.isNil = false) (hworker : worker.isNil = false) (hboot : boot.isNil = false)
    (digest : ResultDigest) :
    let made := r.nextAttempt amb worker boot
    CompletionAuthorised e ((r.dispatchedTo amb worker boot).started made.id)
        ((r.ticketFor e made).completion digest) ↔
      e = r.coordinatorEpoch ∧ ∀ a ∈ r.attempts, a.id = made.id → a.dispatchId = made.dispatchId := by
  intro made
  have hmade : made.ident.Made := r.made_nextAttempt amb worker boot
  have hsame : ((r.dispatchedTo amb worker boot).started made.id).coordinatorEpoch
      = r.coordinatorEpoch ∧
      ((r.dispatchedTo amb worker boot).started made.id).generation = r.generation := by
    simp [ExecutionRecord.started, ExecutionRecord.startAttempt, ExecutionRecord.dispatchedTo,
      ExecutionRecord.install, ExecutionRecord.supersedeCurrent_eq]
  constructor
  · intro auth
    refine ⟨auth.recordEpoch.trans hsame.1, ?_⟩
    have hcheck := ExecutionRecord.dispatch_check_iff.1 auth.dispatch
    simp only [ExecutionRecord.lineage_started, ExecutionRecord.lineage_dispatchedTo] at hcheck
    exact ExecutionRecord.dispatch_check_iff.2 fun a ha => hcheck a (List.mem_append_left _ ha)
  · rintro ⟨hepoch, hcheck⟩
    refine ⟨⟨hid, hmade.id, hworker, hboot, hmade.dispatchId⟩,
      ⟨hmade.generation, hshaped.generation, hmade.ownership, hmade.fence⟩, rfl,
      hepoch.trans hsame.1.symm, hsame.2.symm, rfl, rfl, rfl, rfl, rfl, rfl, ?_⟩
    refine ExecutionRecord.dispatch_check_iff.2 ?_
    simp only [ExecutionRecord.lineage_started, ExecutionRecord.lineage_dispatchedTo]
    intro a ha hida
    rcases List.mem_append.1 ha with ha | ha
    · exact ExecutionRecord.dispatch_check_iff.1 hcheck a ha hida
    · obtain rfl := List.mem_singleton.1 ha
      rfl

/-- A start that passes the checks on a waiting record is accepted. -/
theorem start_allows {s : ExecutionEngine} {t : StartTicket}
    (hfind : s.find t.executionId = some r) (auth : StartAuthorised s.epoch r t)
    (hstate : r.state = .dispatched ∨ r.state = .resuming) (amb : Ambient) :
    (engine.out s ⟨.markRunning t, amb⟩).allows ∧
      engine.next s ⟨.markRunning t, amb⟩ = s.store t.executionId (r.started t.attemptId) := by
  have gives := Outcome.plain_gives .allow none none
  have effect : Effect s.epoch amb r (.markRunning t) (Outcome.plain .allow none none)
      (r.started t.attemptId) := .started auth hstate gives
  have hacts : Acts s amb (.markRunning t) t.executionId _ _ :=
    effect_acts rfl hfind auth.epoch.ge effect
  exact ⟨hacts.code.trans gives.code, hacts.next⟩

/-- The start of a ticket just issued is accepted, whatever the epochs. -/
theorem start_honoured {s₁ : ExecutionEngine} (hkey : r.id = id) (hepoch : s₁.epoch = e)
    (hfind : s₁.find id = some (r.dispatchedTo amb worker boot)) (amb' : Ambient) :
    let t := (r.ticketFor e (r.nextAttempt amb worker boot)).start
    (engine.out s₁ ⟨.markRunning t, amb'⟩).allows ∧
      engine.next s₁ ⟨.markRunning t, amb'⟩
        = s₁.store id ((r.dispatchedTo amb worker boot).started t.attemptId) := by
  subst hkey
  exact start_allows hfind (hepoch ▸ start_authorised) (.inl rfl) amb'

end

/-- When a start is accepted. -/
theorem start_allows_iff {s : ExecutionEngine} {t : StartTicket} {amb : Ambient} :
    (engine.out s ⟨.markRunning t, amb⟩).allows ↔ ∃ r, s.find t.executionId = some r ∧
      StartAuthorised s.epoch r t ∧ (r.state = .dispatched ∨ r.state = .resuming) := by
  constructor
  · intro hallow
    obtain ⟨r, hfind, auth, hstate⟩ := markRunning_allows rfl hallow
    rw [epoch_next (c := ⟨.markRunning t, amb⟩) rfl nofun] at auth
    exact ⟨r, hfind, auth, hstate⟩
  · rintro ⟨r, hfind, auth, hstate⟩
    exact (start_allows hfind auth hstate amb).1

/-- A completion that passes the checks on a running record is accepted and commits. -/
theorem complete_commits {s : ExecutionEngine} {t : CompletionTicket}
    (hfind : s.find t.executionId = some r) (auth : CompletionAuthorised s.epoch r t)
    (hstate : fromTo r.state .completed = true) (hresult : t.hasResult = true)
    (hdigest : t.resultDigest.isNil = false) (amb : Ambient) :
    (engine.out s ⟨.complete t, amb⟩).allows ∧
      (engine.next s ⟨.complete t, amb⟩).find t.executionId = some (r.committedBy amb t) := by
  have gives := Outcome.plain_gives .allow none none
  have effect : Effect s.epoch amb r (.complete t) (Outcome.plain .allow none none)
      (r.committedBy amb t) := .committed auth hstate hresult hdigest gives
  have hacts : Acts s amb (.complete t) t.executionId _ _ :=
    effect_acts rfl hfind auth.epoch.ge effect
  refine ⟨hacts.code.trans gives.code, ?_⟩
  rw [hacts.next, find_store_self]

/-- When a completion is accepted. -/
theorem complete_allows_iff {s : ExecutionEngine} {t : CompletionTicket} {amb : Ambient} :
    (engine.out s ⟨.complete t, amb⟩).allows ↔ ∃ r, s.find t.executionId = some r ∧
      CompletionAuthorised s.epoch r t ∧ fromTo r.state .completed = true ∧ t.hasResult = true ∧
      t.resultDigest.isNil = false := by
  constructor
  · intro hallow
    obtain ⟨r, hfind, auth, hstate, hresult, hdigest, -⟩ := complete_allows rfl hallow
    rw [epoch_next (c := ⟨.complete t, amb⟩) rfl nofun] at auth
    exact ⟨r, hfind, auth, hstate, hresult, hdigest⟩
  · rintro ⟨r, hfind, auth, hstate, hresult, hdigest⟩
    exact (complete_commits hfind auth hstate hresult hdigest amb).1

/-- What keeps authority, epoch and lineage is checked as before. -/
theorem ExecutionEngine.CompletionAuthorised.of_kept {r r' : ExecutionRecord}
    {t : CompletionTicket} (auth : CompletionAuthorised e r t)
    (hauth : r'.authority = r.authority) (hepoch : r'.coordinatorEpoch = r.coordinatorEpoch)
    (hlineage : r'.lineage = r.lineage) : CompletionAuthorised e r' t where
  identified := auth.identified
  counted := auth.counted
  epoch := auth.epoch
  recordEpoch := auth.recordEpoch.trans hepoch.symm
  generation := auth.generation.trans (congrArg (·.generation) hauth).symm
  attempt := (congrArg (·.attempt) hauth).trans auth.attempt
  attemptGeneration := (congrArg (·.attemptGeneration) hauth).trans auth.attemptGeneration
  worker := (congrArg (·.worker) hauth).trans auth.worker
  boot := (congrArg (·.boot) hauth).trans auth.boot
  ownership := auth.ownership.trans (congrArg (·.ownership) hauth).symm
  fence := auth.fence.trans (congrArg (·.fence) hauth).symm
  dispatch := by
    refine ExecutionRecord.dispatch_check_iff.2 ?_
    rw [hlineage]
    exact ExecutionRecord.dispatch_check_iff.1 auth.dispatch

/-- An allowed dispatch issues a ticket that is honoured exactly when it was
made under the epoch of the record, and drew no attempt identifier that the
record has for another dispatch. -/
theorem dispatch_honoured_iff (hs : Reachable s) (hfind : s.find id = some r)
    (hid : id.isNil = false) (hworker : worker.isNil = false) (hboot : boot.isNil = false)
    (hop : c.op = .dispatch id worker boot e) (hallow : (engine.out s c).allows) :
    (∀ T, (engine.out s c).ticket = some T → Honoured (engine.next s c) id T) ↔
      e = r.coordinatorEpoch ∧
        ∀ a ∈ r.attempts, a.id = Id.random c.ambient.attemptWords →
          a.dispatchId = Id.random c.ambient.dispatchWords := by
  obtain ⟨rfl, -⟩ := hs.keyed hfind
  obtain ⟨hstate, hepoch, hticket, hnext⟩ := dispatch_allows hop hallow hfind
  let made := r.nextAttempt c.ambient worker boot
  let r₂ := (r.dispatchedTo c.ambient worker boot).started made.id
  have hauth := fun digest =>
    completion_authorised_iff e c.ambient (hs.shaped hfind) hid hworker hboot digest
  have hstart := fun amb => start_honoured rfl hepoch hnext amb
  have hfind₂ : ∀ amb, (engine.next (engine.next s c)
      ⟨.markRunning (r.ticketFor e made).start, amb⟩).find r.id = some r₂ := fun amb => by
    rw [(hstart amb).2, find_store_self]
    rfl
  constructor
  · intro hhonoured
    have hcomplete := (hhonoured _ hticket).complete c.ambient c.ambient (Sample.digest 1) rfl
    obtain ⟨r', hr', auth, -⟩ := complete_allows rfl hcomplete
    obtain rfl : r₂ = r' := Option.some.inj ((hfind₂ c.ambient).symm.trans hr')
    refine (hauth (Sample.digest 1)).1 ?_
    rwa [← auth.epoch] at auth
  · intro hcond T hT
    obtain rfl : r.ticketFor e made = T := Option.some.inj (hticket.symm.trans hT)
    have hcommits : ∀ amb amb' (digest : ResultDigest), digest.isNil = false →
        let s₂ := engine.next (engine.next s c) ⟨.markRunning (r.ticketFor e made).start, amb⟩
        let t := (r.ticketFor e made).completion digest
        (engine.out s₂ ⟨.complete t, amb'⟩).allows ∧
          (engine.next s₂ ⟨.complete t, amb'⟩).find r.id = some (r₂.committedBy amb' t) := by
      intro amb amb' digest hdigest s₂ t
      have hepoch₂ : s₂.epoch = e := (congrArg epoch (hstart amb).2).trans hepoch
      exact complete_commits (t := t) (hfind₂ amb) (hepoch₂.symm ▸ (hauth digest).2 hcond) rfl rfl
        hdigest amb'
    exact ⟨fun amb => (hstart amb).1, fun amb amb' digest hd => (hcommits amb amb' digest hd).1,
      fun amb amb' digest hd => ⟨_, (hcommits amb amb' digest hd).2, rfl, rfl⟩⟩

theorem dispatch_honoured_sample :
    Honoured (engine.next (engine.run (init ⟨1⟩) Sample.readying)
      (Sample.call (.dispatch Sample.execution Sample.worker Sample.boot ⟨1⟩) 10))
      Sample.execution (Sample.ticket 10) :=
  have hs : Reachable (engine.run (init ⟨1⟩) Sample.readying) :=
    reachable_run _ _
  have hfind : (engine.run (init ⟨1⟩) Sample.readying).find Sample.execution
      = some Sample.readied := by decide +kernel
  (dispatch_honoured_iff hs hfind (by decide +kernel) (by decide +kernel) (by decide +kernel) rfl
    (by decide +kernel)).2 ⟨rfl, by decide +kernel⟩ (Sample.ticket 10) (by decide +kernel)

/-- After a rollover, `dispatch` issues a ticket whose completion is rejected. -/
theorem dispatch_not_honoured :
    ¬∀ (s : ExecutionEngine) (id : ExecutionId) (worker : WorkerId) (boot : WorkerBootId)
      (e : CoordinatorEpoch) (amb : Ambient), Reachable s → (s.find id).isSome = true →
      id.isNil = false → worker.isNil = false → boot.isNil = false →
      (engine.out s ⟨.dispatch id worker boot e, amb⟩).allows →
      ∀ T, (engine.out s ⟨.dispatch id worker boot e, amb⟩).ticket = some T →
        Honoured (engine.next s ⟨.dispatch id worker boot e, amb⟩) id T := by
  intro hclaim
  have hs : Reachable (engine.run (init ⟨1⟩)
      (Sample.readying ++ [Sample.call (.raiseEpoch ⟨2⟩)])) :=
    reachable_run _ _
  have honoured := hclaim _ Sample.execution Sample.worker Sample.boot ⟨2⟩ (Sample.ambient 10) hs
    (by decide +kernel) (by decide +kernel) (by decide +kernel) (by decide +kernel)
    (by decide +kernel) (Sample.ticket 10 2) (by decide +kernel)
  exact absurd (honoured.complete (Sample.ambient 0) (Sample.ambient 0) (Sample.digest 7) rfl)
    (by decide +kernel)

end ExecutionFabric
