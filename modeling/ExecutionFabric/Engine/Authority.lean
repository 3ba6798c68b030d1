import ExecutionFabric.Engine.Run

/-!
Who holds an execution.

The authority of a record is its execution generation, its ownership and fence
generations, and the current attempt with its owner. An attempt has an
identity, everything in it but its progress, and the identities of a record's
attempts are its lineage. `Passage` reads an effect on these two alone:
authority is kept, seeded by the activation, passed to a new attempt at the
end of the lineage, or dropped.

Two facts about every record follow. Authority is either vacant or held by
the last attempt of the lineage (`Holding`), and every attempt of the lineage
was drawn for that execution (`drawn_of_runs`).
-/

namespace ExecutionFabric

open Collections StepMachine ExecutionEngine

/-! ### Identity and progress of an attempt -/

namespace AttemptRecord

/-- The attempt as it was made, its progress left out. -/
def ident (a : AttemptRecord) : AttemptRecord := { a with state := .created, resultDigest := none }

@[simp] theorem ident_id (a : AttemptRecord) : a.ident.id = a.id := rfl

@[simp] theorem ident_dispatchId (a : AttemptRecord) : a.ident.dispatchId = a.dispatchId := rfl

theorem move_eq (a : AttemptRecord) (target : AttemptState) :
    a.move target = if AttemptStateMachine.fromTo a.state target then { a with state := target }
      else a := by
  unfold move transitionAttempt
  split <;> rfl

@[simp] theorem ident_move (a : AttemptRecord) (target : AttemptState) :
    (a.move target).ident = a.ident := by
  rw [move_eq]
  split <;> rfl

@[simp] theorem move_id (a : AttemptRecord) (target : AttemptState) :
    (a.move target).id = a.id := by
  rw [move_eq]
  split <;> rfl

end AttemptRecord

/-! ### Authority -/

structure Authority where
  generation : ExecutionGeneration
  ownership : OwnershipGeneration
  fence : FenceGeneration
  attempt : Option AttemptId
  attemptGeneration : Option AttemptGeneration
  worker : Option WorkerId
  boot : Option WorkerBootId

namespace Authority

/-- Nobody holds the execution. -/
structure Vacant (au : Authority) : Prop where
  attempt : au.attempt = none
  attemptGeneration : au.attemptGeneration = none
  worker : au.worker = none
  boot : au.boot = none

/-- The attempt `a` holds the execution. -/
structure HeldBy (au : Authority) (a : AttemptRecord) : Prop where
  attempt : au.attempt = some a.id
  attemptGeneration : au.attemptGeneration = some a.generation
  worker : au.worker = some a.workerId
  boot : au.boot = some a.workerBootId
  ownership : au.ownership = a.ownershipGeneration
  fence : au.fence = a.fenceGeneration

/-- The authority after the attempt `a` was installed. -/
def pass (au : Authority) (a : AttemptRecord) : Authority where
  generation := au.generation
  ownership := a.ownershipGeneration
  fence := a.fenceGeneration
  attempt := some a.id
  attemptGeneration := some a.generation
  worker := some a.workerId
  boot := some a.workerBootId

/-- The authority after a supersession. -/
def drop (au : Authority) : Authority where
  generation := au.generation.next
  ownership := au.ownership
  fence := au.fence
  attempt := none
  attemptGeneration := none
  worker := none
  boot := none

theorem pass_heldBy (au : Authority) (a : AttemptRecord) : (au.pass a).HeldBy a :=
  ⟨rfl, rfl, rfl, rfl, rfl, rfl⟩

theorem drop_vacant (au : Authority) : au.drop.Vacant := ⟨rfl, rfl, rfl, rfl⟩

theorem HeldBy.ident {au : Authority} {a : AttemptRecord} (h : au.HeldBy a) :
    au.HeldBy a.ident :=
  ⟨h.1, h.2, h.3, h.4, h.5, h.6⟩

end Authority

namespace ExecutionRecord

def authority (r : ExecutionRecord) : Authority where
  generation := r.generation
  ownership := r.ownershipGeneration
  fence := r.fenceGeneration
  attempt := r.currentAttemptId
  attemptGeneration := r.currentAttemptGeneration
  worker := r.ownerWorker
  boot := r.ownerWorkerBoot

/-- The identities of the attempts, oldest first. -/
def lineage (r : ExecutionRecord) : List AttemptRecord := r.attempts.map (·.ident)

theorem map_lineage {β : Type} (r : ExecutionRecord) (f : AttemptRecord → β)
    (hf : ∀ a, f a.ident = f a) : r.lineage.map f = r.attempts.map f := by
  simp [lineage, Function.comp_def, hf]

@[simp] theorem lineage_retireCurrent (r : ExecutionRecord) (target : AttemptState) :
    (r.retireCurrent target).lineage = r.lineage :=
  map_updateAll fun a _ => a.ident_move target

@[simp] theorem lineage_supersedeCurrent (r : ExecutionRecord) :
    r.supersedeCurrent.lineage = r.lineage := by
  rw [supersedeCurrent_eq]
  simp only [lineage]
  split
  · rfl
  · exact map_updateFirst fun a _ => a.ident_move _

@[simp] theorem lineage_supersedePreempted (r : ExecutionRecord) :
    r.supersedePreempted.lineage = r.lineage :=
  map_updateFirst fun a _ => a.ident_move _

@[simp] theorem lineage_loseCurrent (r : ExecutionRecord) : r.loseCurrent.lineage = r.lineage :=
  map_updateAll fun a _ => a.ident_move _

@[simp] theorem lineage_startAttempt (r : ExecutionRecord) (id : AttemptId) :
    (r.startAttempt id).lineage = r.lineage :=
  map_updateFirst fun a _ => a.ident_move _

@[simp] theorem lineage_completeAttempt (r : ExecutionRecord) (id : AttemptId)
    (digest : ResultDigest) : (r.completeAttempt id digest).lineage = r.lineage :=
  map_updateFirst fun a _ => a.ident_move .completed

@[simp] theorem lineage_install (r : ExecutionRecord) (a : AttemptRecord) :
    (r.install a).lineage = r.lineage ++ [a.ident] := by
  simp [lineage, install]

theorem authority_install (r : ExecutionRecord) (a : AttemptRecord) :
    (r.supersedeCurrent.install a).authority = r.authority.pass a := by
  simp [authority, install, supersedeCurrent_eq, Authority.pass]

theorem exists_mem_attempts {r : ExecutionRecord} {i : AttemptRecord} (h : i ∈ r.lineage) :
    ∃ a ∈ r.attempts, a.ident = i := List.mem_map.1 h

theorem ident_mem_lineage {r : ExecutionRecord} {a : AttemptRecord} (h : a ∈ r.attempts) :
    a.ident ∈ r.lineage := List.mem_map_of_mem h

end ExecutionRecord

/-- An effect, read on authority and lineage alone. -/
inductive Passage (amb : Ambient) (r r' : ExecutionRecord) (o : Outcome) : Prop
  | kept (hauth : r'.authority = r.authority) (hlineage : r'.lineage = r.lineage)
      (hticket : o.ticket = none) (hdrawn : o.drawn = none)
  | seeded (hstate : r.state = .created) (hlineage : r'.lineage = r.lineage)
      (hauth : r'.authority = { r.authority with ownership := ⟨1⟩, fence := ⟨1⟩ })
      (hticket : o.ticket = none) (hdrawn : o.drawn = none)
  | passed (worker : WorkerId) (boot : WorkerBootId)
      (hauth : r'.authority = r.authority.pass (r.nextAttempt amb worker boot))
      (hlineage : r'.lineage = r.lineage ++ [(r.nextAttempt amb worker boot).ident])
      (hdrawn : o.drawn = some ((r.nextAttempt amb worker boot).id,
        (r.nextAttempt amb worker boot).dispatchId))
  | dropped (hauth : r'.authority = r.authority.drop) (hlineage : r'.lineage = r.lineage)
      (hticket : o.ticket = none) (hdrawn : o.drawn = none)

theorem Effect.passage {e : CoordinatorEpoch} {amb : Ambient} {r r' : ExecutionRecord} {op : Op}
    {o : Outcome} (effect : Effect e amb r op o r') : Passage amb r r' o := by
  cases effect with
  | activated hrec hstate gives => exact .seeded hstate rfl rfl gives.ticket gives.drawn
  | @dispatched id worker boot o hrec hstate gives =>
      refine .passed worker boot (r.authority_install _) ?_ gives.drawn
      exact (ExecutionRecord.lineage_install _ _).trans (by simp)
  | @dispatchStuck id worker boot o hrec hstate gives =>
      exact .passed worker boot (r.authority_install _) (by simp) gives.drawn
  | started auth hstate gives =>
      exact .kept rfl (r.lineage_startAttempt _) gives.ticket gives.drawn
  | committed auth hstate hresult hdigest gives =>
      exact .kept rfl (r.lineage_completeAttempt _ _) gives.ticket gives.drawn
  | completeStuck auth hstate hlive hpre hresult hdigest gives =>
      exact .kept rfl (r.lineage_completeAttempt _ _) gives.ticket gives.drawn
  | cancelledEarly auth hstate gives => exact .kept rfl rfl gives.ticket gives.drawn
  | cancelRequested auth hstate gives => exact .kept rfl rfl gives.ticket gives.drawn
  | cancelStuck auth hstate hlive hnew hflight gives =>
      exact .kept rfl rfl gives.ticket gives.drawn
  | cancelFinalized hcur hrec hstate gives =>
      exact .kept rfl (r.lineage_retireCurrent _) gives.ticket gives.drawn
  | preemptRequested auth hstate gives => exact .kept rfl rfl gives.ticket gives.drawn
  | preemptAcknowledged hcur hrec hstate gives =>
      exact .kept rfl (r.lineage_retireCurrent _) gives.ticket gives.drawn
  | madeResumable hcur hrec hstate gives => exact .kept rfl rfl gives.ticket gives.drawn
  | @resumed id worker boot o hrec hstate gives =>
      refine .passed worker boot rfl ?_ gives.drawn
      exact (ExecutionRecord.lineage_install _ _).trans (by simp)
  | lost hcur hrec hworker hboot hstate gives =>
      exact .kept rfl r.lineage_loseCurrent gives.ticket gives.drawn
  | superseded hrec hstate gives =>
      exact .dropped rfl (r.lineage_retireCurrent _) gives.ticket gives.drawn
  | supersedeStuck hrec hstate hlive gives =>
      exact .dropped rfl (r.lineage_retireCurrent _) gives.ticket gives.drawn

/-- What an effect that draws identifiers does with them: issue a ticket for
the attempt it installs, or, in the dispatch of an execution in `RESUMING`,
leave the attempt without one. -/
inductive Drawing (e : CoordinatorEpoch) (amb : Ambient) (r r' : ExecutionRecord) (op : Op)
    (o : Outcome) : Prop
  | issued (worker : WorkerId) (boot : WorkerBootId)
      (hticket : o.ticket = some (r.ticketFor e (r.nextAttempt amb worker boot)))
      (hdrawn : o.drawn = some ((r.nextAttempt amb worker boot).id,
        (r.nextAttempt amb worker boot).dispatchId))
      (hauth : r'.authority = r.authority.pass (r.nextAttempt amb worker boot))
      (hlineage : r'.lineage = r.lineage ++ [(r.nextAttempt amb worker boot).ident])
      (hcode : (o.allows ∧ ∃ id, op = .dispatch id worker boot e) ∨
        (o.code? = some .resumeAllowed ∧ ∃ id gen, op = .resume id worker boot e gen))
  | stray (id : ExecutionId) (worker : WorkerId) (boot : WorkerBootId) (hticket : o.ticket = none)
      (hop : op = .dispatch id worker boot e) (hstate : r.state = .resuming)
      (hrec : r.coordinatorEpoch ≤ e)

theorem Effect.drawing {e : CoordinatorEpoch} {amb : Ambient} {r r' : ExecutionRecord} {op : Op}
    {o : Outcome} (effect : Effect e amb r op o r') (hdrawn : o.drawn ≠ none) :
    Drawing e amb r r' op o := by
  have hnone : ∀ {code ticket}, ¬o.Gives code ticket none := fun gives => hdrawn gives.drawn
  cases effect with
  | @dispatched id worker boot o hrec hstate gives =>
      refine .issued worker boot gives.ticket gives.drawn (r.authority_install _) ?_
        (.inl ⟨gives.code, id, rfl⟩)
      exact (ExecutionRecord.lineage_install _ _).trans (by simp)
  | @dispatchStuck id worker boot o hrec hstate gives =>
      exact .stray id worker boot gives.ticket rfl hstate hrec
  | @resumed id worker boot o hrec hstate gives =>
      refine .issued worker boot gives.ticket gives.drawn rfl ?_ (.inr ⟨gives.code, id, _, rfl⟩)
      exact (ExecutionRecord.lineage_install _ _).trans (by simp)
  -- nothing else draws
  | activated hrec hstate gives => exact absurd gives hnone
  | started auth hstate gives => exact absurd gives hnone
  | committed auth hstate hresult hdigest gives => exact absurd gives hnone
  | completeStuck auth hstate hlive hpre hresult hdigest gives => exact absurd gives hnone
  | cancelledEarly auth hstate gives => exact absurd gives hnone
  | cancelRequested auth hstate gives => exact absurd gives hnone
  | cancelStuck auth hstate hlive hnew hflight gives => exact absurd gives hnone
  | cancelFinalized hcur hrec hstate gives => exact absurd gives hnone
  | preemptRequested auth hstate gives => exact absurd gives hnone
  | preemptAcknowledged hcur hrec hstate gives => exact absurd gives hnone
  | madeResumable hcur hrec hstate gives => exact absurd gives hnone
  | lost hcur hrec hworker hboot hstate gives => exact absurd gives hnone
  | superseded hrec hstate gives => exact absurd gives hnone
  | supersedeStuck hrec hstate hlive gives => exact absurd gives hnone

/-- An effect that issues a ticket draws the identifiers in it. -/
theorem Effect.issued {e : CoordinatorEpoch} {amb : Ambient} {r r' : ExecutionRecord} {op : Op}
    {o : Outcome} {T : DispatchTicket} (effect : Effect e amb r op o r')
    (hticket : o.ticket = some T) :
    o.drawn = some (T.attemptId, T.dispatchId) ∧ T.executionId = r.id := by
  have hissued : o.ticket ≠ none := by rw [hticket]; exact nofun
  cases effect.passage with
  | kept _ _ hnone => exact absurd hnone hissued
  | seeded _ _ _ hnone => exact absurd hnone hissued
  | dropped _ _ hnone => exact absurd hnone hissued
  | passed _ _ _ _ hdrawn =>
      cases effect.drawing (by rw [hdrawn]; exact nofun) with
      | stray _ _ _ hnone => exact absurd hnone hissued
      | issued worker boot hmade hdrawn =>
          obtain rfl := Option.some.inj (hmade.symm.trans hticket)
          exact ⟨hdrawn, rfl⟩

/-! ### The last attempt holds the execution -/

namespace ExecutionRecord

/-- The last attempt of the lineage holds the record. -/
def Held (r : ExecutionRecord) : Prop :=
  ∃ a, r.lineage.getLast? = some a ∧ r.authority.HeldBy a

/-- Authority is vacant, or held by the last attempt. -/
def Holding (r : ExecutionRecord) : Prop := r.authority.Vacant ∨ r.Held

theorem Held.of_kept {r r' : ExecutionRecord} (hauth : r'.authority = r.authority)
    (hlineage : r'.lineage = r.lineage) (h : r.Held) : r'.Held := by
  obtain ⟨a, hlast, held⟩ := h
  exact ⟨a, hlineage ▸ hlast, hauth ▸ held⟩

theorem Held.of_passed {r r' : ExecutionRecord} (made : AttemptRecord)
    (hauth : r'.authority = r.authority.pass made)
    (hlineage : r'.lineage = r.lineage ++ [made.ident]) : r'.Held := by
  refine ⟨made.ident, by simp [hlineage], ?_⟩
  rw [hauth]
  exact (Authority.pass_heldBy _ _).ident

theorem Holding.held {r : ExecutionRecord} {id : AttemptId} (h : r.Holding)
    (hcurrent : r.currentAttemptId = some id) : r.Held := by
  rcases h with h | h
  · exact absurd (h.attempt.symm.trans hcurrent) (by simp)
  · exact h

/-- A held record names a current attempt. -/
theorem Held.current {r : ExecutionRecord} (h : r.Held) :
    ∃ a ∈ r.attempts, r.lineage.getLast? = some a.ident ∧ r.authority.HeldBy a := by
  obtain ⟨i, hlast, held⟩ := h
  obtain ⟨a, ha, rfl⟩ := exists_mem_attempts (List.mem_of_getLast? hlast)
  exact ⟨a, ha, hlast, held.1, held.2, held.3, held.4, held.5, held.6⟩

theorem Holding.step {amb : Ambient} {r r' : ExecutionRecord} {o : Outcome}
    (passage : Passage amb r r' o) (hcreated : r.state = .created → r.authority.Vacant)
    (h : r.Holding) : r'.Holding := by
  cases passage with
  | kept hauth hlineage =>
      rcases h with h | h
      · exact .inl (hauth ▸ h)
      · exact .inr (h.of_kept hauth hlineage)
  | seeded hstate hlineage hauth =>
      obtain ⟨h₁, h₂, h₃, h₄⟩ := hcreated hstate
      exact .inl (hauth ▸ ⟨h₁, h₂, h₃, h₄⟩)
  | passed worker boot hauth hlineage => exact .inr (.of_passed _ hauth hlineage)
  | dropped hauth => exact .inl (hauth ▸ Authority.drop_vacant _)

end ExecutionRecord

/-! ### The shape of every record -/

namespace ExecutionState

/-- The states in which somebody always holds the execution. -/
def held (st : ExecutionState) : Bool := st ∈ [dispatched, running, ambiguous, committed]

/-- The states a record is ever found in. -/
def visited (st : ExecutionState) : Bool :=
  st ∉ [completionPending, completed, failed, terminal]

end ExecutionState

/-- An attempt, read without its progress, as `dispatch` and `resume` make it. -/
structure AttemptRecord.Made (a : AttemptRecord) : Prop where
  generation : a.generation.isSet = true
  dispatchGeneration : a.dispatchGeneration.isSet = true
  ownership : a.ownershipGeneration.isSet = true
  fence : a.fenceGeneration.isSet = true
  id : a.id.isNil = false
  dispatchId : a.dispatchId.isNil = false
  payload : a.resultPayloadHex = none
  failure : a.failureReason = none

/-- The next attempt continues the count. -/
theorem ExecutionRecord.generation_nextAttempt (r : ExecutionRecord) (amb : Ambient)
    (worker : WorkerId) (boot : WorkerBootId) :
    (r.nextAttempt amb worker boot).generation
      = (r.currentAttemptGeneration.getD ⟨0⟩).next := by
  simp only [nextAttempt]
  cases r.currentAttemptGeneration <;> rfl

theorem ExecutionRecord.made_nextAttempt (r : ExecutionRecord) (amb : Ambient) (worker : WorkerId)
    (boot : WorkerBootId) : (r.nextAttempt amb worker boot).ident.Made where
  generation := by
    show (r.nextAttempt amb worker boot).generation.isSet = true
    rw [generation_nextAttempt]
    exact Gen.isSet_next _
  dispatchGeneration := rfl
  ownership := Gen.isSet_next _
  fence := Gen.isSet_next _
  id := Id.isNil_random _
  dispatchId := Id.isNil_random _
  payload := rfl
  failure := rfl

/-- What is true of every record of every run. -/
structure ExecutionRecord.Shaped (r : ExecutionRecord) : Prop where
  generation : r.generation.isSet = true
  visited : r.state.visited = true
  created : r.state = .created → r.authority.Vacant ∧ r.attempts = []
  held : r.state.held = true → r.Held
  holding : r.Holding
  made : ∀ a ∈ r.lineage, a.Made
  committed : r.state = .committed → r.committedDigest ≠ none ∧ r.commitGeneration.isSet = true
  stamped : r.createdAt.length < 64 ∧ r.committedAt.length < 64

namespace Effect

variable {e : CoordinatorEpoch} {amb : Ambient} {r r' : ExecutionRecord} {op : Op} {o : Outcome}

theorem generation (effect : Effect e amb r op o r') :
    r'.generation = r.generation ∨ r'.generation = r.generation.next := by
  have hgen : r'.authority.generation = r.authority.generation ∨
      r'.authority.generation = r.authority.generation.next := by
    cases effect.passage with
    | kept hauth => exact .inl (by rw [hauth])
    | seeded hstate hlineage hauth => exact .inl (by rw [hauth])
    | passed worker boot hauth => exact .inl (by rw [hauth]; rfl)
    | dropped hauth => exact .inr (by rw [hauth]; rfl)
  exact hgen

theorem visited (effect : Effect e amb r op o r') (h : r.state.visited = true) :
    r'.state.visited = true := by
  cases effect with
  | dispatchStuck => simpa [ExecutionRecord.install, ExecutionRecord.supersedeCurrent_eq] using h
  | completeStuck => exact h
  | cancelStuck => exact h
  | supersedeStuck => exact h
  | lost hcur hrec hworker hboot hstate gives =>
      rcases ExecutionState.lossTarget_cases hstate with ⟨_, rfl⟩ | ⟨_, rfl⟩ | ⟨_, rfl⟩ | ⟨_, rfl⟩
        <;> rfl
  | _ => rfl

/-- No effect leads back to `CREATED`. -/
theorem not_created (effect : Effect e amb r op o r') (hstate' : r'.state = .created) :
    r.state = .created ∧ r'.lineage = r.lineage ∧
      (r.authority.Vacant → r'.authority.Vacant) := by
  cases effect with
  | dispatchStuck hrec hstate gives =>
      simp [ExecutionRecord.install, ExecutionRecord.supersedeCurrent_eq, hstate] at hstate'
  | completeStuck => exact ⟨hstate', by simp, id⟩
  | cancelStuck => exact ⟨hstate', rfl, id⟩
  | lost hcur hrec hworker hboot hstate gives =>
      obtain rfl := hstate'
      rcases ExecutionState.lossTarget_cases hstate with ⟨_, h⟩ | ⟨_, h⟩ | ⟨_, h⟩ | ⟨_, h⟩
        <;> cases h
  | supersedeStuck =>
      exact ⟨hstate', r.lineage_retireCurrent _, fun _ => Authority.drop_vacant r.authority⟩
  | _ => cases hstate'

theorem held (effect : Effect e amb r op o r') (hr : r.Shaped) (hstate' : r'.state.held = true) :
    r'.Held := by
  have hkept : r.Held → r'.authority = r.authority → r'.lineage = r.lineage → r'.Held :=
    fun h hauth hlineage => h.of_kept hauth hlineage
  cases effect with
  | @dispatched id worker boot o hrec hstate gives =>
      refine .of_passed (r.nextAttempt amb worker boot) (r.authority_install _) ?_
      exact (ExecutionRecord.lineage_install _ _).trans (by simp)
  | dispatchStuck hrec hstate gives =>
      simp [ExecutionRecord.install, ExecutionRecord.supersedeCurrent_eq, hstate,
        ExecutionState.held] at hstate'
  | started auth hstate gives =>
      exact hkept (hr.holding.held auth.attempt) rfl (r.lineage_startAttempt _)
  | committed auth hstate hresult hdigest gives =>
      exact hkept (hr.holding.held auth.attempt) rfl (r.lineage_completeAttempt _ _)
  | completeStuck auth hstate hlive hpre hresult hdigest gives =>
      exact hkept (hr.holding.held auth.attempt) rfl (r.lineage_completeAttempt _ _)
  | cancelStuck => exact hkept (hr.held hstate') rfl rfl
  | lost hcur hrec hworker hboot hstate gives =>
      rcases ExecutionState.lossTarget_cases hstate with ⟨_, rfl⟩ | ⟨h, rfl⟩ | ⟨_, rfl⟩ | ⟨_, rfl⟩
      · cases hstate'
      · exact hkept (hr.held (by rw [h]; rfl)) rfl r.lineage_loseCurrent
      · cases hstate'
      · cases hstate'
  | supersedeStuck hrec hstate hlive gives =>
      -- from every state that is held, the table allows to supersede
      have hsame : r.state.held = true := hstate'
      revert hsame hstate hlive
      cases r.state <;> simp [ExecutionState.held, ExecutionStateMachine.fromTo,
        ExecutionStateMachine.isTerminal]
  | _ => cases hstate'

theorem made (effect : Effect e amb r op o r') (h : ∀ a ∈ r.lineage, a.Made) :
    ∀ a ∈ r'.lineage, a.Made := by
  have hold : r'.lineage = r.lineage → ∀ a ∈ r'.lineage, a.Made := fun hl => hl ▸ h
  cases effect.passage with
  | kept _ hlineage => exact hold hlineage
  | seeded _ hlineage => exact hold hlineage
  | dropped _ hlineage => exact hold hlineage
  | passed worker boot _ hlineage =>
      rw [hlineage]
      intro a ha
      rcases List.mem_append.1 ha with ha | ha
      · exact h a ha
      · obtain rfl := List.mem_singleton.1 ha
        exact r.made_nextAttempt amb worker boot

/-- Only a completion leads to `COMMITTED`. -/
theorem digest_of_committed (effect : Effect e amb r op o r') (hstate' : r'.state = .committed) :
    r'.committedDigest ≠ none ∧ r'.commitGeneration.isSet = true := by
  have hsame : r'.state = r.state → False := fun hstate => by
    have hlive := effect.live
    rw [← hstate, hstate'] at hlive
    cases hlive
  cases effect with
  | committed => exact ⟨nofun, Gen.isSet_next _⟩
  | dispatchStuck =>
      exact (hsame (by simp [ExecutionRecord.install, ExecutionRecord.supersedeCurrent_eq])).elim
  | completeStuck => exact (hsame rfl).elim
  | cancelStuck => exact (hsame rfl).elim
  | supersedeStuck => exact (hsame rfl).elim
  | lost hcur hrec hworker hboot hstate gives =>
      obtain rfl := hstate'
      rcases ExecutionState.lossTarget_cases hstate with ⟨_, h⟩ | ⟨_, h⟩ | ⟨_, h⟩ | ⟨_, h⟩
        <;> cases h
  | _ => cases hstate'

theorem committedAt (effect : Effect e amb r op o r') :
    r'.committedAt = r.committedAt ∨ r'.committedAt = amb.now := by
  cases effect with
  | committed => exact .inr rfl
  | dispatched => exact .inl (by simp [ExecutionRecord.install, ExecutionRecord.supersedeCurrent_eq])
  | dispatchStuck =>
      exact .inl (by simp [ExecutionRecord.install, ExecutionRecord.supersedeCurrent_eq])
  | _ => exact .inl rfl

theorem shaped (effect : Effect e amb r op o r') (h : r.Shaped) : r'.Shaped where
  generation := by
    rcases effect.generation with hg | hg <;> rw [hg]
    · exact h.generation
    · exact Gen.isSet_next _
  visited := effect.visited h.visited
  created := by
    intro hstate'
    obtain ⟨hstate, hlineage, hvacant⟩ := effect.not_created hstate'
    obtain ⟨hv, hempty⟩ := h.created hstate
    refine ⟨hvacant hv, ?_⟩
    simpa [ExecutionRecord.lineage, hempty] using hlineage
  held := effect.held h
  holding := h.holding.step effect.passage fun hstate => (h.created hstate).1
  made := effect.made h.made
  committed := effect.digest_of_committed
  stamped := by
    refine ⟨effect.frame.2.2 ▸ h.stamped.1, ?_⟩
    rcases effect.committedAt with hsame | hnow
    · exact hsame ▸ h.stamped.2
    · exact hnow ▸ amb.now.2

end Effect

theorem shaped_newRecord (amb : Ambient) (id : ExecutionId) (e : CoordinatorEpoch) :
    (newRecord amb id e).Shaped where
  generation := rfl
  visited := rfl
  created := fun _ => ⟨⟨rfl, rfl, rfl, rfl⟩, rfl⟩
  held := nofun
  holding := .inl ⟨rfl, rfl, rfl, rfl⟩
  made := by simp [ExecutionRecord.lineage, newRecord]
  committed := nofun
  stamped := ⟨amb.now.2, Nat.zero_lt_succ _⟩

theorem Reachable.shaped {s : ExecutionEngine} {id : ExecutionId} {r : ExecutionRecord}
    (hs : Reachable s) (hfind : s.find id = some r) : r.Shaped :=
  hs.record shaped_newRecord (fun effect => effect.shaped) hfind

/-! ### Attempts are drawn -/

section

open History

/-- Every attempt of a record is among the drawn ones, as one of its execution. -/
def ExecutionEngine.Drawn (drawn : List (ExecutionId × AttemptId × DispatchId))
    (s : ExecutionEngine) : Prop :=
  ∀ id r, s.find id = some r → ∀ a ∈ r.lineage, (id, a.id, a.dispatchId) ∈ drawn

/-- The attempts of a record are told apart by either of their identifiers. -/
structure ExecutionRecord.Distinct (r : ExecutionRecord) : Prop where
  ids : (r.lineage.map (·.id)).Nodup
  dispatchIds : (r.lineage.map (·.dispatchId)).Nodup

variable {G : ExecutionEngine → Call → Prop} {e₀ : CoordinatorEpoch} {h : History}
  {s : ExecutionEngine} {c : Call} {id : ExecutionId} {r : ExecutionRecord} {a : AttemptRecord}
  {drawn : List (ExecutionId × AttemptId × DispatchId)}

theorem ExecutionEngine.Drawn.next (hdrawn : s.Drawn drawn) (c : Call) :
    (engine.next s c).Drawn (drawn ++ draws [(c, engine.out s c)]) := by
  intro id r hfind a ha
  cases origin hfind with
  | idle hx => exact List.mem_append_left _ (hdrawn id r hx a ha)
  | created => cases ha
  | @acted r₁ _ hx htarget hcur effect =>
      have hkept : ∀ {a}, a ∈ r₁.lineage →
          (id, a.id, a.dispatchId) ∈ drawn ++ draws [(c, engine.out s c)] :=
        fun h => List.mem_append_left _ (hdrawn id r₁ hx _ h)
      cases effect.passage with
      | kept _ hlineage => exact hkept (hlineage ▸ ha)
      | seeded _ hlineage => exact hkept (hlineage ▸ ha)
      | dropped _ hlineage => exact hkept (hlineage ▸ ha)
      | passed worker boot _ hlineage hnew =>
          rw [hlineage] at ha
          rcases List.mem_append.1 ha with ha | ha
          · exact hkept ha
          · obtain rfl := List.mem_singleton.1 ha
            refine List.mem_append_right _ ?_
            rw [draws_one]
            simp [draw, htarget, hnew]

/-- A call whose identifiers were not drawn before keeps the attempts distinct. -/
theorem distinct_next (hdrawn : s.Drawn drawn)
    (hfresh : ∀ x, draw (c, engine.out s c) = some x →
      ∀ y ∈ drawn, y.2.1 ≠ x.2.1 ∧ y.2.2 ≠ x.2.2)
    (h : s.Every ExecutionRecord.Distinct) : (engine.next s c).Every ExecutionRecord.Distinct := by
  intro id r hfind
  cases origin hfind with
  | idle hx => exact h id r hx
  | created => exact ⟨List.nodup_nil, List.nodup_nil⟩
  | @acted r₁ _ hx htarget hcur effect =>
      obtain ⟨hids, hdispatches⟩ := h id r₁ hx
      cases effect.passage with
      | kept _ hlineage => exact ⟨hlineage ▸ hids, hlineage ▸ hdispatches⟩
      | seeded _ hlineage => exact ⟨hlineage ▸ hids, hlineage ▸ hdispatches⟩
      | dropped _ hlineage => exact ⟨hlineage ▸ hids, hlineage ▸ hdispatches⟩
      | passed worker boot _ hlineage hnew =>
          generalize r₁.nextAttempt c.ambient worker boot = made at *
          have hdraw : draw (c, engine.out s c) = some (id, made.id, made.dispatchId) := by
            simp [draw, htarget, hnew]
          have hne : ∀ a ∈ r₁.lineage, a.id ≠ made.id ∧ a.dispatchId ≠ made.dispatchId :=
            fun a ha => hfresh _ hdraw _ (hdrawn id r₁ hx a ha)
          constructor
          · rw [hlineage, List.map_append, List.nodup_append]
            refine ⟨hids, by simp, ?_⟩
            simpa using fun a ha => (hne a ha).1
          · rw [hlineage, List.map_append, List.nodup_append]
            refine ⟨hdispatches, by simp, ?_⟩
            simpa using fun a ha => (hne a ha).2

theorem drawn_init (e₀ : CoordinatorEpoch) : (init e₀).Drawn [] := fun _ _ => nofun

/-- Every attempt of a record was drawn for its execution. -/
theorem drawn_of_runs (run : Runs engine G (init e₀) h s) : s.Drawn (draws h) := by
  induction run with
  | refl => exact drawn_init e₀
  | @snoc h t run c hG ih =>
      rw [draws_append]
      exact ih.next c

/-- With fresh identifiers, the attempts of every record are distinct. -/
theorem distinct_of_runs (run : Runs engine G (init e₀) h s) (hfresh : FreshIds h) :
    s.Every ExecutionRecord.Distinct := by
  induction run with
  | refl => exact fun _ _ => nofun
  | @snoc h t run c hG ih =>
      exact distinct_next (drawn_of_runs run)
        (fun x hx y hy => hfresh.new hx hy) (ih hfresh.left)

end

end ExecutionFabric
