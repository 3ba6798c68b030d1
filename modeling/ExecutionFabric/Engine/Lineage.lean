import ExecutionFabric.Engine.Attempts

/-!
The generations along the attempts of a record.

An attempt is installed with the next ownership, the next fence and the next
attempt generation. The first two counters stay with the record whatever
happens to the attempt; as long as they are not saturated, they ascend along
the attempts (`Counted`), and with fresh identifiers the current attempt is the
last one and agrees with the record (`authority_represented`).

The attempt generation is counted from the current attempt. A supersession
that is then rejected has already dropped it, and where the execution can still
be resumed, or dispatched while it resumes, the count starts again at 1
(`generations_repeat`). Every other run ascends (`generations_ascend_iff`).
-/

namespace ExecutionFabric

open Collections StepMachine ExecutionEngine History

/-! ### Calls that install -/

/-- The calls that may install an attempt. -/
def Op.installs : Op → Bool
  | .dispatch .. | .resume .. => true
  | _ => false

/-- How many calls of the history may have installed an attempt. -/
def History.installs (h : History) : ℕ := h.countP (·.1.op.installs)

theorem installs_append (h k : History) : installs (h ++ k) = installs h + installs k :=
  List.countP_append

theorem installs_one (c : Call) (o : Outcome) :
    installs [(c, o)] = if c.op.installs then 1 else 0 := List.countP_singleton

section

variable {e : CoordinatorEpoch} {amb : Ambient} {r r' : ExecutionRecord} {op : Op} {o : Outcome}

theorem Effect.installs (effect : Effect e amb r op o r') (hdrawn : o.drawn ≠ none) :
    op.installs = true := by
  cases effect.drawing hdrawn with
  | issued worker boot _ _ _ _ hcode => rcases hcode with ⟨_, id, rfl⟩ | ⟨_, id, gen, rfl⟩ <;> rfl
  | stray id worker boot _ hop => rw [hop]; rfl

/-! ### Ownership and fence -/

/-- The counters of the record after at most `n` installations. Both start at 1
when the execution is activated. -/
structure ExecutionRecord.Counted (n : ℕ) (r : ExecutionRecord) : Prop where
  ownership : Gen.Counts (n + 1) r.ownershipGeneration (r.lineage.map (·.ownershipGeneration))
  fence : Gen.Counts (n + 1) r.fenceGeneration (r.lineage.map (·.fenceGeneration))
  created : r.state = .created → r.ownershipGeneration = ⟨0⟩ ∧ r.fenceGeneration = ⟨0⟩

theorem counted_newRecord (amb : Ambient) (id : ExecutionId) (e : CoordinatorEpoch) (n : ℕ) :
    (newRecord amb id e).Counted n :=
  ⟨.nil (Nat.zero_le _), .nil (Nat.zero_le _), fun _ => ⟨rfl, rfl⟩⟩

/-- An execution that is `CREATED` has not been seeded. -/
theorem Effect.unseeded (effect : Effect e amb r op o r') (hstate' : r'.state = .created) :
    r.state = .created ∧ r'.ownershipGeneration = r.ownershipGeneration ∧
      r'.fenceGeneration = r.fenceGeneration := by
  cases effect with
  | dispatchStuck hrec hstate gives =>
      simp [ExecutionRecord.install, ExecutionRecord.supersedeCurrent_eq, hstate] at hstate'
  | completeStuck => exact ⟨hstate', rfl, rfl⟩
  | cancelStuck => exact ⟨hstate', rfl, rfl⟩
  | lost hcur hrec hworker hboot hstate gives =>
      obtain rfl := hstate'
      rcases ExecutionState.lossTarget_cases hstate with ⟨_, h⟩ | ⟨_, h⟩ | ⟨_, h⟩ | ⟨_, h⟩
        <;> cases h
  | supersedeStuck => exact ⟨hstate', rfl, rfl⟩
  | _ => cases hstate'

theorem Effect.counted {n m : ℕ} (effect : Effect e amb r op o r') (hr : r.Shaped)
    (hm : m = n + if op.installs then 1 else 0) (hfew : m < 2 ^ 64 - 2) (h : r.Counted n) :
    r'.Counted m := by
  have hle : n ≤ m := by omega
  have hcreated : r'.state = .created →
      r'.ownershipGeneration = ⟨0⟩ ∧ r'.fenceGeneration = ⟨0⟩ := fun hstate' => by
    obtain ⟨hstate, howner, hfence⟩ := effect.unseeded hstate'
    rw [howner, hfence]
    exact h.created hstate
  have hsame : r'.ownershipGeneration = r.ownershipGeneration →
      r'.fenceGeneration = r.fenceGeneration → r'.lineage = r.lineage → r'.Counted m := by
    intro howner hfence hlineage
    refine ⟨?_, ?_, hcreated⟩
    · rw [howner, hlineage]
      exact h.ownership.mono (by omega)
    · rw [hfence, hlineage]
      exact h.fence.mono (by omega)
  cases effect.passage with
  | kept hauth hlineage =>
      exact hsame (congrArg Authority.ownership hauth) (congrArg Authority.fence hauth) hlineage
  | dropped hauth hlineage =>
      exact hsame (congrArg Authority.ownership hauth) (congrArg Authority.fence hauth) hlineage
  | seeded hstate hlineage hauth =>
      have howner : r'.ownershipGeneration = ⟨1⟩ := congrArg Authority.ownership hauth
      have hfence : r'.fenceGeneration = ⟨1⟩ := congrArg Authority.fence hauth
      have hempty : r'.lineage = [] := by
        rw [hlineage, ExecutionRecord.lineage, (hr.created hstate).2]
        rfl
      refine ⟨?_, ?_, hcreated⟩
      · rw [howner, hempty]
        exact .nil (Nat.le_add_left 1 m)
      · rw [hfence, hempty]
        exact .nil (Nat.le_add_left 1 m)
  | passed worker boot hauth hlineage hdrawn =>
      obtain rfl : m = n + 1 := by
        rw [hm, effect.installs (by rw [hdrawn]; exact Option.some_ne_none _)]
        rfl
      have howner : r'.ownershipGeneration = r.ownershipGeneration.next :=
        congrArg Authority.ownership hauth
      have hfence : r'.fenceGeneration = r.fenceGeneration.next := congrArg Authority.fence hauth
      refine ⟨?_, ?_, hcreated⟩
      · rw [howner, hlineage, List.map_append]
        exact h.ownership.push (by omega)
      · rw [hfence, hlineage, List.map_append]
        exact h.fence.push (by omega)

/-- No effect moves the two counters back. -/
theorem Effect.counters_le {n : ℕ} (effect : Effect e amb r op o r') (h : r.Counted n) :
    r.ownershipGeneration ≤ r'.ownershipGeneration ∧ r.fenceGeneration ≤ r'.fenceGeneration := by
  cases effect.passage with
  | kept hauth =>
      exact ⟨(congrArg Authority.ownership hauth).ge, (congrArg Authority.fence hauth).ge⟩
  | dropped hauth =>
      exact ⟨(congrArg Authority.ownership hauth).ge, (congrArg Authority.fence hauth).ge⟩
  | seeded hstate hlineage hauth =>
      obtain ⟨howner, hfence⟩ := h.created hstate
      rw [howner, hfence]
      exact ⟨Nat.zero_le _, Nat.zero_le _⟩
  | passed worker boot hauth =>
      have howner : r'.ownershipGeneration = r.ownershipGeneration.next :=
        congrArg Authority.ownership hauth
      have hfence : r'.fenceGeneration = r.fenceGeneration.next := congrArg Authority.fence hauth
      rw [howner, hfence]
      exact ⟨Gen.le_next _, Gen.le_next _⟩

/-! ### The current attempt -/

/-- The current attempt was not superseded. -/
def ExecutionRecord.Unsuperseded (r : ExecutionRecord) : Prop :=
  ∀ a ∈ r.attempts, some a.id = r.currentAttemptId → a.state ≠ .superseded

namespace ExecutionRecord.Unsuperseded

theorem advance {target : AttemptState} (h : r.Unsuperseded)
    (hadvance : Advance r.currentAttemptId target r.attempts r'.attempts)
    (hcurrent : r'.currentAttemptId = r.currentAttemptId) (htarget : target ≠ .superseded) :
    r'.Unsuperseded := by
  intro a' ha' hid
  obtain ⟨a, ha, hsame, hstate | ⟨-, hstate⟩⟩ := hadvance a' ha'
  · rw [hstate]
    apply h a ha
    rw [← hsame, hid, hcurrent]
  · rw [hstate]
    exact htarget

theorem install {made : AttemptRecord} {as : List AttemptRecord}
    (hattempts : r'.attempts = as ++ [made]) (hcurrent : r'.currentAttemptId = some made.id)
    (hstate : made.state ≠ .superseded) (hdistinct : r'.Distinct) : r'.Unsuperseded := by
  intro a ha hid
  have hnodup := ExecutionRecord.nodup_ids hdistinct
  rw [hattempts, List.map_append, List.nodup_append] at hnodup
  rw [hattempts] at ha
  rcases List.mem_append.1 ha with ha | ha
  · -- the new identifier is not that of an older attempt
    have hne := hnodup.2.2 a.id (List.mem_map_of_mem ha) made.id (by simp)
    rw [hcurrent] at hid
    exact absurd (Option.some.inj hid) hne
  · rw [List.mem_singleton.1 ha]
    exact hstate

end ExecutionRecord.Unsuperseded

theorem Effect.unsuperseded (effect : Effect e amb r op o r') (hdistinct : r'.Distinct)
    (h : r.Unsuperseded) : r'.Unsuperseded := by
  cases effect with
  | activated => exact h
  | dispatched => exact .install rfl rfl nofun hdistinct
  | dispatchStuck => exact .install rfl rfl nofun hdistinct
  | started auth hstate gives =>
      exact h.advance (ExecutionRecord.advance_startAttempt auth.attempt) rfl nofun
  | committed auth hstate hresult hdigest gives =>
      exact h.advance (ExecutionRecord.advance_completeAttempt auth.attempt _) rfl nofun
  | completeStuck auth hstate hlive hpre hresult hdigest gives =>
      exact h.advance (ExecutionRecord.advance_completeAttempt auth.attempt _) rfl nofun
  | cancelledEarly => exact h
  | cancelRequested => exact h
  | cancelStuck => exact h
  | cancelFinalized => exact h.advance (r.advance_retireCurrent .cancelled) rfl nofun
  | preemptRequested => exact h
  | preemptAcknowledged => exact h.advance (r.advance_retireCurrent .preempted) rfl nofun
  | madeResumable => exact h
  | resumed => exact .install rfl rfl nofun hdistinct
  | lost => exact h.advance r.advance_loseCurrent rfl nofun
  | superseded => exact fun _ _ hnone => absurd hnone nofun
  | supersedeStuck => exact fun _ _ hnone => absurd hnone nofun

/-- The attempts of a record represent its authority: they are told apart by
both identifiers, the two counters ascend along them, and the current attempt
is the last, not superseded, and agrees with the record. -/
structure ExecutionRecord.Represented (r : ExecutionRecord) : Prop where
  ids : (r.attempts.map (·.id)).Nodup
  dispatchIds : (r.attempts.map (·.dispatchId)).Nodup
  ownership : r.attempts.Pairwise fun a b => a.ownershipGeneration < b.ownershipGeneration
  fence : r.attempts.Pairwise fun a b => a.fenceGeneration < b.fenceGeneration
  current : ∀ id, r.currentAttemptId = some id → ∃ a, r.attempts.getLast? = some a ∧ a.id = id ∧
    a.state ≠ .superseded ∧ r.authority.HeldBy a

theorem ExecutionRecord.Counted.represented {n : ℕ} (h : r.Counted n) (hr : r.Shaped)
    (hdistinct : r.Distinct) (hcurrent : r.Unsuperseded) : r.Represented where
  ids := ExecutionRecord.nodup_ids hdistinct
  dispatchIds := by
    rw [← r.map_lineage (·.dispatchId) fun _ => rfl]
    exact hdistinct.dispatchIds
  ownership := by
    have hascending := h.ownership.ascending
    rw [r.map_lineage (·.ownershipGeneration) fun _ => rfl, List.pairwise_map] at hascending
    exact hascending
  fence := by
    have hascending := h.fence.ascending
    rw [r.map_lineage (·.fenceGeneration) fun _ => rfl, List.pairwise_map] at hascending
    exact hascending
  current := by
    intro id hid
    obtain ⟨i, hlast, held⟩ := hr.holding.held hid
    rw [ExecutionRecord.lineage, List.getLast?_map] at hlast
    obtain ⟨a, ha, rfl⟩ := Option.map_eq_some_iff.1 hlast
    have hattempt : some a.id = r.currentAttemptId := held.attempt.symm
    refine ⟨a, ha, ?_, hcurrent a (List.mem_of_getLast? ha) hattempt, ?_⟩
    · rw [hid] at hattempt
      exact Option.some.inj hattempt
    · exact ⟨held.1, held.2, held.3, held.4, held.5, held.6⟩

end

/-! ### Runs -/

section

variable {G : ExecutionEngine → Call → Prop} {e₀ : CoordinatorEpoch} {h : History}
  {s : ExecutionEngine} {c : Call} {id : ExecutionId} {r : ExecutionRecord} {n m : ℕ}

theorem ExecutionRecord.Counted.mono (h : r.Counted n) (hnm : n ≤ m) : r.Counted m :=
  ⟨h.ownership.mono (by omega), h.fence.mono (by omega), h.created⟩

theorem counted_next (hshaped : s.Every (·.Shaped))
    (hm : m = n + if c.op.installs then 1 else 0) (hfew : m < 2 ^ 64 - 2)
    (h : s.Every (·.Counted n)) : (engine.next s c).Every (·.Counted m) := by
  intro id r' hr'
  cases origin hr' with
  | idle hx => exact (h id r' hx).mono (by omega)
  | created => exact counted_newRecord _ _ _ m
  | acted hx _ _ effect => exact effect.counted (hshaped id _ hx) hm hfew (h id _ hx)

theorem counted_of_runs (run : Runs engine G (init e₀) h s) (hfew : installs h < 2 ^ 64 - 2) :
    s.Every (·.Counted (installs h)) := by
  induction run with
  | refl => exact fun _ _ => nofun
  | @snoc h t run c hG ih =>
      rw [installs_append, installs_one] at hfew ⊢
      have hshaped : t.Every (·.Shaped) := fun id r hfind => (reachable_of_runs run).shaped hfind
      exact counted_next hshaped rfl hfew (ih (by omega))

theorem unsuperseded_of_runs (run : Runs engine G (init e₀) h s) (hfresh : FreshIds h) :
    s.Every ExecutionRecord.Unsuperseded := by
  induction run with
  | refl => exact fun _ _ => nofun
  | @snoc h t run c hG ih =>
      have hdistinct := distinct_of_runs (run.snoc c hG) hfresh
      intro id r' hr'
      cases origin hr' with
      | idle hx => exact ih hfresh.left id r' hx
      | created => exact fun a ha => by cases ha
      | acted hx _ _ effect =>
          exact effect.unsuperseded (hdistinct id r' hr') (ih hfresh.left id _ hx)

/-- Attempts and authority agree in every record of every run, and no step
takes the ownership or the fence of a record back. -/
theorem authority_represented (run : Runs engine Always (init e₀) h s) (hfresh : FreshIds h)
    (hfew : installs h < 2 ^ 64 - 2) (hfind : s.find id = some r) :
    r.Represented ∧ ∀ c, ∃ r', (engine.next s c).find id = some r' ∧
      r.ownershipGeneration ≤ r'.ownershipGeneration ∧ r.fenceGeneration ≤ r'.fenceGeneration := by
  have hcounted := counted_of_runs run hfew id r hfind
  have hcurrent := unsuperseded_of_runs run hfresh id r hfind
  have hshaped := (reachable_of_runs run).shaped hfind
  refine ⟨hcounted.represented hshaped (distinct_of_runs run hfresh id r hfind) hcurrent, ?_⟩
  intro c
  have hview := step_view s c id
  rw [hfind] at hview
  generalize (engine.next s c).find id = y at hview
  cases hview with
  | idle => exact ⟨r, rfl, le_rfl, le_rfl⟩
  | acted _ _ effect => exact ⟨_, rfl, effect.counters_le hcounted⟩

/-- Two dispatches, the second of which supersedes the first. -/
theorem authority_represented_sample :
    ∃ r, (engine.run (init ⟨1⟩) (Sample.dispatching ++ [Sample.redispatching])).find
        Sample.execution = some r ∧ r.attempts.length = 2 ∧ r.Represented := by
  have hsome : ((engine.run (init ⟨1⟩) (Sample.dispatching ++ [Sample.redispatching])).find
      Sample.execution).map (·.attempts.length) = some 2 := by decide +kernel
  obtain ⟨r, hfind, htwo⟩ := Option.map_eq_some_iff.1 hsome
  have run := runs_always engine (init ⟨1⟩) (Sample.dispatching ++ [Sample.redispatching])
  have hrepresented := authority_represented run (by decide +kernel) (by decide +kernel) hfind
  exact ⟨r, hfind, htwo, hrepresented.1⟩

end

/-! ### Attempt generations -/

/-- The calls that install an attempt on an execution whose count of attempts
was dropped by a rejected supersession. -/
inductive ExecutionEngine.Restarts (s : ExecutionEngine) : Op → Prop
  | dispatch {id : ExecutionId} {worker : WorkerId} {boot : WorkerBootId} {e : CoordinatorEpoch}
      {r : ExecutionRecord} (hfind : s.find id = some r) (hcur : s.epoch ≤ e)
      (hrec : r.coordinatorEpoch ≤ e) (hstate : r.state = .resuming)
      (hdropped : r.currentAttemptGeneration = none) : Restarts s (.dispatch id worker boot e)
  | resume {id : ExecutionId} {worker : WorkerId} {boot : WorkerBootId} {r : ExecutionRecord}
      (hfind : s.find id = some r) (hrec : r.coordinatorEpoch = s.epoch)
      (hstate : r.state = .resumable) (hdropped : r.currentAttemptGeneration = none) :
      Restarts s (.resume id worker boot s.epoch r.resumeGeneration.next)

/-- The guard: the call does not start a count again. -/
def KeepsCount (s : ExecutionEngine) (c : Call) : Prop := ¬s.Restarts c.op

/-- The states only an execution that was dispatched comes to, apart from those
in which its attempt holds it. -/
def ExecutionState.suspended (st : ExecutionState) : Bool :=
  st ∈ [preemptionRequested, preempted, resumable, resuming]

namespace ExecutionRecord

/-- The generations ascend along the attempts. -/
def Ascends (r : ExecutionRecord) : Prop :=
  r.attempts.Pairwise fun a b => a.generation < b.generation

/-- The count of attempts after at most `n` installations: while there is a
current attempt, the next one continues it. -/
structure Ranked (n : ℕ) (r : ExecutionRecord) : Prop where
  ascends : (r.lineage.map (·.generation)).Pairwise (· < ·)
  counted : ∀ g, r.currentAttemptGeneration = some g →
    Gen.Counts n g (r.lineage.map (·.generation))
  ready : r.state = .ready → r.currentAttemptGeneration = none → r.lineage = []
  begun : r.state.suspended = true → r.lineage ≠ []

variable {n m : ℕ} {r : ExecutionRecord}

theorem Ranked.toAscends (h : r.Ranked n) : r.Ascends := by
  have hascends := h.ascends
  rw [r.map_lineage (·.generation) fun _ => rfl, List.pairwise_map] at hascends
  exact hascends

theorem Ranked.mono (h : r.Ranked n) (hnm : n ≤ m) : r.Ranked m :=
  ⟨h.ascends, fun g hg => (h.counted g hg).mono hnm, h.ready, h.begun⟩

theorem ranked_newRecord (amb : Ambient) (id : ExecutionId) (e : CoordinatorEpoch) (n : ℕ) :
    (newRecord amb id e).Ranked n :=
  ⟨.nil, nofun, nofun, nofun⟩

theorem Held.lineage_ne (h : r.Held) : r.lineage ≠ [] := by
  obtain ⟨a, hlast, -⟩ := h
  intro hnil
  rw [hnil] at hlast
  cases hlast

theorem Held.generation_ne (h : r.Held) : r.currentAttemptGeneration ≠ none := by
  obtain ⟨a, -, held⟩ := h
  have hgeneration : r.currentAttemptGeneration = some a.generation := held.attemptGeneration
  rw [hgeneration]
  exact nofun

end ExecutionRecord

section

variable {e : CoordinatorEpoch} {amb : Ambient} {r r' : ExecutionRecord} {op : Op} {o : Outcome}
  {n m : ℕ}

theorem Effect.ready (effect : Effect e amb r op o r') (hr : r.Shaped) (h : r.Ranked n)
    (hstate' : r'.state = .ready) (hnone : r'.currentAttemptGeneration = none) :
    r'.lineage = [] := by
  cases effect with
  | activated hrec hstate gives =>
      have hempty := (hr.created hstate).2
      simp [ExecutionRecord.lineage, hempty]
  | dispatchStuck hrec hstate gives =>
      simp [ExecutionRecord.install, ExecutionRecord.supersedeCurrent_eq, hstate] at hstate'
  | completeStuck auth hstate hlive hpre hresult hdigest gives =>
      rw [r.lineage_completeAttempt]
      exact h.ready hstate' hnone
  | cancelStuck hauth hstate hlive hnew hflight gives => exact h.ready hstate' hnone
  | lost hcur hrec hworker hboot hstate gives =>
      obtain rfl := hstate'
      rcases ExecutionState.lossTarget_cases hstate with ⟨hst, _⟩ | ⟨_, h⟩ | ⟨_, h⟩ | ⟨_, h⟩
      · have hheld := hr.held (by rw [hst]; rfl)
        exact absurd hnone hheld.generation_ne
      · cases h
      · cases h
      · cases h
  | supersedeStuck hrec hstate hlive gives =>
      have hready : r.state = .ready := hstate'
      rw [hready] at hstate
      cases hstate
  | _ => cases hstate'

theorem Effect.begun (effect : Effect e amb r op o r') (hr : r.Shaped) (h : r.Ranked n)
    (hstate' : r'.state.suspended = true) : r'.lineage ≠ [] := by
  cases effect with
  | @dispatchStuck id worker boot o hrec hstate gives => simp
  | completeStuck auth hstate hlive hpre hresult hdigest gives =>
      rw [r.lineage_completeAttempt]
      exact h.begun hstate'
  | cancelStuck hauth hstate hlive hnew hflight gives => exact h.begun hstate'
  | preemptRequested auth hstate gives =>
      have hheld : r.Held := hr.held (by rcases hstate with h | h <;> rw [h] <;> rfl)
      exact hheld.lineage_ne
  | preemptAcknowledged hcur hrec hstate gives =>
      have hbegun := h.begun (by rw [hstate]; rfl)
      rwa [← r.lineage_retireCurrent .preempted] at hbegun
  | madeResumable hcur hrec hstate gives => exact h.begun (by rw [hstate]; rfl)
  | @resumed id worker boot o hrec hstate gives =>
      have hlineage := (r.supersedePreempted).lineage_install (r.nextAttempt amb worker boot)
      exact fun hnil => absurd (hlineage.symm.trans hnil) (by simp)
  | lost hcur hrec hworker hboot hstate gives =>
      rcases ExecutionState.lossTarget_cases hstate with ⟨_, rfl⟩ | ⟨_, rfl⟩ | ⟨_, rfl⟩ | ⟨hst, rfl⟩
      · cases hstate'
      · cases hstate'
      · cases hstate'
      · have hbegun := h.begun (by rw [hst]; rfl)
        rwa [← r.lineage_loseCurrent] at hbegun
  | supersedeStuck hrec hstate hlive gives =>
      have hbegun := h.begun hstate'
      rwa [← r.lineage_retireCurrent .superseded] at hbegun
  | _ => cases hstate'

/-- An effect keeps the count, if the attempt it installs continues it. -/
theorem Effect.ranked (effect : Effect e amb r op o r') (hr : r.Shaped)
    (hm : m = n + if op.installs then 1 else 0) (hfew : m < 2 ^ 64 - 2)
    (hcontinues : o.drawn ≠ none → r.currentAttemptGeneration = none → r.lineage = [])
    (h : r.Ranked n) : r'.Ranked m := by
  have hready := effect.ready hr h
  have hbegun := effect.begun hr h
  have hmono := h.mono (show n ≤ m by omega)
  have hsame : r'.currentAttemptGeneration = r.currentAttemptGeneration →
      r'.lineage = r.lineage → r'.Ranked m := by
    intro hgeneration hlineage
    refine ⟨?_, ?_, hready, hbegun⟩
    · rw [hlineage]
      exact h.ascends
    · rw [hgeneration, hlineage]
      exact hmono.counted
  cases effect.passage with
  | kept hauth hlineage => exact hsame (congrArg Authority.attemptGeneration hauth) hlineage
  | seeded hstate hlineage hauth =>
      exact hsame (congrArg Authority.attemptGeneration hauth) hlineage
  | dropped hauth hlineage =>
      -- without a current attempt there is no count to continue
      have hnone : r'.currentAttemptGeneration = none := congrArg Authority.attemptGeneration hauth
      refine ⟨?_, ?_, hready, hbegun⟩
      · rw [hlineage]
        exact h.ascends
      · rw [hnone]
        exact fun g h => by cases h
  | passed worker boot hauth hlineage hdrawn =>
      have hsome : o.drawn ≠ none := by rw [hdrawn]; exact Option.some_ne_none _
      obtain rfl : m = n + 1 := by rw [hm, effect.installs hsome]; rfl
      have hgeneration : r'.currentAttemptGeneration
          = some (r.currentAttemptGeneration.getD ⟨0⟩).next := by
        rw [← r.generation_nextAttempt amb worker boot]
        exact congrArg Authority.attemptGeneration hauth
      have hcounts : Gen.Counts n (r.currentAttemptGeneration.getD ⟨0⟩)
          (r.lineage.map (·.generation)) := by
        cases hcurrent : r.currentAttemptGeneration with
        | some g => exact h.counted g hcurrent
        | none =>
            rw [hcontinues hsome hcurrent]
            exact .nil (Nat.zero_le n)
      have hpushed := hcounts.push (by omega)
      have hgenerations : r'.lineage.map (·.generation) = r.lineage.map (·.generation)
          ++ [(r.currentAttemptGeneration.getD ⟨0⟩).next] := by
        rw [hlineage, List.map_append, ← r.generation_nextAttempt amb worker boot]
        rfl
      refine ⟨?_, ?_, hready, hbegun⟩
      · rw [hgenerations]
        exact hpushed.ascending
      · intro g hg
        rw [hgenerations]
        obtain rfl := Option.some.inj (hgeneration.symm.trans hg)
        exact hpushed

/-- An attempt that is installed without a current one is the first, or the
count starts again. -/
theorem Effect.continues_or {s : ExecutionEngine} {id : ExecutionId}
    (effect : Effect (engine.next s ⟨op, amb⟩).epoch amb r op o r') (hfind : s.find id = some r)
    (htarget : op.target = some id) (hcur : s.epoch ≤ op.epoch) (hr : r.Shaped) (h : r.Ranked n)
    (hdrawn : o.drawn ≠ none) (hnone : r.currentAttemptGeneration = none) :
    r.lineage = [] ∨ s.Restarts op := by
  generalize he : (engine.next s ⟨op, amb⟩).epoch = e at effect
  cases effect with
  | @dispatched k worker boot o hrec hstate gives =>
      have hheld : r.state.held = true → r.lineage = [] := fun hst =>
        absurd hnone (hr.held hst).generation_ne
      -- of the states a dispatch is allowed from, only `READY` has no current attempt
      left
      cases hst : r.state <;> simp only [hst, ExecutionState.dispatchable] at hstate
      case ready => exact h.ready hst hnone
      case dispatched => exact hheld (by rw [hst]; rfl)
      case running => exact hheld (by rw [hst]; rfl)
      case ambiguous => exact hheld (by rw [hst]; rfl)
      all_goals cases hstate
  | @dispatchStuck k worker boot o hrec hstate gives =>
      obtain rfl : k = id := Option.some.inj htarget
      exact .inr (.dispatch hfind hcur hrec hstate hnone)
  | @resumed k worker boot o hrec hstate gives =>
      obtain rfl : k = id := Option.some.inj htarget
      obtain rfl : s.epoch = e := (epoch_next rfl fun _ h => by cases h).symm.trans he
      exact .inr (.resume hfind hrec hstate hnone)
  | _ =>
      rename_i gives
      exact absurd gives.drawn hdrawn

/-- An attempt with generation 1 after others. -/
theorem Effect.not_ascends (effect : Effect e amb r op o r') (hr : r.Shaped)
    (hbegun : r.lineage ≠ []) (hdrawn : o.drawn ≠ none)
    (hnone : r.currentAttemptGeneration = none) : ¬r'.Ascends := by
  intro hascends
  have hpairwise : (r'.lineage.map (·.generation)).Pairwise (· < ·) := by
    rw [r'.map_lineage (·.generation) fun _ => rfl, List.pairwise_map]
    exact hascends
  cases effect.passage with
  | kept _ _ _ hundrawn => exact hdrawn hundrawn
  | seeded _ _ _ _ hundrawn => exact hdrawn hundrawn
  | dropped _ _ _ hundrawn => exact hdrawn hundrawn
  | passed worker boot hauth hlineage =>
      -- the attempt `a` came before, with a generation that was set
      obtain ⟨a, ha⟩ := List.exists_mem_of_ne_nil _ hbegun
      rw [hlineage, List.map_append, List.pairwise_append] at hpairwise
      have hlt : a.generation < (r.nextAttempt amb worker boot).ident.generation :=
        hpairwise.2.2 _ (List.mem_map_of_mem ha) _ (List.mem_singleton.2 rfl)
      have hone : (r.nextAttempt amb worker boot).ident.generation = ⟨1⟩ := by
        refine (r.generation_nextAttempt amb worker boot).trans ?_
        rw [hnone]
        rfl
      rw [hone, Gen.lt_iff] at hlt
      have hset := Gen.isSet_iff.1 (hr.made a ha).generation
      have hvalue : (⟨1⟩ : AttemptGeneration).value.toNat = 1 := rfl
      omega

end

section

variable {e₀ : CoordinatorEpoch} {h : History} {s : ExecutionEngine} {c : Call} {n m : ℕ}

theorem ranked_next (hshaped : s.Every (·.Shaped)) (hG : KeepsCount s c)
    (hm : m = n + if c.op.installs then 1 else 0) (hfew : m < 2 ^ 64 - 2)
    (h : s.Every (·.Ranked n)) : (engine.next s c).Every (·.Ranked m) := by
  intro id r' hr'
  cases origin hr' with
  | idle hx => exact (h id r' hx).mono (by omega)
  | created => exact ExecutionRecord.ranked_newRecord _ _ _ m
  | @acted r _ hx htarget hcur effect =>
      apply effect.ranked (hshaped id r hx) hm hfew _ (h id r hx)
      intro hdrawn hnone
      exact (effect.continues_or hx htarget hcur (hshaped id r hx) (h id r hx) hdrawn
        hnone).resolve_right hG

theorem ranked_of_runs (run : Runs engine KeepsCount (init e₀) h s)
    (hfew : installs h < 2 ^ 64 - 2) : s.Every (·.Ranked (installs h)) := by
  induction run with
  | refl => exact fun _ _ => nofun
  | @snoc h t run c hG ih =>
      rw [installs_append, installs_one] at hfew ⊢
      have hshaped : t.Every (·.Shaped) := fun id r hfind => (reachable_of_runs run).shaped hfind
      exact ranked_next hshaped hG rfl hfew (ih (by omega))

/-- A restarted count is seen at once. -/
theorem Restarts.not_ascends (hrestarts : s.Restarts c.op) (hshaped : s.Every (·.Shaped))
    (h : s.Every (·.Ranked n)) : ¬(engine.next s c).Every ExecutionRecord.Ascends := by
  obtain ⟨op, amb⟩ := c
  intro hall
  cases hrestarts with
  | @dispatch id worker boot e r hfind hcur hrec hstate hdropped =>
      have effect : Effect e amb r (.dispatch id worker boot e)
          (Outcome.plain .rejectAlreadyTerminal none (some _)) _ :=
        .dispatchStuck hrec hstate (Outcome.plain_gives _ _ _)
      have hacts := dispatch_acts hfind hcur effect
      exact effect.not_ascends (hshaped id r hfind) ((h id r hfind).begun (by rw [hstate]; rfl))
        nofun hdropped (hall id _ hacts.find)
  | @resume id worker boot r hfind hrec hstate hdropped =>
      have effect : Effect s.epoch amb r
          (.resume id worker boot s.epoch r.resumeGeneration.next)
          (Outcome.plain .resumeAllowed (some _) (some _)) _ :=
        .resumed hrec hstate (Outcome.plain_gives _ _ _)
      have hacts := resume_acts hfind effect
      exact effect.not_ascends (hshaped id r hfind) ((h id r hfind).begun (by rw [hstate]; rfl))
        nofun hdropped (hall id _ hacts.find)

/-- Attempt generations ascend in all records, throughout a run, exactly when
no call of the run restarts a count. -/
theorem generations_ascend_iff {calls : List Call}
    (hfew : installs (engine.trace (init e₀) calls) < 2 ^ 64 - 2) :
    (∀ cs, cs <+: calls → (engine.run (init e₀) cs).Every ExecutionRecord.Ascends) ↔
      engine.Meets KeepsCount (init e₀) calls := by
  refine Machine.always_iff_meets (P := fun s : ExecutionEngine => s.Every ExecutionRecord.Ascends)
    (fun id r hfind => by cases hfind) fun cs c hinit hmeets hall => ?_
  have run := runs_trace engine (init e₀) cs hmeets
  have hfew' : installs (engine.trace (init e₀) (cs ++ [c])) < 2 ^ 64 - 2 := by
    obtain ⟨ds, rfl⟩ := hinit
    rw [Machine.trace_append, installs_append] at hfew
    omega
  have htrace : installs (engine.trace (init e₀) (cs ++ [c]))
      = installs (engine.trace (init e₀) cs) + if c.op.installs then 1 else 0 := by
    rw [Machine.trace_append, installs_append]
    exact congrArg _ (installs_one c _)
  rw [htrace] at hfew'
  have hshaped : (engine.run (init e₀) cs).Every (·.Shaped) :=
    fun id r hfind => (reachable_of_runs run).shaped hfind
  have hranked := ranked_of_runs run (by omega)
  constructor
  · exact fun hnext hrestarts => Restarts.not_ascends hrestarts hshaped hranked hnext
  · exact fun hG id r hfind => (ranked_next hshaped hG rfl hfew' hranked id r hfind).toAscends

end

theorem generations_ascend_sample :
    (engine.run (init ⟨1⟩) (Sample.dispatching ++ [Sample.redispatching])).Every
      ExecutionRecord.Ascends := by
  have hdispatch : ∀ (s : ExecutionEngine) (n : UInt64),
      (s.find Sample.execution).map (·.state) ≠ some .resuming →
        KeepsCount s
          (Sample.call (.dispatch Sample.execution Sample.worker Sample.boot ⟨1⟩) n) := by
    intro s n hstate hrestarts
    cases hrestarts with
    | dispatch hfind hcur hrec hresuming => exact hstate (by rw [hfind, ← hresuming]; rfl)
  have hmeets : engine.Meets KeepsCount (init ⟨1⟩) (Sample.dispatching ++ [Sample.redispatching]) :=
    ⟨fun h => (nomatch h), fun h => (nomatch h), hdispatch _ _ (by decide +kernel),
      hdispatch _ _ (by decide +kernel), trivial⟩
  exact (generations_ascend_iff (by decide +kernel)).2 hmeets _ List.prefix_rfl

/-- A resumable execution is superseded in vain, and resumed. -/
theorem generations_repeat :
    ¬∀ e₀ h s, Runs engine Always (init e₀) h s → installs h < 2 ^ 64 - 2 →
      ∀ id r, s.find id = some r → r.Ascends := by
  intro hclaim
  let calls := Sample.dispatching ++ Sample.preempting
    ++ [Sample.call (.supersede Sample.execution ⟨1⟩), Sample.resuming]
  have run := runs_always engine (init ⟨1⟩) calls
  have hgenerations : ((engine.run (init ⟨1⟩) calls).find Sample.execution).map
      (fun r => r.attempts.map (·.generation)) = some [⟨1⟩, ⟨1⟩] := by decide +kernel
  obtain ⟨r, hfind, hones⟩ := Option.map_eq_some_iff.1 hgenerations
  have hascends := List.pairwise_map.2
    (hclaim ⟨1⟩ _ _ run (by decide +kernel) Sample.execution r hfind)
  rw [hones] at hascends
  revert hascends
  decide

end ExecutionFabric
