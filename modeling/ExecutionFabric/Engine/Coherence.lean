import ExecutionFabric.Engine.Attempts

/-!
The two state machines in step.

An execution and its current attempt have a table of states each, and the
operations of the engine move both at once. The answer of the attempt's table
is never looked at, so the two can come apart. `Paired` lists the pairs of
states a run should pass through, and `Uncouples` the three kinds of call that
leave them: the acknowledgement of a preemption whose attempt is not running, a
completion that the execution's table and the attempt's table answer
differently, and a supersession that is refused after it dropped the attempt.

Every other effect moves a pair to a pair (`Effect.paired`), and each of the
three is visible at once (`Uncouples.incoherent`), so that the guard is exact
over runs (`coherent_iff`).
-/

namespace ExecutionFabric

open Collections StepMachine ExecutionEngine History

/-! ### The state of the current attempt -/

/-- The state after a requested move whose answer is ignored. -/
def AttemptState.advance (st target : AttemptState) : AttemptState :=
  if AttemptStateMachine.fromTo st target then target else st

namespace ExecutionRecord

/-- The state of the current attempt, if there is one. -/
def progress (r : ExecutionRecord) : Option AttemptState :=
  (r.attempts.find? fun a => some a.id == r.currentAttemptId).map (·.state)

variable {r : ExecutionRecord}

theorem progress_updateAll {p : AttemptRecord → Bool} {target : AttemptState}
    {as : List AttemptRecord} {current : Option AttemptId}
    (hp : ∀ a, some a.id = current → p a = false → a.state.advance target = a.state) :
    ((updateAll p (·.move target) as).find? fun a => some a.id == current).map (·.state) =
      ((as.find? fun a => some a.id == current).map (·.state)).map (·.advance target) := by
  rw [find?_updateAll fun a => by rw [a.move_id]]
  cases hfound : as.find? fun a => some a.id == current with
  | none => rfl
  | some a =>
      have hid : some a.id = current := by simpa using List.find?_some hfound
      by_cases hpa : p a = true
      · simp [hpa, AttemptRecord.move_state, AttemptState.advance]
      · simp [hpa, hp a hid (by simpa using hpa)]

theorem progress_retireCurrent (r : ExecutionRecord) (target : AttemptState) :
    (r.retireCurrent target).progress = r.progress.map (·.advance target) := by
  refine progress_updateAll fun a hid hp => ?_
  have hcurrent : some a.id = r.currentAttemptId := hid
  have hterminal : AttemptStateMachine.isTerminal a.state = true := by
    simpa [hcurrent] using hp
  simp [AttemptState.advance, AttemptStateMachine.fromTo_of_isTerminal hterminal]

theorem progress_loseCurrent (r : ExecutionRecord) :
    r.loseCurrent.progress = r.progress.map (·.advance .lost) := by
  refine progress_updateAll fun a hid hp => ?_
  have hcurrent : some a.id = r.currentAttemptId := hid
  simp [hcurrent] at hp

theorem progress_updateFirst {id : AttemptId} {target : AttemptState}
    {f : AttemptRecord → AttemptRecord} (hid : ∀ a, (f a).id = a.id)
    (hstate : ∀ a, (f a).state = a.state.advance target) (as : List AttemptRecord) :
    ((updateFirst (·.id == id) f as).find? fun a => some a.id == some id).map (·.state) =
      ((as.find? fun a => some a.id == some id).map (·.state)).map (·.advance target) := by
  have hsame : (fun a : AttemptRecord => some a.id == some id) = (·.id == id) := by
    funext a
    exact Option.some_beq_some
  rw [hsame, find?_updateFirst fun a => by rw [hid]]
  cases as.find? (·.id == id) with
  | none => rfl
  | some a => exact congrArg some (hstate a)

theorem progress_startAttempt {id : AttemptId} (hcurrent : r.currentAttemptId = some id) :
    (r.startAttempt id).progress = r.progress.map (·.advance .running) := by
  simp only [progress, startAttempt, hcurrent]
  exact progress_updateFirst (fun a => a.move_id _) (fun a => a.move_state _) r.attempts

theorem progress_completeAttempt {id : AttemptId} (digest : ResultDigest)
    (hcurrent : r.currentAttemptId = some id) :
    (r.completeAttempt id digest).progress = r.progress.map (·.advance .completed) := by
  simp only [progress, completeAttempt, hcurrent]
  exact @progress_updateFirst id .completed
    (fun a => { a.move .completed with resultDigest := some digest }) (fun a => a.move_id _)
    (fun a => a.move_state _) r.attempts

theorem progress_dropAuthority (r : ExecutionRecord) : r.dropAuthority.progress = none := by
  simp [progress, dropAuthority]

theorem progress_isSome (h : r.Holding) (hcurrent : r.currentAttemptId ≠ none) :
    r.progress ≠ none := by
  rcases h with vacant | ⟨a, hlast, held⟩
  · exact absurd vacant.attempt hcurrent
  · obtain ⟨b, hb, rfl⟩ := List.mem_map.1 (List.mem_of_getLast? hlast)
    intro hnone
    have hmissing := List.find?_eq_none.1 (Option.map_eq_none_iff.1 hnone) b hb
    have hcurrent : r.currentAttemptId = some b.id := held.attempt
    exact hmissing (by simp [hcurrent])

end ExecutionRecord

/-! ### Pairs of states -/

/-- The states of the current attempt that go with a state of the execution. -/
def ExecutionState.partners : ExecutionState → List (Option AttemptState)
  | created | superseded => [none]
  | ready => [none, some .lost]
  | dispatched | resuming => [some .dispatched]
  | running => [some .running]
  | cancellationRequested => [none, some .dispatched, some .running, some .lost]
  | preemptionRequested => [none, some .dispatched, some .running]
  | preempted | resumable => [some .preempted, some .lost]
  | ambiguous => [some .lost]
  | committed => [some .completed]
  | cancelled => [none, some .cancelled, some .lost]
  -- no call leads to one of these
  | completionPending | completed | failed | terminal => []

namespace ExecutionRecord

/-- What the state of an execution says about its current attempt. -/
structure Coherent (r : ExecutionRecord) : Prop where
  dispatched : r.state = .dispatched ∨ r.state = .resuming → r.progress = some .dispatched
  running : r.state = .running → r.progress = some .running
  preempted : r.state = .preempted ∨ r.state = .resumable →
    r.progress = some .preempted ∨ r.progress = some .lost
  ambiguous : r.state = .ambiguous → r.progress = some .lost
  committed : r.state = .committed → r.progress = some .completed
  cancelled : r.state = .cancelled → r.currentAttemptId ≠ none →
    r.progress = some .cancelled ∨ r.progress = some .lost

/-- The states of the execution and of its current attempt go together. -/
def Paired (r : ExecutionRecord) : Prop := r.progress ∈ r.state.partners

variable {r : ExecutionRecord}

theorem Paired.coherent (h : r.Paired) (hr : r.Holding) : r.Coherent := by
  simp only [Paired] at h
  constructor
  · rintro (hst | hst) <;> simpa [hst, ExecutionState.partners] using h
  · intro hst
    simpa [hst, ExecutionState.partners] using h
  · rintro (hst | hst) <;> simpa [hst, ExecutionState.partners] using h
  · intro hst
    simpa [hst, ExecutionState.partners] using h
  · intro hst
    simpa [hst, ExecutionState.partners] using h
  · intro hst hcurrent
    have hsome := progress_isSome hr hcurrent
    simpa [hst, ExecutionState.partners, hsome] using h

/-- A call that would leave the pairs. `e` is the epoch of the engine. -/
inductive Uncouples (e : CoordinatorEpoch) (r : ExecutionRecord) : Op → Prop
  | unstarted {id : ExecutionId} {epoch : CoordinatorEpoch} (hcur : e ≤ epoch)
      (hrec : r.coordinatorEpoch ≤ epoch) (hstate : r.state = .preemptionRequested)
      (hidle : r.progress ≠ some .running) : Uncouples e r (.acknowledgePreempt id epoch)
  | late {t : CompletionTicket} (auth : CompletionAuthorised e r t) (hresult : t.hasResult = true)
      (hdigest : t.resultDigest.isNil = false)
      (hstate : r.state = .resuming ∨ r.state = .ambiguous ∨
        r.state = .cancellationRequested ∧ r.progress = some .lost) :
      Uncouples e r (.complete t)
  | dropped {id : ExecutionId} (hrec : r.coordinatorEpoch = e)
      (hstate : r.state = .preempted ∨ r.state = .resumable ∨ r.state = .resuming) :
      Uncouples e r (.supersede id e)

end ExecutionRecord

section

variable {e : CoordinatorEpoch} {amb : Ambient} {r r' : ExecutionRecord} {op : Op} {o : Outcome}

/-- The installed attempt is the current one when the attempts are distinct. -/
theorem ExecutionRecord.Paired.install {made : AttemptRecord} {as : List AttemptRecord}
    (hdistinct : r'.Distinct) (hattempts : r'.attempts = as ++ [made])
    (hcurrent : r'.currentAttemptId = some made.id) (hmade : some made.state ∈ r'.state.partners) :
    r'.Paired := by
  have hnodup := nodup_ids hdistinct
  rw [hattempts, List.map_append, List.nodup_append] at hnodup
  have hnone : as.find? (fun a => a.id == made.id) = none := by
    refine List.find?_eq_none.2 fun a ha heq => ?_
    exact hnodup.2.2 _ (List.mem_map_of_mem ha) made.id (by simp) (by simpa using heq)
  have hprogress : r'.progress = some made.state := by
    simp [progress, hattempts, hcurrent, List.find?_append, hnone]
  simp only [Paired, hprogress]
  exact hmade

/-- A move of the current attempt, from all partners of one state to partners
of another. -/
theorem ExecutionRecord.Paired.advance (st st' : ExecutionState) (target : AttemptState)
    (h : r.Paired) (hstate : r.state = st) (hstate' : r'.state = st')
    (hprogress : r'.progress = r.progress.map (·.advance target))
    (htable : ∀ p ∈ st.partners, p.map (·.advance target) ∈ st'.partners) : r'.Paired := by
  subst hstate hstate'
  simp only [Paired, hprogress]
  exact htable _ h

/-- A change of state that leaves the attempt as it is. -/
theorem ExecutionRecord.Paired.keep (st st' : ExecutionState) (h : r.Paired)
    (hstate : r.state = st) (hstate' : r'.state = st') (hprogress : r'.progress = r.progress)
    (htable : ∀ p ∈ st.partners, p ∈ st'.partners) : r'.Paired := by
  subst hstate hstate'
  simp only [Paired, hprogress]
  exact htable _ h

/-- The attempt that a completion finds is at work, but for the late ones. -/
theorem ExecutionRecord.Paired.working (h : r.Paired) (hsome : r.progress ≠ none)
    (hstate : ExecutionStateMachine.fromTo r.state .completed = true)
    (hearly : ¬(r.state = .resuming ∨ r.state = .ambiguous ∨
      r.state = .cancellationRequested ∧ r.progress = some .lost)) :
    r.progress = some .dispatched ∨ r.progress = some .running := by
  simp only [Paired] at h
  revert h hstate hearly
  cases r.state <;> simp [ExecutionStateMachine.fromTo, ExecutionState.partners, hsome] <;> tauto

/-- Every other effect moves a pair to a pair. -/
theorem Effect.paired (effect : Effect e amb r op o r') (hr : r.Shaped) (hdistinct : r'.Distinct)
    (hkeeps : ¬r.Uncouples e op) (h : r.Paired) : r'.Paired := by
  have hsome : ∀ {id}, r.currentAttemptId = some id → r.progress ≠ none := fun hcurrent =>
    ExecutionRecord.progress_isSome hr.holding (by simp [hcurrent])
  have howned : ∀ {worker}, r.ownerWorker = some worker → r.progress ≠ none := by
    intro worker hworker
    rcases hr.holding with vacant | ⟨a, -, held⟩
    · exact absurd (vacant.worker.symm.trans hworker) nofun
    · exact hsome held.attempt
  cases effect with
  | activated hrec hstate gives => exact h.keep .created .ready hstate rfl rfl (by decide)
  | dispatched hrec hstate gives => exact .install hdistinct rfl rfl (List.mem_singleton.2 rfl)
  | dispatchStuck hrec hstate gives =>
      refine .install hdistinct rfl rfl ?_
      simp [ExecutionRecord.install, ExecutionRecord.supersedeCurrent_eq, hstate,
        ExecutionRecord.nextAttempt, ExecutionState.partners]
  | started auth hstate gives =>
      have hprogress := ExecutionRecord.progress_startAttempt auth.attempt
      rcases hstate with hstate | hstate
      · exact h.advance .dispatched .running .running hstate rfl hprogress (by decide)
      · exact h.advance .resuming .running .running hstate rfl hprogress (by decide)
  | @committed t o auth hstate hresult hdigest gives =>
      have hprogress := ExecutionRecord.progress_completeAttempt t.resultDigest auth.attempt
      have hworking := h.working (hsome auth.attempt) hstate fun hlate =>
        hkeeps (.late auth hresult hdigest hlate)
      refine List.mem_singleton.2 (hprogress.trans ?_)
      rcases hworking with hp | hp <;> rw [hp] <;> rfl
  | @completeStuck t o auth hstate hlive hpre hresult hdigest gives =>
      have hprogress := ExecutionRecord.progress_completeAttempt t.resultDigest auth.attempt
      have hearly : r.state ≠ .resuming := fun hresuming =>
        hkeeps (.late auth hresult hdigest (.inl hresuming))
      -- the attempt of what is left is `LOST` or `PREEMPTED`, and stays so
      have hor : r.state = .created ∨ r.state = .ready ∨ r.state = .resumable ∨
          r.state = .completed := by
        revert hstate hlive hpre hearly
        cases r.state <;> simp [ExecutionStateMachine.fromTo, ExecutionStateMachine.isTerminal]
      rcases hor with hst | hst | hst | hst
      · exact h.advance .created .created .completed hst hst hprogress (by decide)
      · exact h.advance .ready .ready .completed hst hst hprogress (by decide)
      · exact h.advance .resumable .resumable .completed hst hst hprogress (by decide)
      · exact h.advance .completed .completed .completed hst hst hprogress (by decide)
  | cancelledEarly auth hstate gives => exact h.keep .created .cancelled hstate rfl rfl (by decide)
  | cancelRequested auth hstate gives =>
      have hor : r.state = .ready ∨ r.state = .dispatched ∨ r.state = .running := by
        simpa [ExecutionState.cancellable] using hstate
      rcases hor with hstate | hstate | hstate
      · exact h.keep .ready .cancellationRequested hstate rfl rfl (by decide)
      · exact h.keep .dispatched .cancellationRequested hstate rfl rfl (by decide)
      · exact h.keep .running .cancellationRequested hstate rfl rfl (by decide)
  | cancelStuck auth hstate hlive hnew hflight gives => exact h
  | cancelFinalized hcur hrec hstate gives =>
      exact h.advance .cancellationRequested .cancelled .cancelled hstate rfl
        (r.progress_retireCurrent .cancelled) (by decide)
  | preemptRequested auth hstate gives =>
      rcases hstate with hstate | hstate
      · exact h.keep .dispatched .preemptionRequested hstate rfl rfl (by decide)
      · exact h.keep .running .preemptionRequested hstate rfl rfl (by decide)
  | preemptAcknowledged hcur hrec hstate gives =>
      have hrunning : r.progress = some .running := by
        by_contra hidle
        exact hkeeps (.unstarted hcur hrec hstate hidle)
      have hprogress := r.progress_retireCurrent .preempted
      rw [hrunning] at hprogress
      exact List.mem_cons.2 (.inl hprogress)
  | madeResumable hcur hrec hstate gives =>
      exact h.keep .preempted .resumable hstate rfl rfl (by decide)
  | resumed hrec hstate gives => exact .install hdistinct rfl rfl (List.mem_singleton.2 rfl)
  | @lost id worker boot epoch o target hcur hrec hworker hboot hstate gives =>
      have hprogress := r.progress_loseCurrent
      rcases ExecutionState.lossTarget_cases hstate with
        ⟨hst, rfl⟩ | ⟨hst, rfl⟩ | ⟨hst, rfl⟩ | ⟨hst, rfl⟩
      · exact h.advance .dispatched .ready .lost hst rfl hprogress (by decide)
      · exact h.advance .running .ambiguous .lost hst rfl hprogress (by decide)
      · exact h.advance .cancellationRequested .cancelled .lost hst rfl hprogress (by decide)
      · have hor : r.progress = some .dispatched ∨ r.progress = some .running := by
          have hp : r.progress ∈ r.state.partners := h
          simpa [hst, ExecutionState.partners, howned hworker] using hp
        refine List.mem_cons.2 (.inr (List.mem_singleton.2 (hprogress.trans ?_)))
        rcases hor with hp | hp <;> rw [hp] <;> rfl
  | superseded hrec hstate gives =>
      exact List.mem_singleton.2 (r.retireCurrent .superseded).progress_dropAuthority
  | supersedeStuck hrec hstate hlive gives =>
      have hnone := (r.retireCurrent .superseded).progress_dropAuthority
      have hor : r.state = .created ∨ r.state = .cancellationRequested ∨
          r.state = .preemptionRequested := by
        have hearly : ¬(r.state = .preempted ∨ r.state = .resumable ∨ r.state = .resuming) :=
          fun hst => hkeeps (hrec ▸ .dropped rfl hst)
        have hp : r.progress ∈ r.state.partners := h
        revert hstate hlive hearly hp
        cases r.state <;> simp [ExecutionStateMachine.fromTo, ExecutionStateMachine.isTerminal,
          ExecutionState.partners]
      refine (?_ : _ ∈ r.state.partners)
      rw [hnone]
      rcases hor with hst | hst | hst <;> rw [hst] <;> decide

/-- Each of the three leaves a record that is not coherent. -/
theorem ExecutionRecord.Uncouples.incoherent (hun : r.Uncouples e op) (amb : Ambient)
    (h : r.Paired) : ∃ o r', Effect e amb r op o r' ∧ ¬r'.Coherent := by
  have hp : r.progress ∈ r.state.partners := h
  cases hun with
  | unstarted hcur hrec hstate hidle =>
      refine ⟨_, _, .preemptAcknowledged hcur hrec hstate (Outcome.plain_gives _ _ _), fun hco => ?_⟩
      have hretired : r.progress.map (·.advance .preempted) = some .preempted ∨
          r.progress.map (·.advance .preempted) = some .lost := by
        rw [← r.progress_retireCurrent]
        exact hco.preempted (.inl rfl)
      have hor : r.progress = none ∨ r.progress = some .dispatched := by
        simpa [hstate, ExecutionState.partners, hidle] using hp
      -- the table has no way from `DISPATCHED` to `PREEMPTED`
      rcases hor with hst | hst <;> rw [hst] at hretired <;> revert hretired <;> decide
  | @late t auth hresult hdigest hstate =>
      have hprogress := progress_completeAttempt t.resultDigest auth.attempt
      rcases hstate with hstate | hstate | ⟨hstate, hlost⟩
      · -- refused, and the attempt is `COMPLETED` all the same
        refine ⟨_, _, .completeStuck auth (by rw [hstate]; rfl) (by rw [hstate]; rfl)
          (by rw [hstate]; decide) hresult hdigest (Outcome.plain_gives _ _ _), fun hco => ?_⟩
        have hwaiting := hprogress.symm.trans (hco.dispatched (.inr hstate))
        have hst : r.progress = some .dispatched := by
          simpa [hstate, ExecutionState.partners] using hp
        rw [hst] at hwaiting
        revert hwaiting
        decide
      · refine ⟨_, _, .committed auth (by rw [hstate]; rfl) hresult hdigest
          (Outcome.plain_gives _ _ _), fun hco => ?_⟩
        have hdone := hprogress.symm.trans (hco.committed rfl)
        have hst : r.progress = some .lost := by simpa [hstate, ExecutionState.partners] using hp
        rw [hst] at hdone
        revert hdone
        decide
      · refine ⟨_, _, .committed auth (by rw [hstate]; rfl) hresult hdigest
          (Outcome.plain_gives _ _ _), fun hco => ?_⟩
        have hdone := hprogress.symm.trans (hco.committed rfl)
        rw [hlost] at hdone
        revert hdone
        decide
  | dropped hrec hstate =>
      have hnone := (r.retireCurrent .superseded).progress_dropAuthority
      refine ⟨_, _, .supersedeStuck hrec ?_ ?_ (Outcome.plain_gives _ _ _), fun hco => ?_⟩
      · rcases hstate with hst | hst | hst <;> rw [hst] <;> rfl
      · rcases hstate with hst | hst | hst <;> rw [hst] <;> rfl
      · rcases hstate with hst | hst | hst
        · rcases hco.preempted (.inl hst) with hsome | hsome <;> rw [hnone] at hsome <;> cases hsome
        · rcases hco.preempted (.inr hst) with hsome | hsome <;> rw [hnone] at hsome <;> cases hsome
        · have hsome := hco.dispatched (.inr hst)
          rw [hnone] at hsome
          cases hsome

end

/-! ### Runs -/

/-- The guard: the call does not uncouple the record it addresses. -/
def KeepsPairs (s : ExecutionEngine) (c : Call) : Prop :=
  ∀ id r, c.op.target = some id → s.find id = some r → ¬r.Uncouples s.epoch c.op

/-- The operations that never uncouple a record. -/
def Op.couples : Op → Bool
  | acknowledgePreempt .. | complete .. | supersede .. => false
  | _ => true

section

variable {r : ExecutionRecord} {e : CoordinatorEpoch} {op : Op}

theorem ExecutionRecord.Uncouples.couples (hun : r.Uncouples e op) : op.couples = false := by
  cases hun <;> rfl

/-- The three are past the stale check, and adopt no epoch. -/
theorem ExecutionRecord.Uncouples.current (hun : r.Uncouples e op) :
    op.adopts = false ∧ (∀ e', op ≠ .raiseEpoch e') ∧ e ≤ op.epoch := by
  cases hun with
  | unstarted hcur hrec hstate hidle => exact ⟨rfl, nofun, hcur⟩
  | late auth hresult hdigest hstate => exact ⟨rfl, nofun, auth.epoch.ge⟩
  | dropped hrec hstate => exact ⟨rfl, nofun, le_rfl⟩

end

section

variable {s : ExecutionEngine} {c : Call}

theorem paired_next (hshaped : s.Every (·.Shaped))
    (hdistinct' : (engine.next s c).Every (·.Distinct)) (hkeeps : KeepsPairs s c)
    (h : s.Every (·.Paired)) : (engine.next s c).Every (·.Paired) := by
  intro id r' hr'
  cases origin hr' with
  | idle hx => exact h id r' hx
  | created => exact List.mem_singleton.2 rfl
  | @acted r _ hx htarget hcur effect =>
      refine effect.paired (hshaped id r hx) (hdistinct' id r' hr') (fun hun => ?_) (h id r hx)
      obtain ⟨hadopts, hraise, -⟩ := hun.current
      rw [epoch_next hadopts hraise] at hun
      exact hkeeps id r htarget hx hun

/-- From paired records, the next state is coherent exactly when the step meets
the guard. -/
theorem coherent_next_iff (hshaped : s.Every (·.Shaped))
    (hshaped' : (engine.next s c).Every (·.Shaped))
    (hdistinct' : (engine.next s c).Every (·.Distinct)) (h : s.Every (·.Paired)) :
    (engine.next s c).Every (·.Coherent) ↔ KeepsPairs s c := by
  constructor
  · intro hnext id r htarget hfind hun
    obtain ⟨o, r', effect, hwrong⟩ := hun.incoherent c.ambient (h id r hfind)
    obtain ⟨hadopts, -, hcur⟩ := hun.current
    have hsame : s.adoptFor c.op = s := by simp [adoptFor, hadopts]
    have hacts := effect_acts htarget hfind hcur (hsame.symm ▸ effect)
    exact hwrong (hnext id r' hacts.find)
  · intro hkeeps id r' hr'
    exact (paired_next hshaped hdistinct' hkeeps h id r' hr').coherent (hshaped' id r' hr').holding

end

theorem paired_of_runs {e₀ : CoordinatorEpoch} {h : History} {s : ExecutionEngine}
    (run : Runs engine KeepsPairs (init e₀) h s) (hfresh : FreshIds h) : s.Every (·.Paired) := by
  induction run with
  | refl => exact fun _ _ => nofun
  | @snoc h t run c hkeeps ih =>
      refine paired_next ?_ (distinct_of_runs (run.snoc c hkeeps) hfresh) hkeeps (ih hfresh.left)
      exact fun id r hfind => (reachable_of_runs run).shaped hfind

/-- With fresh identifiers, the states of executions and of their current
attempts agree along a run exactly when no call of it uncouples a record. -/
theorem coherent_iff {e₀ : CoordinatorEpoch} {calls : List Call}
    (hfresh : FreshIds (engine.trace (init e₀) calls)) :
    (∀ cs, cs <+: calls → (engine.run (init e₀) cs).Every ExecutionRecord.Coherent) ↔
      engine.Meets KeepsPairs (init e₀) calls := by
  refine Machine.always_iff_meets (P := fun s : ExecutionEngine => s.Every ExecutionRecord.Coherent)
    (fun id r hfind => by cases hfind) fun cs c hinit hmeets _ => ?_
  have run := runs_trace engine (init e₀) cs hmeets
  have run' := run.always.snoc c trivial
  have hfresh' := hfresh.of_prefix hinit
  rw [Machine.trace_append] at hfresh'
  apply coherent_next_iff
  · exact fun id r hfind => (reachable_of_runs run).shaped hfind
  · exact fun id r hfind => (reachable_of_runs run').shaped hfind
  · exact distinct_of_runs run' hfresh'
  · exact paired_of_runs run hfresh'.left

/-- A started attempt is preempted and resumed. -/
theorem coherent_sample :
    (engine.run (init ⟨1⟩) (Sample.dispatching ++ [Sample.starting] ++ Sample.preempting
      ++ [Sample.resuming])).Every ExecutionRecord.Coherent := by
  have hack : ∀ s : ExecutionEngine,
      (s.find Sample.execution).map (·.progress) = some (some .running) →
        KeepsPairs s (Sample.call (.acknowledgePreempt Sample.execution ⟨1⟩)) := by
    intro s hrunning id r htarget hfind hun
    obtain rfl : Sample.execution = id := Option.some.inj htarget
    rw [hfind] at hrunning
    cases hun with
    | unstarted _ _ _ hidle => exact hidle (Option.some.inj hrunning)
  have hother : ∀ (s : ExecutionEngine) (c : Call), c.op.couples = true → KeepsPairs s c :=
    fun s c hcouples id r _ _ hun => absurd hcouples (by rw [hun.couples]; decide)
  have hmeets : engine.Meets KeepsPairs (init ⟨1⟩) (Sample.dispatching ++ [Sample.starting]
      ++ Sample.preempting ++ [Sample.resuming]) :=
    ⟨hother _ _ rfl, hother _ _ rfl, hother _ _ rfl, hother _ _ rfl, hother _ _ rfl,
      hack _ (by decide +kernel), hother _ _ rfl, hother _ _ rfl, trivial⟩
  exact (coherent_iff (by decide +kernel)).2 hmeets _ List.prefix_rfl

/-- The worker is lost while it runs, and its completion arrives late: the
execution is `COMMITTED`, its attempt still `LOST`. -/
theorem committed_of_lost :
    ¬∀ e₀ h s, Runs engine Always (init e₀) h s → FreshIds h →
      s.Every ExecutionRecord.Coherent := by
  intro hclaim
  let calls := Sample.dispatching ++ [Sample.starting, Sample.losing,
    Sample.call (.complete ((Sample.ticket 10).completion (Sample.digest 7)))]
  have run := runs_always engine (init ⟨1⟩) calls
  have hboth : ((engine.run (init ⟨1⟩) calls).find Sample.execution).map
      (fun r => (r.state, r.progress)) = some (.committed, some .lost) := by decide +kernel
  obtain ⟨r, hfind, hpair⟩ := Option.map_eq_some_iff.1 hboth
  obtain ⟨hstate, hlost⟩ := Prod.mk.inj hpair
  have hdone := (hclaim ⟨1⟩ _ _ run (by decide +kernel) Sample.execution r hfind).committed hstate
  rw [hlost] at hdone
  cases hdone

end ExecutionFabric
