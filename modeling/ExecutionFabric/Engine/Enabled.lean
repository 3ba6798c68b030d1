import ExecutionFabric.Engine.Run

/-!
The effects are exact.

`step_effects` says that every call is one of the listed cases. This is the
other direction: whenever the checks that an effect records are met, the call
has that effect. Together they make `Effect` a characterisation of the stores
of the engine, and a run can be planned from its constructors alone.
-/

namespace ExecutionFabric

open StepMachine ExecutionEngine ExecutionStateMachine

/-- An outcome with nothing in it but what `Gives` asks for. -/
def Outcome.plain (code : DecisionCode) (ticket : Option DispatchTicket)
    (drawn : Option (AttemptId × DispatchId)) : Outcome :=
  { decision := some { code }, ticket, drawn }

theorem Outcome.plain_gives (code : DecisionCode) (ticket : Option DispatchTicket)
    (drawn : Option (AttemptId × DispatchId)) :
    (Outcome.plain code ticket drawn).Gives code ticket drawn := ⟨rfl, rfl, rfl⟩

/-- The call stores `r'` under `id` and gives the outcome `o`, up to texts. -/
structure Acts (s : ExecutionEngine) (amb : Ambient) (op : Op) (id : ExecutionId) (o : Outcome)
    (r' : ExecutionRecord) : Prop where
  next : engine.next s ⟨op, amb⟩ = (s.adoptFor op).store id r'
  code : (engine.out s ⟨op, amb⟩).code? = o.code?
  ticket : (engine.out s ⟨op, amb⟩).ticket = o.ticket
  drawn : (engine.out s ⟨op, amb⟩).drawn = o.drawn

variable {s : ExecutionEngine} {amb : Ambient} {op : Op} {o : Outcome} {id : ExecutionId}
  {r r' : ExecutionRecord}

theorem Acts.find (h : Acts s amb op id o r') : (engine.next s ⟨op, amb⟩).find id = some r' := by
  rw [h.next, find_store_self]

theorem acts_of_decided {x : Decision × ExecutionEngine} {code : DecisionCode}
    (hstep : s.step ⟨op, amb⟩ = decided x) (gives : o.Gives code none none)
    (hx : x.1.code = code ∧ x.2 = (s.adoptFor op).store id r') : Acts s amb op id o r' where
  next := by rw [← hx.2]; exact congrArg Prod.fst hstep
  code := by
    rw [gives.code, ← hx.1, show engine.out s ⟨op, amb⟩ = _ from congrArg Prod.snd hstep]
    rfl
  ticket := by
    rw [gives.ticket, show engine.out s ⟨op, amb⟩ = _ from congrArg Prod.snd hstep]
    rfl
  drawn := by
    rw [gives.drawn, show engine.out s ⟨op, amb⟩ = _ from congrArg Prod.snd hstep]
    rfl

/-- The same for a call that ends with a transition its table allows. -/
theorem acts_of_transition {x : Decision × ExecutionEngine} {target : ExecutionState}
    (r₁ : ExecutionRecord) (hstep : s.step ⟨op, amb⟩ = decided x) (gives : o.Gives .allow none none)
    (hfrom : fromTo r₁.state target = true)
    (hx : x.1.code = (transition r₁ target).1.code ∧
      x.2 = (s.adoptFor op).store id (transition r₁ target).2) :
    Acts s amb op id o { r₁ with state := target } := by
  obtain ⟨hcode, hafter⟩ := transition_of_fromTo r₁ target hfrom
  rw [hcode, hafter] at hx
  exact acts_of_decided hstep gives hx

/-- The same for the two calls that issue. -/
theorem acts_of_issued {i : Issue} {code : DecisionCode} (hstep : s.step ⟨op, amb⟩ = issued i)
    (gives : o.Gives code i.ticket i.drawn) (hcode : i.decision.code = code)
    (hengine : i.engine = (s.adoptFor op).store id r') : Acts s amb op id o r' where
  next := by rw [← hengine]; exact congrArg Prod.fst hstep
  code := by
    rw [gives.code, ← hcode, show engine.out s ⟨op, amb⟩ = _ from congrArg Prod.snd hstep]
    rfl
  ticket := by
    rw [gives.ticket, show engine.out s ⟨op, amb⟩ = _ from congrArg Prod.snd hstep]
    rfl
  drawn := by
    rw [gives.drawn, show engine.out s ⟨op, amb⟩ = _ from congrArg Prod.snd hstep]
    rfl

theorem ControlRequest.Authorised.passes {req : ControlRequest} {e : CoordinatorEpoch}
    (auth : req.Authorised e r) :
    ¬(req.epoch ≠ e ∨ req.epoch ≠ r.coordinatorEpoch) ∧
      ¬req.authorityGeneration ≠ r.ownershipGeneration := by
  obtain ⟨h₁, h₂, h₃⟩ := auth
  tauto

theorem dispatch_issues (amb : Ambient) (worker : WorkerId) (boot : WorkerBootId)
    {e : CoordinatorEpoch} (hfind : s.find id = some r)
    (hlive : ¬(e < s.epoch ∨ e < r.coordinatorEpoch)) (hstate : r.state.dispatchable = true) :
    ∃ i, s.dispatch amb id worker boot e = .ok i ∧ i.decision.code = .allow ∧
      i.ticket = some (r.ticketFor (s.adoptEpoch e).epoch (r.nextAttempt amb worker boot)) ∧
      i.drawn = some (Id.random amb.attemptWords, Id.random amb.dispatchWords) ∧
      i.engine = (s.adoptEpoch e).store id
        { r.supersedeCurrent.install (r.nextAttempt amb worker boot) with state := .dispatched } := by
  have htr := transition_of_fromTo (r.supersedeCurrent.install (r.nextAttempt amb worker boot))
    .dispatched (by
      simp only [ExecutionRecord.install, ExecutionRecord.supersedeCurrent_eq]
      revert hstate
      cases r.state <;> simp [ExecutionState.dispatchable, fromTo])
  have hor : r.state = .ready ∨ r.state = .dispatched ∨ r.state = .running ∨
      r.state = .ambiguous := by
    simpa [ExecutionState.dispatchable] using hstate
  unfold dispatch
  simp only [hfind, if_neg hlive]
  rcases hor with h | h | h | h <;>
    simp only [h, htr.1, htr.2, reduceCtorEq, if_false, or_self, or_true, true_or, ne_eq,
      not_true_eq_false] <;>
    exact ⟨_, rfl, rfl, by simp [ExecutionRecord.ticketFor, ExecutionRecord.install,
      ExecutionRecord.supersedeCurrent_eq], rfl, rfl⟩

theorem dispatch_sticks (amb : Ambient) (worker : WorkerId) (boot : WorkerBootId)
    {e : CoordinatorEpoch} (hfind : s.find id = some r)
    (hlive : ¬(e < s.epoch ∨ e < r.coordinatorEpoch)) (hstate : r.state = .resuming) :
    ∃ i, s.dispatch amb id worker boot e = .ok i ∧ i.decision.code = .rejectAlreadyTerminal ∧
      i.ticket = none ∧
      i.drawn = some (Id.random amb.attemptWords, Id.random amb.dispatchWords) ∧
      i.engine = (s.adoptEpoch e).store id
        (r.supersedeCurrent.install (r.nextAttempt amb worker boot)) := by
  have htr := transition_of_not_fromTo
    (r.supersedeCurrent.install (r.nextAttempt amb worker boot)) .dispatched
    (by simp [ExecutionRecord.install, ExecutionRecord.supersedeCurrent_eq, hstate, fromTo])
  unfold dispatch
  simp only [hfind, if_neg hlive, hstate, htr.2, reduceCtorEq, if_false, or_self, or_true, ne_eq,
    not_true_eq_false]
  exact ⟨_, by rw [if_pos (by rw [htr.1]; decide)], htr.1, rfl, rfl, rfl⟩

theorem resume_issues (amb : Ambient) (worker : WorkerId) (boot : WorkerBootId)
    (hfind : s.find id = some r) (hrec : r.coordinatorEpoch = s.epoch)
    (hstate : r.state = .resumable) :
    (s.resume amb id worker boot s.epoch r.resumeGeneration.next).decision.code = .resumeAllowed ∧
      (s.resume amb id worker boot s.epoch r.resumeGeneration.next).ticket
        = some (r.ticketFor s.epoch (r.nextAttempt amb worker boot)) ∧
      (s.resume amb id worker boot s.epoch r.resumeGeneration.next).drawn
        = some (Id.random amb.attemptWords, Id.random amb.dispatchWords) ∧
      (s.resume amb id worker boot s.epoch r.resumeGeneration.next).engine = s.store id
        { r.supersedePreempted.install (r.nextAttempt amb worker boot) with
          resumeGeneration := r.resumeGeneration.next
          state := .resuming } := by
  have hmade : ExecutionRecord.nextAttempt
      { r with resumeGeneration := r.resumeGeneration.next } amb worker boot
      = r.nextAttempt amb worker boot := rfl
  have htr := transition_of_fromTo
    (ExecutionRecord.install (ExecutionRecord.supersedePreempted
      { r with resumeGeneration := r.resumeGeneration.next })
      (r.nextAttempt amb worker boot)) .resuming
    (by simp [ExecutionRecord.install, ExecutionRecord.supersedePreempted, hstate, fromTo])
  have hguard : ¬(s.epoch ≠ s.epoch ∨ s.epoch ≠ r.coordinatorEpoch) := by simp [hrec]
  have hgen : ¬r.resumeGeneration.next ≠ r.resumeGeneration.next := not_not.2 rfl
  unfold resume
  simp only [hfind, if_neg hguard, if_neg (not_not.2 hstate), if_neg hgen, hmade,
    if_neg (not_not.2 htr.1), htr.2]
  exact ⟨rfl, rfl, rfl, rfl⟩

theorem not_stale {cur epoch : CoordinatorEpoch} (hcur : cur ≤ epoch)
    (hrec : r.coordinatorEpoch ≤ epoch) : ¬(epoch < cur ∨ epoch < r.coordinatorEpoch) := by
  rintro (h | h)
  · exact absurd h (not_lt.2 hcur)
  · exact absurd h (not_lt.2 hrec)

/-! ### One operation at a time -/

section

variable {e : CoordinatorEpoch} {worker : WorkerId} {boot : WorkerBootId}

theorem activate_acts (hfind : s.find id = some r) (hcur : s.epoch ≤ e)
    (effect : Effect e amb r (.activate id e) o r') : Acts s amb (.activate id e) id o r' := by
  cases effect with
  | activated hrec hstate gives =>
      let r₁ : ExecutionRecord := { r with ownershipGeneration := ⟨1⟩, fenceGeneration := ⟨1⟩ }
      have hactivate : s.activate id e = .ok ((transition r₁ .ready).1,
          (s.adoptEpoch e).store id (transition r₁ .ready).2) := by
        simp only [activate, hfind, if_neg (not_stale hcur hrec), if_neg (not_not.2 hstate), r₁]
      have hstep : s.step ⟨.activate id e, amb⟩ = decided ((transition r₁ .ready).1,
          (s.adoptEpoch e).store id (transition r₁ .ready).2) := by
        simp only [step, hactivate]
      exact acts_of_transition r₁ hstep gives (by simp [r₁, hstate, fromTo]) ⟨rfl, rfl⟩

theorem dispatch_acts (hfind : s.find id = some r) (hcur : s.epoch ≤ e)
    (effect : Effect e amb r (.dispatch id worker boot e) o r') :
    Acts s amb (.dispatch id worker boot e) id o r' := by
  cases effect with
  | dispatched hrec hstate gives =>
      obtain ⟨i, hi, hcode, hticket, hdrawn, hengine⟩ :=
        dispatch_issues amb worker boot hfind (not_stale hcur hrec) hstate
      rw [adoptEpoch_epoch_of_le s hcur] at hticket
      rw [← hticket, ← hdrawn] at gives
      exact acts_of_issued (by simp only [step, hi]) gives hcode hengine
  | dispatchStuck hrec hstate gives =>
      obtain ⟨i, hi, hcode, hticket, hdrawn, hengine⟩ :=
        dispatch_sticks amb worker boot hfind (not_stale hcur hrec) hstate
      rw [← hticket, ← hdrawn] at gives
      exact acts_of_issued (by simp only [step, hi]) gives hcode hengine

theorem markRunning_acts {t : StartTicket} (hfind : s.find t.executionId = some r)
    (effect : Effect s.epoch amb r (.markRunning t) o r') :
    Acts s amb (.markRunning t) t.executionId o r' := by
  cases effect with
  | started auth hstate gives =>
      have hwait : ¬(r.state ≠ .dispatched ∧ r.state ≠ .resuming) := by tauto
      refine acts_of_transition (r.startAttempt t.attemptId) rfl gives ?_ ?_
      · rcases hstate with h | h <;> simp [ExecutionRecord.startAttempt, h, fromTo]
      · simp only [markRunning, hfind, if_neg hwait, if_neg (not_not.2 (validateStart_iff.2 auth))]
        exact ⟨rfl, rfl⟩

theorem complete_acts {t : CompletionTicket} (hfind : s.find t.executionId = some r)
    (effect : Effect s.epoch amb r (.complete t) o r') :
    Acts s amb (.complete t) t.executionId o r' := by
  cases effect with
  | committed auth hstate hresult hdigest gives =>
      have hcode := validateTicket_iff.2 auth
      have htr := transition_of_fromTo (r.completeAttempt t.attemptId t.resultDigest) .completed
        hstate
      have hopen : r.state ≠ .committed ∧ isTerminal r.state = false ∧ r.state ≠ .preempted := by
        revert hstate
        cases r.state <;> simp [fromTo, isTerminal]
      -- the second of the two transitions decides the answer
      refine acts_of_transition { r.completeAttempt t.attemptId t.resultDigest with
        committedDigest := some t.resultDigest
        commitGeneration := r.commitGeneration.next
        committedAt := amb.now
        state := .completed } rfl gives rfl ?_
      simp only [complete, hfind, hcode, hresult, hdigest, htr, hopen, ne_eq,
        not_true_eq_false, if_false, Bool.false_eq_true, or_self]
      exact ⟨rfl, rfl⟩
  | completeStuck auth hstate hlive hpre hresult hdigest gives =>
      have hcode := validateTicket_iff.2 auth
      have htr := transition_of_not_fromTo (r.completeAttempt t.attemptId t.resultDigest)
        .completed hstate
      have hopen : r.state ≠ .committed := fun h => by
        rw [h] at hlive
        cases hlive
      refine acts_of_decided rfl gives ?_
      simp only [complete, hfind, hcode, hresult, hdigest, htr, hopen, hlive, hpre, ne_eq,
        not_true_eq_false, if_false, Bool.false_eq_true, or_self, reduceCtorEq, not_false_eq_true,
        if_true]
      exact ⟨trivial, rfl⟩

theorem cancel_acts {req : ControlRequest} (hfind : s.find req.executionId = some r)
    (effect : Effect s.epoch amb r (.cancel req) o r') :
    Acts s amb (.cancel req) req.executionId o r' := by
  cases effect with
  | cancelledEarly auth hstate gives =>
      refine acts_of_transition
        { r with cancellationGeneration := r.cancellationGeneration.next } rfl gives
        (by simp [hstate, fromTo]) ?_
      simp only [cancel, hfind, auth.passes, hstate]
      exact ⟨rfl, rfl⟩
  | cancelRequested auth hstate gives =>
      refine acts_of_transition
        { r with cancellationGeneration := r.cancellationGeneration.next } rfl gives ?_ ?_
      · revert hstate
        cases r.state <;> simp [ExecutionState.cancellable, fromTo]
      · have hcan : r.state = .ready ∨ r.state = .dispatched ∨ r.state = .running := by
          simpa [ExecutionState.cancellable] using hstate
        simp only [cancel, hfind, auth.passes]
        rcases hcan with h | h | h <;> simp only [h] <;> exact ⟨rfl, rfl⟩
  | cancelStuck auth hstate hlive hnew hflight gives =>
      refine acts_of_decided rfl gives ?_
      have hcan : ¬(r.state = .ready ∨ r.state = .dispatched ∨ r.state = .running) := by
        simpa [ExecutionState.cancellable] using hstate
      simp only [cancel, hfind, auth.passes, hlive, hflight, hnew, hcan, if_false,
        Bool.false_eq_true]
      exact ⟨rfl, rfl⟩

theorem finalizeCancel_acts (hfind : s.find id = some r)
    (effect : Effect s.epoch amb r (.finalizeCancel id e) o r') :
    Acts s amb (.finalizeCancel id e) id o r' := by
  cases effect with
  | cancelFinalized hcur hrec hstate gives =>
      refine acts_of_transition (r.retireCurrent .cancelled) rfl gives
        (by simp [ExecutionRecord.retireCurrent, hstate, fromTo]) ?_
      simp only [finalizeCancel, hfind, if_neg (not_stale hcur hrec), hstate]
      exact ⟨rfl, rfl⟩

theorem preempt_acts {req : ControlRequest} (hfind : s.find req.executionId = some r)
    (effect : Effect s.epoch amb r (.preempt req) o r') :
    Acts s amb (.preempt req) req.executionId o r' := by
  cases effect with
  | preemptRequested auth hstate gives =>
      refine acts_of_transition
        { r with preemptionGeneration := r.preemptionGeneration.next } rfl gives ?_ ?_
      · rcases hstate with h | h <;> simp [h, fromTo]
      · simp only [preempt, hfind, auth.passes]
        rcases hstate with h | h <;> simp only [h] <;> exact ⟨rfl, rfl⟩

theorem acknowledgePreempt_acts (hfind : s.find id = some r)
    (effect : Effect s.epoch amb r (.acknowledgePreempt id e) o r') :
    Acts s amb (.acknowledgePreempt id e) id o r' := by
  cases effect with
  | preemptAcknowledged hcur hrec hstate gives =>
      refine acts_of_transition (r.retireCurrent .preempted) rfl gives
        (by simp [ExecutionRecord.retireCurrent, hstate, fromTo]) ?_
      simp only [acknowledgePreempt, hfind, if_neg (not_stale hcur hrec), hstate]
      exact ⟨rfl, rfl⟩

theorem markResumable_acts (hfind : s.find id = some r)
    (effect : Effect s.epoch amb r (.markResumable id e) o r') :
    Acts s amb (.markResumable id e) id o r' := by
  cases effect with
  | madeResumable hcur hrec hstate gives =>
      refine acts_of_transition r rfl gives (by simp [hstate, fromTo]) ?_
      simp only [markResumable, hfind, if_neg (not_stale hcur hrec), hstate]
      exact ⟨rfl, rfl⟩

theorem resume_acts {gen : ResumeGeneration} (hfind : s.find id = some r)
    (effect : Effect s.epoch amb r (.resume id worker boot e gen) o r') :
    Acts s amb (.resume id worker boot e gen) id o r' := by
  cases effect with
  | resumed hrec hstate gives =>
      obtain ⟨hcode, hticket, hdrawn, hengine⟩ := resume_issues amb worker boot hfind hrec hstate
      rw [← hticket, ← hdrawn] at gives
      exact acts_of_issued rfl gives hcode hengine

theorem markWorkerLost_acts (hfind : s.find id = some r)
    (effect : Effect s.epoch amb r (.markWorkerLost id worker boot e) o r') :
    Acts s amb (.markWorkerLost id worker boot e) id o r' := by
  cases effect with
  | lost hcur hrec hworker hboot hstate gives =>
      refine acts_of_transition r.loseCurrent rfl gives ?_ ?_
      · rcases ExecutionState.lossTarget_cases hstate with ⟨h, rfl⟩ | ⟨h, rfl⟩ | ⟨h, rfl⟩ | ⟨h, rfl⟩
          <;> simp [ExecutionRecord.loseCurrent, h, fromTo]
      · simp only [markWorkerLost, hfind, if_neg (not_stale hcur hrec), hworker, hboot, ne_eq,
          not_true_eq_false, or_self, if_false]
        rcases ExecutionState.lossTarget_cases hstate with ⟨h, rfl⟩ | ⟨h, rfl⟩ | ⟨h, rfl⟩ | ⟨h, rfl⟩
          <;> simp only [h] <;> exact ⟨rfl, rfl⟩

theorem supersede_acts (hfind : s.find id = some r)
    (effect : Effect s.epoch amb r (.supersede id e) o r') :
    Acts s amb (.supersede id e) id o r' := by
  cases effect with
  | superseded hrec hstate gives =>
      have hopen : isTerminal r.state = false := by
        revert hstate
        cases r.state <;> simp [fromTo, isTerminal]
      refine acts_of_transition (r.retireCurrent .superseded).dropAuthority rfl gives hstate ?_
      simp only [supersede, hfind, hrec, hopen, ne_eq, not_true_eq_false, or_self, if_false,
        Bool.false_eq_true, false_and]
      exact ⟨trivial, rfl⟩
  | supersedeStuck hrec hstate hlive gives =>
      have htr := transition_of_not_fromTo (r.retireCurrent .superseded).dropAuthority .superseded
        hstate
      refine acts_of_decided rfl gives ?_
      simp only [supersede, hfind, hrec, hlive, htr, ne_eq, not_true_eq_false, or_self, if_false,
        Bool.false_eq_true, false_and]
      exact ⟨trivial, rfl⟩

end

/-- The checks of an effect are enough for it to happen. -/
theorem effect_acts (htarget : op.target = some id) (hfind : s.find id = some r)
    (hcur : s.epoch ≤ op.epoch) (effect : Effect (s.adoptFor op).epoch amb r op o r') :
    Acts s amb op id o r' := by
  cases op with
  | create k e => cases effect
  | raiseEpoch e => cases htarget
  | activate k e =>
      obtain rfl : k = id := Option.some.inj htarget
      have hadopt : (s.adoptFor (.activate k e)).epoch = e := adoptEpoch_epoch_of_le s hcur
      rw [hadopt] at effect
      exact activate_acts hfind hcur effect
  | dispatch k worker boot e =>
      obtain rfl : k = id := Option.some.inj htarget
      have hadopt : (s.adoptFor (.dispatch k worker boot e)).epoch = e :=
        adoptEpoch_epoch_of_le s hcur
      rw [hadopt] at effect
      exact dispatch_acts hfind hcur effect
  | markRunning t =>
      obtain rfl : t.executionId = id := Option.some.inj htarget
      exact markRunning_acts hfind effect
  | complete t =>
      obtain rfl : t.executionId = id := Option.some.inj htarget
      exact complete_acts hfind effect
  | cancel req =>
      obtain rfl : req.executionId = id := Option.some.inj htarget
      exact cancel_acts hfind effect
  | finalizeCancel k e =>
      obtain rfl : k = id := Option.some.inj htarget
      exact finalizeCancel_acts hfind effect
  | preempt req =>
      obtain rfl : req.executionId = id := Option.some.inj htarget
      exact preempt_acts hfind effect
  | acknowledgePreempt k e =>
      obtain rfl : k = id := Option.some.inj htarget
      exact acknowledgePreempt_acts hfind effect
  | markResumable k e =>
      obtain rfl : k = id := Option.some.inj htarget
      exact markResumable_acts hfind effect
  | resume k worker boot e gen =>
      obtain rfl : k = id := Option.some.inj htarget
      exact resume_acts hfind effect
  | markWorkerLost k worker boot e =>
      obtain rfl : k = id := Option.some.inj htarget
      exact markWorkerLost_acts hfind effect
  | supersede k e =>
      obtain rfl : k = id := Option.some.inj htarget
      exact supersede_acts hfind effect

end ExecutionFabric
