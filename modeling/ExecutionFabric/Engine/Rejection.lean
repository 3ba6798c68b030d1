import ExecutionFabric.Engine.Authority
import ExecutionFabric.Engine.Enabled

/-!
What a rejected call leaves behind.

Several operations write before the check that refuses. `Leaks` lists the
calls on which such a write is seen afterwards: an epoch adopted by a call
that is refused, an attempt installed by `dispatch` in `RESUMING`, a
completion recorded in a state that cannot complete, a cancellation counted in
a state that cannot be cancelled, and authority dropped by `supersede` in a
state that cannot be superseded. `rejected_unchanged_iff` proves the list
exact.

A caller with a stale epoch is not among them: it is refused, and nothing
changes.
-/

namespace ExecutionFabric

open Collections StepMachine ExecutionEngine ExecutionStateMachine

/-! ### When a write is not seen -/

namespace AttemptRecord

/-- Recording a completion again changes nothing. -/
theorem complete_eq_self_iff {a : AttemptRecord} {digest : ResultDigest} :
    ({ a.move .completed with resultDigest := some digest } : AttemptRecord) = a ↔
      a.resultDigest = some digest ∧ AttemptStateMachine.fromTo a.state .completed = false := by
  rw [move_eq]
  constructor
  · intro h
    have hdigest : a.resultDigest = some digest := (congrArg resultDigest h).symm
    refine ⟨hdigest, ?_⟩
    by_contra hfrom
    have hfrom' : AttemptStateMachine.fromTo a.state .completed = true := by simpa using hfrom
    rw [if_pos hfrom'] at h
    have hstate : AttemptState.completed = a.state := congrArg state h
    rw [← hstate] at hfrom'
    cases hfrom'
  · rintro ⟨hdigest, hfrom⟩
    rw [if_neg (by simp [hfrom]), ← hdigest]

end AttemptRecord

namespace ExecutionRecord

/-- The loop of `complete` changes the first attempt with the ticket's
identifier, if there is one. -/
theorem completeAttempt_eq_self_iff {r : ExecutionRecord} {id : AttemptId} {digest : ResultDigest} :
    r.completeAttempt id digest = r ↔ ∀ a, r.attempts.find? (·.id == id) = some a →
      a.resultDigest = some digest ∧ AttemptStateMachine.fromTo a.state .completed = false := by
  have hattempts : r.completeAttempt id digest = r ↔
      (r.completeAttempt id digest).attempts = r.attempts :=
    ⟨fun h => by rw [h], fun h => congrArg (fun as => { r with attempts := as }) h⟩
  rw [hattempts]
  refine updateFirst_eq_self_iff.trans ?_
  exact forall_congr' fun a => imp_congr_right fun _ => AttemptRecord.complete_eq_self_iff

theorem retireCurrent_of_vacant {r : ExecutionRecord} (h : r.authority.Vacant)
    (target : AttemptState) : r.retireCurrent target = r := by
  have hnone : r.currentAttemptId = none := h.attempt
  have hattempts : (r.retireCurrent target).attempts = r.attempts :=
    updateAll_of_none fun a _ => by simp [hnone]
  exact congrArg (fun as => { r with attempts := as }) hattempts

/-- A supersession is seen unless there was nothing to lose and the generation
is saturated. -/
theorem dropAuthority_eq_self_iff {r : ExecutionRecord} :
    (r.retireCurrent .superseded).dropAuthority = r ↔
      r.generation.value = Gen.maxValue ∧ r.authority.Vacant := by
  constructor
  · intro h
    refine ⟨Gen.next_eq_self_iff.1 (congrArg generation h), ?_⟩
    have hauth := congrArg authority h
    exact hauth ▸ Authority.drop_vacant r.authority
  · rintro ⟨hgen, hvacant⟩
    rw [retireCurrent_of_vacant hvacant]
    obtain ⟨h₁, h₂, h₃, h₄⟩ := hvacant
    have hnext := Gen.next_eq_self_iff.2 hgen
    obtain ⟨⟩ := r
    simp_all [dropAuthority, authority]

end ExecutionRecord

/-! ### The exact list -/

namespace ExecutionEngine

/-- The calls that are refused and change the engine all the same. -/
inductive Leaks (s : ExecutionEngine) : Op → Prop
  | adopts {op : Op} (adopts : s.Adopts op) (hlarger : s.epoch < op.epoch) : Leaks s op
  | dispatch {id : ExecutionId} {worker : WorkerId} {boot : WorkerBootId} {e : CoordinatorEpoch}
      {r : ExecutionRecord} (hfind : s.find id = some r) (hcur : s.epoch ≤ e)
      (hrec : r.coordinatorEpoch ≤ e) (hstate : r.state = .resuming) :
      Leaks s (.dispatch id worker boot e)
  | complete {t : CompletionTicket} {r : ExecutionRecord} {a : AttemptRecord}
      (hfind : s.find t.executionId = some r) (auth : CompletionAuthorised s.epoch r t)
      (hstate : fromTo r.state .completed = false) (hlive : isTerminal r.state = false)
      (hpre : r.state ≠ .preempted) (hresult : t.hasResult = true)
      (hdigest : t.resultDigest.isNil = false)
      (hattempt : r.attempts.find? (·.id == t.attemptId) = some a)
      (hnew : a.resultDigest ≠ some t.resultDigest ∨
        AttemptStateMachine.fromTo a.state .completed = true) : Leaks s (.complete t)
  | cancel {req : ControlRequest} {r : ExecutionRecord} (hfind : s.find req.executionId = some r)
      (auth : req.Authorised s.epoch r) (hstate : r.state.cancellable = false)
      (hlive : isTerminal r.state = false) (hnew : r.state ≠ .created)
      (hflight : r.state ≠ .cancellationRequested)
      (hcount : r.cancellationGeneration.value ≠ Gen.maxValue) : Leaks s (.cancel req)
  | supersede {id : ExecutionId} {r : ExecutionRecord} (hfind : s.find id = some r)
      (hrec : r.coordinatorEpoch = s.epoch) (hstate : fromTo r.state .superseded = false)
      (hlive : isTerminal r.state = false)
      (hheld : r.generation.value ≠ Gen.maxValue ∨ ¬r.authority.Vacant) :
      Leaks s (.supersede id s.epoch)

end ExecutionEngine

section

variable {s : ExecutionEngine} {amb : Ambient} {op : Op} {id : ExecutionId}
  {r r' : ExecutionRecord} {code : DecisionCode}

theorem Decision.not_allowed_of_code {d : Decision} (hcode : d.code = code)
    (h : code ≠ .allow ∧ code ≠ .retryAllowed ∧ code ≠ .resumeAllowed) : d.allowed = false := by
  subst hcode
  simp [Decision.allowed, h]

/-- A refusal that stores a different record is seen. -/
theorem leak_of_effect {o : Outcome} {ticket : Option DispatchTicket}
    {drawn : Option (AttemptId × DispatchId)} (gives : o.Gives code ticket drawn)
    (hcode : code ≠ .allow ∧ code ≠ .retryAllowed ∧ code ≠ .resumeAllowed)
    (htarget : op.target = some id) (hfind : s.find id = some r) (hcur : s.epoch ≤ op.epoch)
    (effect : Effect (s.adoptFor op).epoch amb r op o r') (hne : r' ≠ r) :
    ∃ d, (engine.out s ⟨op, amb⟩).decision = some d ∧ d.allowed = false ∧
      engine.next s ⟨op, amb⟩ ≠ s := by
  have hacts := effect_acts htarget hfind hcur effect
  have hout : (engine.out s ⟨op, amb⟩).code? = some code := hacts.code.trans gives.code
  obtain ⟨d, hd, hdc⟩ := Option.map_eq_some_iff.1 hout
  refine ⟨d, hd, Decision.not_allowed_of_code hdc hcode, fun hsame => hne ?_⟩
  have hstored := (s.adoptFor op).find_store_self r' id
  rw [← hacts.next, hsame, hfind] at hstored
  exact (Option.some.inj hstored).symm

theorem adopts_leaks (amb : Ambient) (adopts : s.Adopts op) :
    ∃ d, (engine.out s ⟨op, amb⟩).decision = some d ∧ d.allowed = false ∧
      engine.next s ⟨op, amb⟩ = s.adoptEpoch op.epoch := by
  cases adopts with
  | @create id e hcur hold =>
      have hlive : ¬e < s.epoch := not_lt.2 hcur
      have hcreate : (s.create amb id e).1.allowed = false ∧
          (s.create amb id e).2 = s.adoptEpoch e := by
        simp only [create, if_neg hlive, find_adoptEpoch, hold, if_true]
        exact ⟨rfl, trivial⟩
      exact ⟨_, rfl, hcreate.1, hcreate.2⟩
  | @activate id e r hcur hfind hrec hstate =>
      have hlive := not_stale hcur hrec
      refine ⟨fillContext (refuse .rejectAlreadyTerminal
        "activate rejected: execution is not in CREATED state") r, ?_, rfl, ?_⟩
      all_goals
        simp only [engine, Machine.out, Machine.next, step, activate, hfind, if_neg hlive,
          if_pos hstate]
        rfl
  | @dispatch id worker boot e r hcur hfind hrec hstate hresuming =>
      have hlive := not_stale hcur hrec
      obtain ⟨d, hd, hdispatch⟩ : ∃ d : Decision, d.allowed = false ∧
          s.dispatch amb id worker boot e = .ok { decision := d, engine := s.adoptEpoch e } := by
        simp only [dispatch, hfind, if_neg hlive]
        cases hst : r.state
        case resuming => exact absurd hst hresuming
        case ready | dispatched | running | ambiguous =>
          rw [hst] at hstate
          cases hstate
        all_goals
          simp only [reduceCtorEq, if_false, if_true, or_self, or_true, true_or, not_false_eq_true]
          refine ⟨_, ?_, rfl⟩
          rfl
      refine ⟨d, ?_, hd, ?_⟩
      all_goals
        simp only [engine, Machine.out, Machine.next, step, hdispatch]
        rfl

/-- A listed call is refused and changes the engine. -/
theorem ExecutionEngine.Leaks.seen (leaks : s.Leaks op) (amb : Ambient) :
    ∃ d, (engine.out s ⟨op, amb⟩).decision = some d ∧ d.allowed = false ∧
      engine.next s ⟨op, amb⟩ ≠ s := by
  cases leaks with
  | adopts adopts hlarger =>
      obtain ⟨d, hd, hallowed, hnext⟩ := adopts_leaks amb adopts
      refine ⟨d, hd, hallowed, fun hsame => ?_⟩
      exact not_le_of_gt hlarger (s.adoptEpoch_eq_self_iff.1 (hnext.symm.trans hsame))
  | @dispatch id worker boot e r hfind hcur hrec hstate =>
      have hepoch : (s.adoptFor (.dispatch id worker boot e)).epoch = e :=
        s.adoptEpoch_epoch_of_le hcur
      have gives := Outcome.plain_gives .rejectAlreadyTerminal none
        (some (Id.random amb.attemptWords, Id.random amb.dispatchWords))
      refine leak_of_effect gives ⟨nofun, nofun, nofun⟩ rfl hfind hcur
        (by rw [hepoch]; exact .dispatchStuck hrec hstate gives) fun hsame => ?_
      -- the new attempt makes the history longer
      have hlength := congrArg (List.length ∘ ExecutionRecord.lineage) hsame
      simp at hlength
  | @complete t r a hfind auth hstate hlive hpre hresult hdigest hattempt hnew =>
      have gives := Outcome.plain_gives .rejectAlreadyTerminal none none
      refine leak_of_effect gives ⟨nofun, nofun, nofun⟩ rfl hfind auth.epoch.ge
        (.completeStuck auth hstate hlive hpre hresult hdigest gives) fun hsame => ?_
      obtain ⟨hd, hfrom⟩ := ExecutionRecord.completeAttempt_eq_self_iff.1 hsame a hattempt
      rcases hnew with hnew | hnew
      · exact hnew hd
      · rw [hfrom] at hnew
        cases hnew
  | @cancel req r hfind auth hstate hlive hnew hflight hcount =>
      have gives := Outcome.plain_gives .rejectNotOwner none none
      refine leak_of_effect gives ⟨nofun, nofun, nofun⟩ rfl hfind auth.epoch.ge
        (.cancelStuck auth hstate hlive hnew hflight gives) fun hsame => hcount ?_
      exact Gen.next_eq_self_iff.1 (congrArg ExecutionRecord.cancellationGeneration hsame)
  | @supersede id r hfind hrec hstate hlive hheld =>
      have gives := Outcome.plain_gives .rejectAlreadyTerminal none none
      refine leak_of_effect gives ⟨nofun, nofun, nofun⟩ rfl hfind le_rfl
        (.supersedeStuck hrec hstate hlive gives) fun hsame => ?_
      obtain ⟨hgen, hvacant⟩ := ExecutionRecord.dropAuthority_eq_self_iff.1 hsame
      rcases hheld with hheld | hheld
      · exact hheld hgen
      · exact hheld hvacant

theorem allowed_of_gives {o : Outcome} {ticket : Option DispatchTicket}
    {drawn : Option (AttemptId × DispatchId)} {d : Decision} (gives : o.Gives code ticket drawn)
    (hd : o.decision = some d) (hcode : code = .allow ∨ code = .resumeAllowed) :
    d.allowed = true := by
  have hdc : d.code = code := by
    have hc := gives.code
    simpa [Outcome.code?, hd] using hc
  rcases hcode with rfl | rfl <;> simp [Decision.allowed, hdc]

/-- A stuck effect on an unlisted call stores what was there. -/
theorem effect_eq_self {o : Outcome} {d : Decision} (hfind : s.find id = some r)
    (htarget : op.target = some id) (hcur : s.epoch ≤ op.epoch) (hd : o.decision = some d)
    (hrefused : d.allowed = false) (hleaks : ¬s.Leaks op)
    (effect : Effect (s.adoptFor op).epoch amb r op o r') : (s.adoptFor op).store id r' = s := by
  have hallowed : ∀ {code ticket drawn}, o.Gives code ticket drawn →
      ¬(code = .allow ∨ code = .resumeAllowed) := fun gives hcode => by
    rw [allowed_of_gives gives hd hcode] at hrefused
    cases hrefused
  generalize he : (s.adoptFor op).epoch = e at effect
  cases effect with
  | @dispatchStuck k worker boot o hrec hstate gives =>
      obtain rfl : k = id := Option.some.inj htarget
      exact absurd (.dispatch hfind hcur hrec hstate) hleaks
  | @completeStuck t o auth hstate hlive hpre hresult hdigest gives =>
      obtain rfl : t.executionId = id := Option.some.inj htarget
      obtain rfl : s.epoch = e := he
      refine (store_eq_self_iff s r hfind).2 (ExecutionRecord.completeAttempt_eq_self_iff.2 ?_)
      intro a ha
      by_contra hnew
      refine hleaks (.complete hfind auth hstate hlive hpre hresult hdigest ha ?_)
      by_cases hda : a.resultDigest = some t.resultDigest
      · exact .inr (by simpa [hda] using hnew)
      · exact .inl hda
  | @cancelStuck req o auth hstate hlive hnew hflight gives =>
      obtain rfl : req.executionId = id := Option.some.inj htarget
      obtain rfl : s.epoch = e := he
      have hcount : r.cancellationGeneration.next = r.cancellationGeneration := by
        by_contra hne
        exact hleaks (.cancel hfind auth hstate hlive hnew hflight
          fun h => hne (Gen.next_eq_self_iff.2 h))
      refine (store_eq_self_iff s r hfind).2 ?_
      rw [hcount]
  | @supersedeStuck k o hrec hstate hlive gives =>
      obtain rfl : k = id := Option.some.inj htarget
      obtain rfl : s.epoch = e := he
      refine (store_eq_self_iff s r hfind).2 (ExecutionRecord.dropAuthority_eq_self_iff.2 ?_)
      by_contra hne
      exact hleaks (.supersede hfind hrec hstate hlive (not_and_or.1 hne))
  | resumed hrec hstate gives => exact absurd (.inr rfl) (hallowed gives)
  | activated hrec hstate gives => exact absurd (.inl rfl) (hallowed gives)
  | dispatched hrec hstate gives => exact absurd (.inl rfl) (hallowed gives)
  | started auth hstate gives => exact absurd (.inl rfl) (hallowed gives)
  | committed auth hstate hresult hdigest gives => exact absurd (.inl rfl) (hallowed gives)
  | cancelledEarly auth hstate gives => exact absurd (.inl rfl) (hallowed gives)
  | cancelRequested auth hstate gives => exact absurd (.inl rfl) (hallowed gives)
  | cancelFinalized hcur hrec hstate gives => exact absurd (.inl rfl) (hallowed gives)
  | preemptRequested auth hstate gives => exact absurd (.inl rfl) (hallowed gives)
  | preemptAcknowledged hcur hrec hstate gives => exact absurd (.inl rfl) (hallowed gives)
  | madeResumable hcur hrec hstate gives => exact absurd (.inl rfl) (hallowed gives)
  | lost hcur hrec hworker hboot hstate gives => exact absurd (.inl rfl) (hallowed gives)
  | superseded hrec hstate gives => exact absurd (.inl rfl) (hallowed gives)

end

/-- A rejected call changes nothing exactly when it is not on the list. -/
theorem rejected_unchanged_iff (s : ExecutionEngine) (c : Call) :
    (∀ d, (engine.out s c).decision = some d → d.allowed = false → engine.next s c = s) ↔
      ¬s.Leaks c.op := by
  obtain ⟨op, amb⟩ := c
  constructor
  · intro hunchanged leaks
    obtain ⟨d, hd, hrefused, hne⟩ := leaks.seen amb
    exact hne (hunchanged d hd hrefused)
  · intro hleaks d hd hrefused
    have heffects := step_effects s op amb
    generalize engine.out s ⟨op, amb⟩ = o at heffects hd
    generalize engine.next s ⟨op, amb⟩ = s' at heffects ⊢
    cases heffects with
    | raised e => cases hd
    | refused => rfl
    | adopted adopts refuses =>
        refine s.adoptEpoch_eq_self_iff.2 (not_lt.1 fun hlarger => ?_)
        exact hleaks (.adopts adopts hlarger)
    | repeated => rfl
    | created hcur hnew gives =>
        rw [allowed_of_gives gives hd (.inl rfl)] at hrefused
        cases hrefused
    | acted htarget hfind hcur effect =>
        exact effect_eq_self hfind htarget hcur hd hrefused hleaks effect

/-- Superseding a `CREATED` execution is rejected and takes its generation with it. -/
theorem rejected_changes :
    ¬∀ s, Reachable s → ∀ (c : Call) (d : Decision), (engine.out s c).decision = some d →
      d.allowed = false → engine.next s c = s := by
  intro hclaim
  let s := engine.run (init ⟨1⟩) [Sample.call (.create Sample.execution ⟨1⟩)]
  let c := Sample.call (.supersede Sample.execution ⟨1⟩)
  have hs : Reachable s := reachable_run _ _
  have hrejected : (engine.out s c).allowed = false ∧ (engine.out s c).decision.isSome = true := by
    decide +kernel
  obtain ⟨d, hd⟩ := Option.isSome_iff_exists.1 hrejected.2
  have hsame := hclaim s hs c d hd (by simpa [Outcome.allowed, hd] using hrejected.1)
  have hgeneration : ((engine.next s c).find Sample.execution).map (·.generation.value)
      ≠ (s.find Sample.execution).map (·.generation.value) := by
    decide +kernel
  exact hgeneration (by rw [hsame])

/-! ### Stale epochs -/

/-- What an engine is asked over its life: calls, and the installation of the
records that were recovered from disk. -/
inductive Request
  | call (c : Call)
  | replaceRecords (records : List ExecutionRecord)

/-- The engine with recovery. -/
def recoveringEngine : Machine ExecutionEngine Request Outcome where
  step s
    | .call c => s.step c
    | .replaceRecords records => (s.replaceRecords records, {})

theorem epoch_le_replaceRecords (s : ExecutionEngine) (records : List ExecutionRecord) :
    s.epoch ≤ (s.replaceRecords records).epoch := le_fold_max _ _

/-- A call with a stale epoch is refused and changes nothing. -/
theorem stale_refused {s : ExecutionEngine} {c : Call} (hstale : c.op.epoch < s.epoch) :
    (engine.out s c).allowed = false ∧ engine.next s c = s := by
  have hnot : ¬s.epoch ≤ c.op.epoch := not_le.2 hstale
  obtain ⟨op, amb⟩ := c
  have heffects := step_effects s op amb
  generalize engine.out s ⟨op, amb⟩ = o at heffects ⊢
  generalize engine.next s ⟨op, amb⟩ = s' at heffects ⊢
  cases heffects with
  | raised e => exact ⟨rfl, s.adoptEpoch_eq_self_iff.2 hstale.le⟩
  | refused refuses => exact ⟨refuses.allowed, rfl⟩
  | adopted adopts =>
      cases adopts with
      | create hcur => exact absurd hcur hnot
      | activate hcur => exact absurd hcur hnot
      | dispatch hcur => exact absurd hcur hnot
  | repeated repeats =>
      cases repeats with
      | cancel hfind auth => exact absurd auth.epoch.ge hnot
      | finalizeCancel hfind hcur => exact absurd hcur hnot
      | preempt hfind auth => exact absurd auth.epoch.ge hnot
  | created hcur => exact absurd hcur hnot
  | acted htarget hfind hcur => exact absurd hcur hnot

/-- Stale callers are powerless, and the epoch never goes back. -/
theorem stale_epoch_powerless :
    (∀ (s : ExecutionEngine) (c : Call), c.op.epoch < s.epoch →
      (engine.out s c).allowed = false ∧ engine.next s c = s) ∧
    ∀ (s t : ExecutionEngine) (h : List (Request × Outcome)),
      Runs recoveringEngine Always s h t → s.epoch ≤ t.epoch := by
  refine ⟨fun s c hstale => stale_refused hstale, fun s t h run => ?_⟩
  refine run.climbs fun s request _ => ?_
  cases request with
  | call c => exact epoch_le_next s c
  | replaceRecords records => exact epoch_le_replaceRecords s records

end ExecutionFabric
