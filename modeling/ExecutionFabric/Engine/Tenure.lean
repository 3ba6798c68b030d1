import ExecutionFabric.Engine.Issuance

/-!
How long a ticket is good for.

Between the issue of a ticket and its completion any calls may come, on this
execution and on others. What they mean for the ticket can be told from the
answers they got: `Tenure` is a small machine with a state for every way a
ticket can stand, `Move` is what an answer does to it, and `ticket_exact` says
that this machine decides, in every run, whether the start and the completion of
the ticket are accepted.

A request to cancel or to preempt does not end a tenure, its completion does.
Neither does the loss of the worker, for good: an execution that was lost before
the start is parked, and an accepted cancellation makes the ticket good again.
On the other hand, a dispatch in `RESUMING` and a supersession from a state that
does not lead there end a tenure although they are refused.
-/

namespace ExecutionFabric

open StepMachine ExecutionEngine ExecutionStateMachine History

/-- How a ticket stands. -/
inductive Tenure
  | waiting | resuming | running | cancelling | preempting | doubted | parked | gone
  deriving DecidableEq

/-- What an answered call does to the tickets of its execution. -/
inductive Move
  | start | cancel | preempt | lose | fence

/-- What is learnt about the tickets of the execution `id` from the answer to a call. -/
def Move.of? (id : ExecutionId) (ev : Call × Outcome) : Option Move :=
  if ev.1.op.target ≠ some id then none
  else
    match ev.1.op, ev.2.code? with
    | .markRunning _, some .allow => some start
    | .cancel _, some .allow => some cancel
    | .preempt _, some .allow => some preempt
    | .markWorkerLost .., some .allow => some lose
    | .dispatch .., some .allow => some fence
    | .dispatch .., some .rejectAlreadyTerminal => some fence
    | .resume .., some .resumeAllowed => some fence
    | .complete _, some .allow => some fence
    | .finalizeCancel .., some .allow => some fence
    | .acknowledgePreempt .., some .allow => some fence
    | .supersede .., some .allow => some fence
    | .supersede .., some .rejectAlreadyTerminal => some fence
    | _, _ => none

namespace Tenure

def move : Tenure → Move → Tenure
  | _, .fence => gone
  | waiting, .start | resuming, .start => running
  | waiting, .cancel | running, .cancel | parked, .cancel => cancelling
  | waiting, .preempt | running, .preempt => preempting
  | waiting, .lose => parked
  | running, .lose => doubted
  | cancelling, .lose | preempting, .lose => gone
  | t, _ => t

def moves (t : Tenure) : List Move → Tenure := List.foldl move t

/-- How the ticket stands that `op` gave out. -/
def first : Op → Tenure
  | .resume .. => resuming
  | _ => waiting

/-- The start of the ticket is accepted. -/
def starts (t : Tenure) : Bool := t ∈ [waiting, resuming]

/-- The completion of the ticket is accepted. -/
def completes (t : Tenure) : Bool := t ∈ [waiting, running, cancelling, preempting, doubted]

/-- The state of the execution of a ticket that stands so. -/
def state? : Tenure → Option ExecutionState
  | waiting => some .dispatched
  | resuming => some .resuming
  | running => some .running
  | cancelling => some .cancellationRequested
  | preempting => some .preemptionRequested
  | doubted => some .ambiguous
  | parked => some .ready
  | gone => none

/-- The tenure that belongs to a state. -/
def ofState : ExecutionState → Tenure
  | .dispatched => waiting
  | .resuming => resuming
  | .running => running
  | .cancellationRequested => cancelling
  | .preemptionRequested => preempting
  | .ambiguous => doubted
  | .ready => parked
  | _ => gone

theorem eq_ofState {t : Tenure} {st : ExecutionState} (h : t.state? = some st) :
    t = ofState st := by
  cases t <;> cases h <;> rfl

@[simp] theorem move_gone (m : Move) : gone.move m = gone := by cases m <;> rfl

theorem moves_append (t : Tenure) (ms more : List Move) :
    t.moves (ms ++ more) = (t.moves ms).moves more := List.foldl_append

variable {t : Tenure} {st : ExecutionState}

theorem starts_iff (h : t.state? = some st) :
    t.starts = true ↔ st = .dispatched ∨ st = .resuming := by
  cases t <;> simp only [state?, Option.some.injEq, reduceCtorEq] at h <;> subst h <;>
    simp [starts]

theorem completes_iff (h : t.state? = some st) :
    t.completes = true ↔ fromTo st .completed = true := by
  cases t <;> simp only [state?, Option.some.injEq, reduceCtorEq] at h <;> subst h <;>
    simp [completes, fromTo]

theorem live_of_state? (h : t.state? = some st) : isTerminal st = false := by
  cases t <;> simp only [state?, Option.some.injEq, reduceCtorEq] at h <;> subst h <;> rfl

end Tenure

/-- How a ticket stands that was given out by `op`, after the answers in `h`. -/
def tenure (id : ExecutionId) (op : Op) (h : History) : Tenure :=
  (Tenure.first op).moves (h.filterMap (Move.of? id))

theorem tenure_snoc (id : ExecutionId) (op : Op) (h : History) (ev : Call × Outcome) :
    tenure id op (h ++ [ev]) = (tenure id op h).moves (Move.of? id ev).toList := by
  rw [tenure, List.filterMap_append, Tenure.moves_append, tenure]
  cases hmove : Move.of? id ev <;> simp [hmove]

/-! ### One step -/

/-- The record says about the ticket `T` what its tenure says. -/
structure Tenure.Fits (t : Tenure) (T : DispatchTicket) (r : ExecutionRecord) : Prop where
  gone : t = .gone → r.currentAttemptId = some T.attemptId → r.state.spent = true
  held : t ≠ .gone → t.state? = some r.state ∧ r.authority = T.authority ∧
    ∀ a ∈ r.lineage, a.id = T.attemptId → a.dispatchId = T.dispatchId

section

variable {e : CoordinatorEpoch} {amb : Ambient} {r r' : ExecutionRecord} {op : Op} {o : Outcome}
  {id : ExecutionId} {t : Tenure} {T : DispatchTicket}

/-- A tenure goes on as long as authority and lineage are kept. -/
theorem Tenure.Fits.keep {t' : Tenure} (hfits : t.Fits T r) (hon : t ≠ .gone) (hon' : t' ≠ .gone)
    (hstate : t'.state? = some r'.state) (hauth : r'.authority = r.authority)
    (hlineage : r'.lineage = r.lineage) : t'.Fits T r' where
  gone h := absurd h hon'
  held _ := ⟨hstate, hauth.trans (hfits.held hon).2.1, hlineage ▸ (hfits.held hon).2.2⟩

theorem Tenure.Fits.ended (hgone : r'.currentAttemptId = some T.attemptId → r'.state.spent = true) :
    Tenure.gone.Fits T r' where
  gone _ := hgone
  held h := absurd rfl h

/-- An effect on the record moves the tenure as its answer says. -/
theorem Effect.tenure (effect : Effect e amb r op o r') (htarget : op.target = some id)
    (hnew : ∀ x, o.drawn = some x → x.1 ≠ T.attemptId) (hfits : t.Fits T r) :
    (t.moves (Move.of? id (⟨op, amb⟩, o)).toList).Fits T r' := by
  by_cases hgone : t = .gone
  · subst hgone
    have hstays : Tenure.gone.moves (Move.of? id (⟨op, amb⟩, o)).toList = .gone := by
      cases Move.of? id (⟨op, amb⟩, o) <;> simp [Tenure.moves]
    rw [hstays]
    exact .ended fun hcurrent => effect.spent hnew (hfits.gone rfl) hcurrent
  obtain ⟨hstate, hauth, hlineage⟩ := hfits.held hgone
  have hwas : ∀ {st}, r.state = st → t = .ofState st := fun h =>
    Tenure.eq_ofState (hstate.trans (congrArg some h))
  have hlive := Tenure.live_of_state? hstate
  -- what the answer says
  have hmoves : ∀ m, Move.of? id (⟨op, amb⟩, o) = some m →
      t.moves (Move.of? id (⟨op, amb⟩, o)).toList = t.move m := fun m h => by rw [h]; rfl
  have hsilent : Move.of? id (⟨op, amb⟩, o) = none →
      t.moves (Move.of? id (⟨op, amb⟩, o)).toList = t := fun h => by rw [h]; rfl
  have hends : Move.of? id (⟨op, amb⟩, o) = some .fence →
      (r'.currentAttemptId = some T.attemptId → r'.state.spent = true) →
      (t.moves (Move.of? id (⟨op, amb⟩, o)).toList).Fits T r' := fun h hspent => by
    rw [hmoves _ h, show t.move .fence = .gone by cases t <;> rfl]
    exact .ended hspent
  cases effect with
  | activated hrec hst gives => exact absurd (hwas hst) hgone
  | dispatched hrec hst gives =>
      refine hends (by simp [Move.of?, htarget, gives.code]) fun hcurrent => ?_
      exact absurd (Option.some.inj hcurrent) (hnew _ gives.drawn)
  | dispatchStuck hrec hst gives =>
      refine hends (by simp [Move.of?, htarget, gives.code]) fun hcurrent => ?_
      exact absurd (Option.some.inj hcurrent) (hnew _ gives.drawn)
  | resumed hrec hst gives =>
      refine hends (by simp [Move.of?, htarget, gives.code]) fun hcurrent => ?_
      exact absurd (Option.some.inj hcurrent) (hnew _ gives.drawn)
  | started auth hst gives =>
      rw [hmoves .start (by simp [Move.of?, htarget, gives.code])]
      rcases hst with h | h <;> obtain rfl := hwas h
      · exact hfits.keep hgone (by decide) rfl rfl (r.lineage_startAttempt _)
      · exact hfits.keep hgone (by decide) rfl rfl (r.lineage_startAttempt _)
  | committed auth hst hresult hdigest gives =>
      exact hends (by simp [Move.of?, htarget, gives.code]) fun _ => rfl
  | completeStuck auth hst hlive' hpre hresult hdigest gives =>
      rw [hsilent (by simp [Move.of?, htarget, gives.code])]
      exact hfits.keep hgone hgone hstate rfl (r.lineage_completeAttempt _ _)
  | cancelledEarly auth hst gives => exact absurd (hwas hst) hgone
  | cancelRequested auth hst gives =>
      rw [hmoves .cancel (by simp [Move.of?, htarget, gives.code])]
      have hor : r.state = .ready ∨ r.state = .dispatched ∨ r.state = .running := by
        simpa [ExecutionState.cancellable] using hst
      rcases hor with h | h | h <;> obtain rfl := hwas h
      · exact hfits.keep hgone (by decide) rfl rfl rfl
      · exact hfits.keep hgone (by decide) rfl rfl rfl
      · exact hfits.keep hgone (by decide) rfl rfl rfl
  | cancelStuck auth hst hlive' hnew' hflight gives =>
      rw [hsilent (by simp [Move.of?, htarget, gives.code])]
      exact hfits.keep hgone hgone hstate rfl rfl
  | cancelFinalized hcur hrec hst gives =>
      exact hends (by simp [Move.of?, htarget, gives.code]) fun _ => rfl
  | preemptRequested auth hst gives =>
      rw [hmoves .preempt (by simp [Move.of?, htarget, gives.code])]
      rcases hst with h | h <;> obtain rfl := hwas h
      · exact hfits.keep hgone (by decide) rfl rfl rfl
      · exact hfits.keep hgone (by decide) rfl rfl rfl
  | preemptAcknowledged hcur hrec hst gives =>
      exact hends (by simp [Move.of?, htarget, gives.code]) fun _ => rfl
  | madeResumable hcur hrec hst gives => exact absurd (hwas hst) hgone
  | lost hcur hrec hworker hboot hst gives =>
      rw [hmoves .lose (by simp [Move.of?, htarget, gives.code])]
      rcases ExecutionState.lossTarget_cases hst with ⟨h, rfl⟩ | ⟨h, rfl⟩ | ⟨h, rfl⟩ | ⟨h, rfl⟩ <;>
        obtain rfl := hwas h
      · exact hfits.keep hgone (by decide) rfl rfl r.lineage_loseCurrent
      · exact hfits.keep hgone (by decide) rfl rfl r.lineage_loseCurrent
      · exact .ended fun _ => rfl
      · exact .ended fun _ => rfl
  | superseded hrec hst gives =>
      exact hends (by simp [Move.of?, htarget, gives.code]) fun hcurrent => by cases hcurrent
  | supersedeStuck hrec hst hlive' gives =>
      exact hends (by simp [Move.of?, htarget, gives.code]) fun hcurrent => by cases hcurrent

end

/-! ### Refusals -/

section

variable {s : ExecutionEngine} {c : Call} {id : ExecutionId} {r : ExecutionRecord} {t : Tenure}
  {T : DispatchTicket}

/-- A dispatch that is refused for the state of a live record has drawn an attempt. -/
theorem dispatch_drawn {amb : Ambient} {worker : WorkerId} {boot : WorkerBootId}
    {e : CoordinatorEpoch} {i : Issue} (hfind : s.find id = some r)
    (hlive : isTerminal r.state = false) (hi : s.dispatch amb id worker boot e = .ok i)
    (hcode : i.decision.code = .rejectAlreadyTerminal) : i.drawn ≠ none := by
  have hnot : ¬(r.state = .failed ∨ r.state = .superseded ∨ r.state = .terminal) := by
    rintro (h | h | h) <;> rw [h] at hlive <;> cases hlive
  unfold dispatch at hi
  simp only [hfind, if_neg hnot, Except.ok.injEq] at hi
  subst hi
  revert hcode
  split_ifs <;> first | exact fun _ => Option.some_ne_none _ | exact nofun

/-- A supersession that is refused for the state of a live record has dropped its authority. -/
theorem supersede_drops {e : CoordinatorEpoch} (hfind : s.find id = some r)
    (hlive : isTerminal r.state = false)
    (hcode : (s.supersede id e).1.code = .rejectAlreadyTerminal) :
    ∃ r', (s.supersede id e).2.find id = some r' ∧ r'.currentAttemptId = none := by
  unfold supersede at hcode ⊢
  simp only [hfind, hlive, Bool.false_eq_true, false_and, if_false] at hcode ⊢
  split at hcode
  · cases hcode
  · rename_i hcur
    rw [if_neg hcur, find_store_self]
    refine ⟨_, rfl, ?_⟩
    unfold transition
    split <;> rfl

theorem dispatch_not_stuck {amb : Ambient} {worker : WorkerId} {boot : WorkerBootId}
    {e : CoordinatorEpoch} (hfind : s.find id = some r) (hlive : isTerminal r.state = false)
    (refuses : (engine.out s ⟨.dispatch id worker boot e, amb⟩).Refuses) :
    (engine.out s ⟨.dispatch id worker boot e, amb⟩).code? ≠ some .rejectAlreadyTerminal := by
  intro hcode
  cases hi : s.dispatch amb id worker boot e with
  | error _ =>
      have hout : engine.out s ⟨.dispatch id worker boot e, amb⟩ = { threw := true } := by
        simp only [Machine.out, engine, step, hi]
      rw [hout] at hcode
      cases hcode
  | ok i =>
      have hout : engine.out s ⟨.dispatch id worker boot e, amb⟩ =
          { decision := some i.decision, ticket := i.ticket, drawn := i.drawn } := by
        simp only [Machine.out, engine, step, hi, issued]
      rw [hout] at hcode refuses
      exact dispatch_drawn hfind hlive hi (Option.some.inj hcode) refuses.drawn

theorem supersede_not_stuck {amb : Ambient} {e : CoordinatorEpoch} (hfind : s.find id = some r)
    (hlive : isTerminal r.state = false) (hcurrent : r.currentAttemptId ≠ none)
    (hkept : (engine.next s ⟨.supersede id e, amb⟩).find id = some r) :
    (engine.out s ⟨.supersede id e, amb⟩).code? ≠ some .rejectAlreadyTerminal := by
  intro hcode
  obtain ⟨r', hfind', hnone⟩ := supersede_drops hfind hlive (Option.some.inj hcode)
  exact hcurrent (Option.some.inj (hkept.symm.trans hfind') ▸ hnone)

/-- A refusal that leaves a live record as it was says nothing about its tickets. -/
theorem Move.of_refused (hfind : s.find id = some r) (hlive : isTerminal r.state = false)
    (hcurrent : r.currentAttemptId ≠ none) (hkept : (engine.next s c).find id = some r)
    (refuses : (engine.out s c).Refuses) : Move.of? id (c, engine.out s c) = none := by
  obtain ⟨op, amb⟩ := c
  have hallow := refuses.code
  have hresume : (engine.out s ⟨op, amb⟩).code? ≠ some .resumeAllowed := fun h => by
    have hallowed := Outcome.allowed_of_code h (.inr rfl)
    rw [refuses.allowed] at hallowed
    cases hallowed
  unfold Move.of?
  split
  · rfl
  · rename_i htarget
    have htarget : op.target = some id := not_not.1 htarget
    dsimp only
    split
    all_goals first
      | rfl
      | exact absurd (by assumption) hallow
      | exact absurd (by assumption) hresume
      | skip
    · rename_i hcode
      obtain rfl := Option.some.inj htarget
      exact absurd hcode (dispatch_not_stuck hfind hlive refuses)
    · rename_i hcode
      obtain rfl := Option.some.inj htarget
      exact absurd hcode (supersede_not_stuck hfind hlive hcurrent hkept)

/-- A call that asks for what is under way says nothing new. -/
theorem Tenure.move_repeats (hfind : s.find id = some r) (hstate : t.state? = some r.state)
    (htarget : c.op.target = some id) (repeats : s.Repeats c.op)
    (gives : (engine.out s c).Gives .allow none none) {m : Move}
    (hm : Move.of? id (c, engine.out s c) = some m) : t.move m = t := by
  obtain ⟨op, amb⟩ := c
  generalize engine.out s ⟨op, amb⟩ = o at gives hm
  have hfound : ∀ {k r'}, op.target = some k → s.find k = some r' → r' = r := fun hk hr' => by
    obtain rfl := Option.some.inj (hk.symm.trans htarget)
    exact Option.some.inj (hr'.symm.trans hfind)
  cases repeats with
  | cancel hr' auth hst =>
      obtain rfl := hfound rfl hr'
      obtain rfl := eq_ofState (hstate.trans (congrArg some hst))
      obtain rfl : Move.cancel = m := by simpa [Move.of?, htarget, gives.code] using hm
      rfl
  | finalizeCancel hr' hcur hst =>
      obtain rfl := hfound rfl hr'
      have hlive := live_of_state? hstate
      rw [hst] at hlive
      cases hlive
  | preempt hr' auth hst =>
      obtain rfl := hfound rfl hr'
      obtain rfl := eq_ofState (hstate.trans (congrArg some hst))
      obtain rfl : Move.preempt = m := by simpa [Move.of?, htarget, gives.code] using hm
      rfl

/-- A call that leaves the record as it was leaves the tenure as it was. -/
theorem Tenure.Fits.idle (hfits : t.Fits T r) (hfind : s.find id = some r)
    (hkept : (engine.next s c).find id = some r)
    (hquiet : c.op.target = some id → (engine.out s c).Refuses ∨
      (s.Repeats c.op ∧ (engine.out s c).Gives .allow none none)) :
    (t.moves (Move.of? id (c, engine.out s c)).toList).Fits T r := by
  have hsame : ∀ m ∈ Move.of? id (c, engine.out s c), t.move m = t := by
    intro m hm
    by_cases hgone : t = .gone
    · rw [hgone, move_gone]
    obtain ⟨hstate, hauth, -⟩ := hfits.held hgone
    by_cases htarget : c.op.target = some id
    · rcases hquiet htarget with refuses | ⟨repeats, gives⟩
      · have hcurrent : r.currentAttemptId ≠ none := by
          rw [show r.currentAttemptId = some T.attemptId from congrArg (·.attempt) hauth]
          exact Option.some_ne_none _
        rw [Move.of_refused hfind (live_of_state? hstate) hcurrent hkept refuses] at hm
        cases hm
      · exact move_repeats hfind hstate htarget repeats gives hm
    · rw [Move.of?, if_pos htarget] at hm
      cases hm
  cases hm : Move.of? id (c, engine.out s c) with
  | none => exact hfits
  | some m =>
      rw [show t.moves (some m).toList = t from hsame m hm]
      exact hfits

/-! ### Runs -/

/-- A call moves the tenure of a ticket as its answer says, as long as it does not
draw the attempt again. -/
theorem Tenure.Fits.next (hfits : t.Fits T r) (hfind : s.find id = some r)
    (hnew : ∀ x, (engine.out s c).drawn = some x → x.1 ≠ T.attemptId) :
    ∃ r', (engine.next s c).find id = some r' ∧
      (t.moves (Move.of? id (c, engine.out s c)).toList).Fits T r' := by
  have hview := step_view s c id
  rw [hfind] at hview
  generalize hfind' : (engine.next s c).find id = x at hview
  cases hview with
  | idle hquiet => exact ⟨r, rfl, hfits.idle hfind hfind' hquiet⟩
  | acted htarget hcur effect => exact ⟨_, rfl, effect.tenure htarget hnew hfits⟩

/-- An effect that issues a ticket begins its tenure. -/
theorem Effect.first {e : CoordinatorEpoch} {amb : Ambient} {r r' : ExecutionRecord} {op : Op}
    {o : Outcome} (effect : Effect e amb r op o r') (hticket : o.ticket = some T) :
    (Tenure.first op).state? = some r'.state ∧ r'.authority = T.authority := by
  have hdrawn := (effect.issued hticket).1
  cases effect.drawing (by rw [hdrawn]; exact Option.some_ne_none _) with
  | stray _ _ _ hnone => exact absurd (hnone.symm.trans hticket) nofun
  | issued worker boot hmade _ hauth _ hcode =>
      obtain rfl := Option.some.inj (hmade.symm.trans hticket)
      refine ⟨?_, hauth⟩
      rcases hcode with ⟨hallow, id, rfl⟩ | ⟨-, id, gen, rfl⟩
      · cases effect with
        | dispatched => rfl
        | dispatchStuck hrec hst gives => exact absurd hallow (gives.not_allows (by decide))
      · cases effect with
        | resumed => rfl

variable {e₀ : CoordinatorEpoch} {h₁ h₂ : History} {s₁ s₂ : ExecutionEngine} {c₁ : Call}

theorem issued_fits (run₁ : Runs engine Always (init e₀) h₁ s₁)
    (hissued : (engine.out s₁ c₁).ticket = some T)
    (hfresh : FreshAttempts (h₁ ++ [(c₁, engine.out s₁ c₁)])) :
    ∃ r, (engine.next s₁ c₁).find T.executionId = some r ∧
      (Tenure.first c₁.op).Fits T r := by
  have hs := reachable_of_runs run₁
  obtain ⟨id, r, htarget, hfind, hid, -⟩ := drawn_of_ticket hissued
  obtain rfl : T.executionId = id := hid.trans (hs.keyed hfind).1
  have hview := step_view s₁ c₁ T.executionId
  rw [hfind] at hview
  generalize hfind' : (engine.next s₁ c₁).find T.executionId = x at hview
  cases hview with
  | idle hquiet =>
      rcases hquiet htarget with refuses | ⟨-, gives⟩
      · exact absurd (refuses.ticket.symm.trans hissued) nofun
      · exact absurd (gives.ticket.symm.trans hissued) nofun
  | @acted _ r' _ hcur effect =>
      obtain ⟨hstate, hauth⟩ := effect.first hissued
      refine ⟨r', rfl, ?_, ?_⟩
      · intro hgone
        rw [hgone] at hstate
        cases hstate
      · refine fun _ => ⟨hstate, hauth, fun a ha hsame => ?_⟩
        -- every attempt of the record was drawn, and this one once
        have hdrawn := drawn_of_runs (run₁.snoc c₁ trivial) _ _ hfind' a ha
        have hdraw : (T.executionId, T.attemptId, T.dispatchId) ∈
            draws (h₁ ++ [(c₁, engine.out s₁ c₁)]) := by
          rw [draws_append, draws_one, ticket_drawn hs hissued]
          exact List.mem_append_right _ (List.mem_singleton_self _)
        exact congrArg (·.2.2) (hfresh.owner hdrawn hdraw hsame)

/-- The machine follows the record, over the whole run. -/
theorem tenure_fits (run₁ : Runs engine Always (init e₀) h₁ s₁)
    (hissued : (engine.out s₁ c₁).ticket = some T)
    (run₂ : Runs engine Always (engine.next s₁ c₁) h₂ s₂)
    (hfresh : FreshAttempts (h₁ ++ [(c₁, engine.out s₁ c₁)] ++ h₂)) :
    ∃ r, s₂.find T.executionId = some r ∧ (tenure T.executionId c₁.op h₂).Fits T r := by
  induction run₂ with
  | refl => exact issued_fits run₁ hissued hfresh.left
  | @snoc h₂ s₂ run₂ c _ ih =>
      rw [← List.append_assoc] at hfresh
      obtain ⟨r, hr, hfits⟩ := ih hfresh.left
      have hdraw : (T.executionId, T.attemptId, T.dispatchId) ∈
          draws (h₁ ++ [(c₁, engine.out s₁ c₁)] ++ h₂) := by
        rw [draws_append, draws_append, draws_one, ticket_drawn (reachable_of_runs run₁) hissued]
        exact List.mem_append_left _ (List.mem_append_right _ (List.mem_singleton_self _))
      have hnew : ∀ x, (engine.out s₂ c).drawn = some x → x.1 ≠ T.attemptId := fun x hx =>
        drawn_ne hfresh hdraw hx (target_of_drawn hx)
      rw [tenure_snoc]
      exact hfits.next hr hnew

/-! ### Exactly -/

/-- The identifiers that the caller of the issuing call chose are not nil. -/
def DispatchTicket.Addressed (T : DispatchTicket) : Prop :=
  T.executionId.isNil = false ∧ T.workerId.isNil = false ∧ T.workerBootId.isNil = false

instance (T : DispatchTicket) : Decidable T.Addressed := inferInstanceAs (Decidable (_ ∧ _))

/-- The epoch of the ticket is that of the engine, and that under which its
execution was created. -/
def ExecutionEngine.Current (s : ExecutionEngine) (T : DispatchTicket) : Prop :=
  T.epoch = s.epoch ∧ some T.epoch = (s.find T.executionId).map (·.coordinatorEpoch)

instance (s : ExecutionEngine) (T : DispatchTicket) : Decidable (s.Current T) :=
  inferInstanceAs (Decidable (_ ∧ _))

/-- What the completion checks ask of a record whose authority is the ticket's. -/
theorem Tenure.Fits.completion (hfits : t.Fits T r) (hon : t ≠ .gone) (hshaped : r.Shaped)
    {e : CoordinatorEpoch} (digest : ResultDigest) :
    CompletionAuthorised e r (T.completion digest) ↔
      T.Addressed ∧ T.epoch = e ∧ T.epoch = r.coordinatorEpoch := by
  obtain ⟨-, hauth, hlineage⟩ := hfits.held hon
  constructor
  · intro auth
    exact ⟨⟨auth.identified.1, auth.identified.2.2.1, auth.identified.2.2.2.1⟩, auth.epoch,
      auth.recordEpoch⟩
  · rintro ⟨⟨hid, hworker, hboot⟩, hepoch, hrec⟩
    -- the attempt behind the authority was made as attempts are made
    have hcurrent : r.currentAttemptId = some T.attemptId := congrArg (·.attempt) hauth
    obtain ⟨a, ha, hlast, held⟩ := (hshaped.holding.held hcurrent).current
    have hmade := hshaped.made _ (ExecutionRecord.ident_mem_lineage ha)
    have hsame : a.id = T.attemptId := Option.some.inj (held.attempt.symm.trans hcurrent)
    have hgeneration : a.generation = T.attemptGeneration := Option.some.inj
      (held.attemptGeneration.symm.trans (congrArg (·.attemptGeneration) hauth))
    have hownership : r.ownershipGeneration = T.ownershipGeneration :=
      congrArg (·.ownership) hauth
    have hfence : r.fenceGeneration = T.fenceGeneration := congrArg (·.fence) hauth
    have hexecution : r.generation = T.executionGeneration := congrArg (·.generation) hauth
    have hdispatch := hlineage _ (ExecutionRecord.ident_mem_lineage ha) hsame
    have hids : T.attemptId.isNil = false ∧ T.dispatchId.isNil = false := by
      rw [← hsame, ← hdispatch]
      exact ⟨hmade.id, hmade.dispatchId⟩
    have hcounters : T.attemptGeneration.isSet = true ∧ T.executionGeneration.isSet = true ∧
        T.ownershipGeneration.isSet = true ∧ T.fenceGeneration.isSet = true := by
      rw [← hgeneration, ← hexecution, ← hownership, ← hfence, show r.ownershipGeneration = _ from
        held.ownership, show r.fenceGeneration = _ from held.fence]
      exact ⟨hmade.generation, hshaped.generation, hmade.ownership, hmade.fence⟩
    exact
      { identified := ⟨hid, hids.1, hworker, hboot, hids.2⟩
        counted := hcounters
        epoch := hepoch
        recordEpoch := hrec
        generation := hexecution.symm
        attempt := hcurrent
        attemptGeneration := congrArg (·.attemptGeneration) hauth
        worker := congrArg (·.worker) hauth
        boot := congrArg (·.boot) hauth
        ownership := hownership.symm
        fence := hfence.symm
        dispatch := ExecutionRecord.dispatch_check_iff.2 hlineage }

/-- And the start checks. -/
theorem Tenure.Fits.startable (hfits : t.Fits T r) (hon : t ≠ .gone) {e : CoordinatorEpoch} :
    StartAuthorised e r T.start ↔ T.epoch = e := by
  obtain ⟨-, hauth, -⟩ := hfits.held hon
  refine ⟨fun auth => auth.epoch, fun hepoch => ?_⟩
  exact
    { epoch := hepoch
      generation := (congrArg (·.generation) hauth).symm
      attempt := congrArg (·.attempt) hauth
      attemptGeneration := congrArg (·.attemptGeneration) hauth
      worker := congrArg (·.worker) hauth
      boot := congrArg (·.boot) hauth
      ownership := (congrArg (·.ownership) hauth).symm
      fence := (congrArg (·.fence) hauth).symm }

theorem Tenure.Fits.start_iff (hfits : t.Fits T r) (hfind : s.find T.executionId = some r)
    (amb : Ambient) : (engine.out s ⟨.markRunning T.start, amb⟩).allows ↔
      T.epoch = s.epoch ∧ t.starts = true := by
  rw [start_allows_iff]
  by_cases hgone : t = .gone
  · subst hgone
    refine ⟨?_, fun h => absurd h.2 (by decide)⟩
    rintro ⟨r', hr', auth, hstate⟩
    obtain rfl := Option.some.inj (hfind.symm.trans hr')
    have hspent := hfits.gone rfl auth.attempt
    rcases hstate with h | h <;> rw [h] at hspent <;> cases hspent
  · rw [t.starts_iff (hfits.held hgone).1, ← hfits.startable hgone]
    constructor
    · rintro ⟨r', hr', auth, hstate⟩
      obtain rfl := Option.some.inj (hfind.symm.trans hr')
      exact ⟨auth, hstate⟩
    · rintro ⟨auth, hstate⟩
      exact ⟨r, hfind, auth, hstate⟩

theorem Tenure.Fits.complete_iff (hfits : t.Fits T r) (hfind : s.find T.executionId = some r)
    (hshaped : r.Shaped) (digest : ResultDigest) (amb : Ambient) :
    (engine.out s ⟨.complete (T.completion digest), amb⟩).allows ↔
      T.Addressed ∧ digest.isNil = false ∧ s.Current T ∧ t.completes = true := by
  rw [complete_allows_iff]
  by_cases hgone : t = .gone
  · subst hgone
    refine ⟨?_, fun h => absurd h.2.2.2 (by decide)⟩
    rintro ⟨r', hr', auth, hcompletes, -⟩
    obtain rfl := Option.some.inj (hfind.symm.trans hr')
    have hspent := hfits.gone rfl auth.attempt
    revert hcompletes hspent
    cases r.state <;> simp [ExecutionState.spent, fromTo, isTerminal]
  · rw [t.completes_iff (hfits.held hgone).1]
    have hauth := fun e => hfits.completion hgone hshaped (e := e) digest
    constructor
    · rintro ⟨r', hr', auth, hstate, -, hdigest⟩
      obtain rfl := Option.some.inj (hfind.symm.trans hr')
      obtain ⟨hids, hepoch, hrecord⟩ := (hauth _).1 auth
      exact ⟨hids, hdigest, ⟨hepoch, by rw [hfind]; exact congrArg some hrecord⟩, hstate⟩
    · rintro ⟨hids, hdigest, ⟨hepoch, hrecord⟩, hstate⟩
      rw [hfind] at hrecord
      exact ⟨r, hfind, (hauth _).2 ⟨hids, hepoch, Option.some.inj hrecord⟩, hstate, rfl, hdigest⟩

end

/-- In every run, and whatever was called since a ticket was issued: its start is
accepted exactly when the epoch is still the ticket's and the answers since then
left it one to be started, and its completion exactly when they left it one to be
completed, under an epoch that is also the one the execution was created under. -/
theorem ticket_exact {e₀ : CoordinatorEpoch} {h₁ h₂ : History} {s₁ s₂ : ExecutionEngine}
    {c₁ : Call} {T : DispatchTicket} (run₁ : Runs engine Always (init e₀) h₁ s₁)
    (hissued : (engine.out s₁ c₁).ticket = some T)
    (run₂ : Runs engine Always (engine.next s₁ c₁) h₂ s₂)
    (hfresh : FreshAttempts (h₁ ++ [(c₁, engine.out s₁ c₁)] ++ h₂)) (amb : Ambient) :
    ((engine.out s₂ ⟨.markRunning T.start, amb⟩).allows ↔
        T.epoch = s₂.epoch ∧ (tenure T.executionId c₁.op h₂).starts = true) ∧
      ∀ digest, (engine.out s₂ ⟨.complete (T.completion digest), amb⟩).allows ↔
        T.Addressed ∧ digest.isNil = false ∧ s₂.Current T ∧
          (tenure T.executionId c₁.op h₂).completes = true := by
  obtain ⟨r, hr, hfits⟩ := tenure_fits run₁ hissued run₂ hfresh
  have hshaped := (reachable_of_runs ((run₁.snoc c₁ trivial).trans run₂)).shaped hr
  exact ⟨hfits.start_iff hr amb, fun digest => hfits.complete_iff hr hshaped digest amb⟩

/-- The worker is lost before the start, and a cancellation that is accepted then
makes its ticket good again. -/
theorem ticket_parked :
    (engine.out
      (engine.next (engine.next (engine.run (init ⟨1⟩) Sample.dispatching) Sample.losing)
        Sample.cancelling)
      (Sample.call (.complete ((Sample.ticket 10).completion (Sample.digest 7))))).allows := by
  have run₁ : Runs engine Always (init ⟨1⟩) (engine.trace (init ⟨1⟩) Sample.readying)
      (engine.run (init ⟨1⟩) Sample.readying) := runs_always _ _ _
  have hissued : (engine.out (engine.run (init ⟨1⟩) Sample.readying)
      (Sample.call (.dispatch Sample.execution Sample.worker Sample.boot ⟨1⟩) 10)).ticket
      = some (Sample.ticket 10) := by decide +kernel
  have run₂ : Runs engine Always (engine.run (init ⟨1⟩) Sample.dispatching) _ _ :=
    (Runs.one Sample.losing trivial).snoc Sample.cancelling trivial
  exact ((ticket_exact run₁ hissued run₂ (by decide +kernel) _).2 (Sample.digest 7)).2
    ⟨by decide +kernel, by decide +kernel, by decide +kernel, by decide +kernel⟩

end ExecutionFabric
