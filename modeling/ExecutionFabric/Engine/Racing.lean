import ExecutionFabric.Engine.Revocation

/-!
A completion racing a cancellation or a preemption.

The race is decided by what arrives first: the completion, or the end of the
control operation. A request on its own changes neither the authority of the
record nor whether its state leads to a commit, so that a pending one does not
touch the completion (`completion_race`, first part). Once the cancellation is
finalized or the preemption acknowledged, the attempt is dead.
-/

namespace ExecutionFabric

open StepMachine ExecutionEngine ExecutionStateMachine History

/-- The two control operations that a completion can race. -/
inductive Control
  | cancellation | preemption

namespace Control

/-- The call that asks for it. -/
def request : Control → ControlRequest → Op
  | cancellation => .cancel
  | preemption => .preempt

/-- The call that ends it. -/
def finish : Control → ExecutionId → CoordinatorEpoch → Op
  | cancellation => .finalizeCancel
  | preemption => .acknowledgePreempt

end Control

section

variable {s : ExecutionEngine} {id : ExecutionId} {r : ExecutionRecord} {t : CompletionTicket}

/-- What a request leaves of a record that is dispatched or running. -/
structure StillOpen (r r' : ExecutionRecord) : Prop where
  authority : r'.authority = r.authority
  recordEpoch : r'.coordinatorEpoch = r.coordinatorEpoch
  lineage : r'.lineage = r.lineage
  completes : fromTo r'.state .completed = fromTo r.state .completed

/-- A request leaves every record open that was open, and no other. -/
theorem request_keeps (k : Control) {req : ControlRequest} (hfind : s.find req.executionId = some r)
    (hstate : r.state = .dispatched ∨ r.state = .running) (amb : Ambient) (id : ExecutionId) :
    Option.Rel StillOpen (s.find id) ((engine.next s ⟨k.request req, amb⟩).find id) := by
  have hsame : ∀ x : Option ExecutionRecord, Option.Rel StillOpen x x := by
    intro x
    cases x with
    | none => exact .none
    | some r => exact .some ⟨rfl, rfl, rfl, rfl⟩
  have htarget : (k.request req).target = some req.executionId := by cases k <;> rfl
  by_cases hid : id = req.executionId
  · subst hid
    have hview := step_view s ⟨k.request req, amb⟩ req.executionId
    rw [hfind] at hview ⊢
    generalize (engine.next s ⟨k.request req, amb⟩).find req.executionId = y at hview ⊢
    cases hview with
    | idle => exact hsame _
    | acted _ _ effect =>
        have hcan : r.state.cancellable = true := by rcases hstate with h | h <;> rw [h] <;> rfl
        have hcompletes : fromTo r.state .completed = true := by
          rcases hstate with h | h <;> rw [h] <;> rfl
        cases k with
        | cancellation =>
            cases effect with
            | cancelledEarly auth hnew => rcases hstate with h | h <;> rw [h] at hnew <;> cases hnew
            | cancelRequested => exact .some ⟨rfl, rfl, rfl, hcompletes.symm⟩
            | cancelStuck auth hnot => exact absurd (hnot.symm.trans hcan) (by decide)
        | preemption =>
            cases effect with
            | preemptRequested => exact .some ⟨rfl, rfl, rfl, hcompletes.symm⟩
  · have hother : (k.request req).target ≠ some id := by
      rw [htarget]
      exact fun h => hid (Option.some.inj h).symm
    rw [find_next_of_ne (c := ⟨k.request req, amb⟩) hother]
    exact hsame _

/-- Where every record is as open as before, so is every completion. -/
theorem complete_allows_of_stillOpen {s s' : ExecutionEngine} (amb : Ambient)
    (hepoch : s'.epoch = s.epoch)
    (hrel : Option.Rel StillOpen (s.find t.executionId) (s'.find t.executionId)) :
    (engine.out s' ⟨.complete t, amb⟩).allows ↔ (engine.out s ⟨.complete t, amb⟩).allows := by
  rw [complete_allows_iff, complete_allows_iff, hepoch]
  generalize s.find t.executionId = x at hrel
  generalize s'.find t.executionId = y at hrel
  cases hrel with
  | none => simp
  | some hopen =>
      simp only [Option.some.injEq, exists_eq_left', hopen.completes]
      refine and_congr_left' ⟨fun auth => ?_, fun auth => ?_⟩
      · exact auth.of_kept hopen.authority.symm hopen.recordEpoch.symm hopen.lineage.symm
      · exact auth.of_kept hopen.authority hopen.recordEpoch hopen.lineage

end

/-! ### Before and after the request -/

/-- The completion `t` is accepted in `s'` exactly where it was in `s`, and
commits its result there. -/
structure StillCommits (s s' : ExecutionEngine) (t : CompletionTicket) (amb : Ambient) : Prop where
  allows : (engine.out s' ⟨.complete t, amb⟩).allows ↔ (engine.out s ⟨.complete t, amb⟩).allows
  commits : (engine.out s ⟨.complete t, amb⟩).allows → ∃ r r',
    (engine.next s ⟨.complete t, amb⟩).find t.executionId = some r ∧ r.state = .committed ∧
    (engine.next s' ⟨.complete t, amb⟩).find t.executionId = some r' ∧ r'.state = .committed ∧
    r'.committedDigest = r.committedDigest ∧ r.committedDigest = some t.resultDigest

/-- The completion `t` is rejected, and does not commit its execution. -/
structure Spurned (s : ExecutionEngine) (t : CompletionTicket) (amb : Ambient) : Prop where
  refused : (engine.out s ⟨.complete t, amb⟩).allowed = false
  uncommitted : ∀ r, (engine.next s ⟨.complete t, amb⟩).find t.executionId = some r →
    r.state = .committed → s.find t.executionId = some r

/-- A completion that is not accepted is rejected. -/
theorem spurned_of_not_allows {s : ExecutionEngine} {t : CompletionTicket} {amb : Ambient}
    (hnot : ¬(engine.out s ⟨.complete t, amb⟩).allows) : Spurned s t amb := by
  have hview := step_view s ⟨.complete t, amb⟩ t.executionId
  generalize hfind : s.find t.executionId = x at hview
  generalize hnext : (engine.next s ⟨.complete t, amb⟩).find t.executionId = y at hview
  cases hview with
  | idle hquiet =>
      rcases hquiet rfl with refuses | ⟨repeats, -⟩
      · exact ⟨refuses.allowed, fun r hr _ => by rw [hfind, ← hnext, hr]⟩
      · cases repeats
  | created hop => cases hop
  | acted _ _ effect =>
      cases effect with
      | committed _ _ _ _ gives => exact absurd gives.code hnot
      | completeStuck auth hstate hlive hpre hresult hdigest gives =>
          refine ⟨?_, fun r hr hcommitted => ?_⟩
          · obtain ⟨d, hd, hcode⟩ := Option.map_eq_some_iff.1 gives.code
            simp [Outcome.allowed, hd, Decision.allowed, hcode]
          · obtain rfl := Option.some.inj (hnext.symm.trans hr)
            exact (Bool.false_ne_true (hlive.symm.trans (congrArg isTerminal hcommitted))).elim

/-- What makes a completion acceptable leaves it acceptable after a request. -/
theorem still_commits {s : ExecutionEngine} {r : ExecutionRecord} (k : Control)
    {req : ControlRequest} (hfind : s.find req.executionId = some r)
    (hstate : r.state = .dispatched ∨ r.state = .running) (t : CompletionTicket)
    (amb amb' : Ambient) :
    StillCommits s (engine.next s ⟨k.request req, amb⟩) t amb' := by
  have hepoch : (engine.next s ⟨k.request req, amb⟩).epoch = s.epoch := by
    cases k <;> exact epoch_next rfl nofun
  have hallows := complete_allows_of_stillOpen (t := t) amb' hepoch
    (request_keeps k hfind hstate amb t.executionId)
  refine ⟨hallows, fun hallow => ?_⟩
  obtain ⟨r₁, -, -, -, -, -, hnext⟩ := complete_allows rfl hallow
  obtain ⟨r₂, -, -, -, -, -, hnext'⟩ := complete_allows rfl (hallows.2 hallow)
  exact ⟨_, _, hnext, rfl, hnext', rfl, rfl, rfl⟩

/-- The end of a control operation revokes the execution. -/
theorem Control.revokes {s : ExecutionEngine} {c : Call} {id : ExecutionId}
    {epoch : CoordinatorEpoch} (k : Control) (hop : c.op = k.finish id epoch)
    (hallow : (engine.out s c).allows) : Revokes s c id := by
  cases k with
  | cancellation => exact .finalized hop hallow
  | preemption => exact .acknowledged hop hallow

/-- A completion wins over a pending cancellation or preemption: it is accepted
exactly where it was before the request, and commits the same result. Over a
finished one it does not: it is rejected from then on. -/
theorem completion_race {e₀ : CoordinatorEpoch} {h₁ : History} {s : ExecutionEngine}
    {r : ExecutionRecord} {req : ControlRequest} (k : Control)
    (run₁ : Runs engine Always (init e₀) h₁ s) (hfind : s.find req.executionId = some r)
    (hstate : r.state = .dispatched ∨ r.state = .running) (t : CompletionTicket)
    (amb amb₀ : Ambient) :
    let c₁ : Call := ⟨k.request req, amb⟩
    (∀ amb', StillCommits s (engine.next s c₁) t amb') ∧
      (t.executionId = req.executionId → (engine.out s ⟨.complete t, amb₀⟩).allows →
        (engine.out s c₁).allows → ∀ h₂ s₂, Runs engine Always (engine.next s c₁) h₂ s₂ →
        ∀ c₂ epoch, c₂.op = k.finish req.executionId epoch → (engine.out s₂ c₂).allows →
        ∀ h₃ s₃, Runs engine Always (engine.next s₂ c₂) h₃ s₃ →
        FreshAttempts
          (h₁ ++ [(c₁, engine.out s c₁)] ++ h₂ ++ [(c₂, engine.out s₂ c₂)] ++ h₃) →
        ∀ amb', Spurned s₃ t amb') := by
  intro c₁
  refine ⟨fun amb' => still_commits k hfind hstate t amb amb', ?_⟩
  intro hid hallow _ h₂ s₂ run₂ c₂ epoch hop hfinish h₃ s₃ run₃ hfresh amb'
  -- the attempt of the ticket is current before the request, and so was drawn
  obtain ⟨r₀, hfind₀, auth, -⟩ := complete_allows_iff.1 hallow
  obtain ⟨d, hdrawn⟩ := current_drawn run₁ hfind₀ auth.attempt
  have hmem : (t.executionId, t.attemptId, d) ∈ draws (h₁ ++ [(c₁, engine.out s c₁)] ++ h₂) := by
    rw [List.append_assoc, draws_append]
    exact List.mem_append_left _ hdrawn
  have run₁₂ : Runs engine Always (init e₀) (h₁ ++ [(c₁, engine.out s c₁)] ++ h₂) s₂ :=
    (run₁.snoc c₁ trivial).trans run₂
  have hrevokes : Revokes s₂ c₂ t.executionId := hid ▸ k.revokes hop hfinish
  have hdead : Dead (engine.next s₂ c₂) t.attemptId :=
    hrevokes.dead run₁₂ hfresh.left hmem trivial
  have hlater : Dead s₃ t.attemptId := by
    refine dead_runs (x := (t.executionId, t.attemptId, d)) run₃ hfresh ?_ hdead
    rw [draws_append]
    exact List.mem_append_left _ hmem
  exact spurned_of_not_allows ((dead_refused hlater).2 t rfl rfl)

/-- The cancellation of the first attempt is finalized before it completes. -/
theorem completion_race_sample :
    Spurned
      (engine.run (init ⟨1⟩) (Sample.dispatching ++
        [Sample.cancelling, Sample.call (.finalizeCancel Sample.execution ⟨1⟩)]))
      ((Sample.ticket 10).completion (Sample.digest 7)) (Sample.ambient 0) := by
  have run₁ : Runs engine Always (init ⟨1⟩) (engine.trace (init ⟨1⟩) Sample.dispatching)
      (engine.run (init ⟨1⟩) Sample.dispatching) := runs_always _ _ _
  have hfind : (engine.run (init ⟨1⟩) Sample.dispatching).find Sample.cancelRequest.executionId
      = some Sample.dispatched := by decide +kernel
  have hrace := (completion_race .cancellation run₁ hfind (.inl rfl)
    ((Sample.ticket 10).completion (Sample.digest 7)) (Sample.ambient 0) (Sample.ambient 0)).2 rfl
    (by decide +kernel) (by decide +kernel) [] _ .refl
    (Sample.call (.finalizeCancel Sample.execution ⟨1⟩)) ⟨1⟩ rfl (by decide +kernel) [] _ .refl
    (by decide +kernel) (Sample.ambient 0)
  exact hrace

end ExecutionFabric
