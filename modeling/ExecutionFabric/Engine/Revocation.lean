import ExecutionFabric.Engine.Honour

/-!
Authority that is gone stays gone.

An attempt is dead in a state when every record that still names it as current
is in a state no start and no completion leads out of. Calls that do not draw
the same identifier again keep it dead (`dead_step`), so what kills an attempt
kills it for the rest of the run. Every revoking operation does kill the
attempt whose ticket it revokes (`revoked_never_returns`).

A worker lost before it started is the odd one out. The record goes back to
`READY` and keeps the lost attempt as the current one, so that only the state
stands between the lost worker and a commit. It does as long as the execution
is not cancelled there (`lost_never_commits`); a cancellation request accepted
at that point makes the completion legal again.
-/

namespace ExecutionFabric

open StepMachine ExecutionEngine ExecutionStateMachine History

/-! ### Owners of attempts -/

section

variable {G : ExecutionEngine → Call → Prop} {e₀ : CoordinatorEpoch} {h : History}
  {s : ExecutionEngine} {c : Call} {id : ExecutionId} {r : ExecutionRecord} {a : AttemptId}

/-- The current attempt of a record was drawn for its execution. -/
theorem current_drawn (run : Runs engine G (init e₀) h s) (hfind : s.find id = some r)
    (hcurrent : r.currentAttemptId = some a) : ∃ d, (id, a, d) ∈ draws h := by
  have hshaped := (reachable_of_runs run).shaped hfind
  obtain ⟨i, hlast, held⟩ := hshaped.holding.held hcurrent
  have hid : i.id = a := Option.some.inj (held.attempt.symm.trans hcurrent)
  exact ⟨i.dispatchId, hid ▸ drawn_of_runs run _ _ hfind _ (List.mem_of_getLast? hlast)⟩

/-- A ticket carries the identifiers its call drew and the identity of the
record the call found. -/
theorem drawn_of_ticket {T : DispatchTicket} (hticket : (engine.out s c).ticket = some T) :
    ∃ id r, c.op.target = some id ∧ s.find id = some r ∧ T.executionId = r.id ∧
      (engine.out s c).drawn = some (T.attemptId, T.dispatchId) := by
  obtain ⟨op, amb⟩ := c
  have heffects := step_effects s op amb
  generalize engine.out s ⟨op, amb⟩ = o at heffects hticket ⊢
  generalize engine.next s ⟨op, amb⟩ = s' at heffects
  have hissued : o.ticket ≠ none := by rw [hticket]; exact nofun
  cases heffects with
  | raised => cases hticket
  | refused refuses => exact absurd refuses.ticket hissued
  | adopted _ refuses => exact absurd refuses.ticket hissued
  | repeated _ gives => exact absurd gives.ticket hissued
  | created _ _ gives => exact absurd gives.ticket hissued
  | acted htarget hfind hcur effect =>
      obtain ⟨hdrawn, hid⟩ := effect.issued hticket
      exact ⟨_, _, htarget, hfind, hid, hdrawn⟩

theorem ticket_drawn (hs : Reachable s) {T : DispatchTicket}
    (hticket : (engine.out s c).ticket = some T) :
    draw (c, engine.out s c) = some (T.executionId, T.attemptId, T.dispatchId) := by
  obtain ⟨id, r, htarget, hfind, hid, hdrawn⟩ := drawn_of_ticket hticket
  simp only [draw, htarget, hdrawn, hid, (hs.keyed hfind).1]

end

/-! ### Dead attempts -/

/-- The states in which the current attempt can neither start nor complete,
and from which it never will. -/
def ExecutionState.spent (st : ExecutionState) : Bool :=
  st = .preempted || st = .resumable || isTerminal st

/-- No record gives the attempt `a` any authority. -/
def Dead (s : ExecutionEngine) (a : AttemptId) : Prop :=
  ∀ id r, s.find id = some r → r.currentAttemptId = some a → r.state.spent = true

/-- An effect that draws another identifier does not revive an attempt. -/
theorem Effect.spent {e : CoordinatorEpoch} {amb : Ambient} {r r' : ExecutionRecord} {op : Op}
    {o : Outcome} {a : AttemptId} (effect : Effect e amb r op o r')
    (hnew : ∀ x, o.drawn = some x → x.1 ≠ a)
    (hspent : r.currentAttemptId = some a → r.state.spent = true)
    (hcurrent : r'.currentAttemptId = some a) : r'.state.spent = true := by
  have hother : ∀ {st}, r.state = st → st.spent = false → r.currentAttemptId = some a → False :=
    fun hst hlive h => by
      have := hspent h
      rw [hst, hlive] at this
      cases this
  -- what is installed has a new identifier, and requests are made of live attempts only
  cases effect with
  | activated hrec hstate gives => exact (hother hstate rfl hcurrent).elim
  | dispatched hrec hstate gives => exact absurd (Option.some.inj hcurrent) (hnew _ gives.drawn)
  | dispatchStuck hrec hstate gives => exact absurd (Option.some.inj hcurrent) (hnew _ gives.drawn)
  | resumed hrec hstate gives => exact absurd (Option.some.inj hcurrent) (hnew _ gives.drawn)
  | started auth hstate gives =>
      rcases hstate with h | h <;> exact (hother h rfl hcurrent).elim
  | cancelRequested auth hstate gives =>
      have hor : r.state = .ready ∨ r.state = .dispatched ∨ r.state = .running := by
        simpa [ExecutionState.cancellable] using hstate
      rcases hor with h | h | h <;> exact (hother h rfl hcurrent).elim
  | preemptRequested auth hstate gives =>
      rcases hstate with h | h <;> exact (hother h rfl hcurrent).elim
  | lost hcur hrec hworker hboot hstate gives =>
      rcases ExecutionState.lossTarget_cases hstate with ⟨h, rfl⟩ | ⟨h, rfl⟩ | ⟨h, rfl⟩ | ⟨h, rfl⟩
        <;> exact (hother h rfl hcurrent).elim
  | completeStuck auth hstate hlive hpre hresult hdigest gives => exact hspent hcurrent
  | cancelStuck auth hstate hlive hnew' hflight gives => exact hspent hcurrent
  | superseded => cases hcurrent
  | supersedeStuck => cases hcurrent
  | _ => rfl

/-- A call that draws another identifier keeps a dead attempt dead. -/
theorem dead_step {s : ExecutionEngine} {c : Call} {a : AttemptId}
    (hnew : ∀ x, (engine.out s c).drawn = some x → x.1 ≠ a) (hdead : Dead s a) :
    Dead (engine.next s c) a := by
  intro id r' hfind hcurrent
  cases origin hfind with
  | idle hx => exact hdead id r' hx hcurrent
  | created => cases hcurrent
  | acted hx htarget hcur effect => exact effect.spent hnew (hdead id _ hx) hcurrent

/-- A dead attempt neither starts nor completes. -/
theorem dead_refused {s : ExecutionEngine} {c : Call} {a : AttemptId} (hdead : Dead s a) :
    (∀ t, c.op = .markRunning t → t.attemptId = a → ¬(engine.out s c).allows) ∧
      ∀ t, c.op = .complete t → t.attemptId = a → ¬(engine.out s c).allows := by
  refine ⟨?_, ?_⟩
  · rintro t hop rfl hallow
    obtain ⟨r, hfind, auth, hstate⟩ := markRunning_allows hop hallow
    have hspent := hdead _ r hfind auth.attempt
    rcases hstate with h | h <;> rw [h] at hspent <;> cases hspent
  · rintro t hop rfl hallow
    obtain ⟨r, hfind, auth, hstate, -⟩ := complete_allows hop hallow
    have hspent := hdead _ r hfind auth.attempt
    revert hspent hstate
    cases r.state <;> simp [ExecutionState.spent, fromTo, isTerminal]

section

variable {G : ExecutionEngine → Call → Prop} {e₀ : CoordinatorEpoch} {h k : History}
  {s t : ExecutionEngine} {c : Call} {a : AttemptId} {x : ExecutionId × AttemptId × DispatchId}

/-- What an event draws later was not drawn before. -/
theorem drawn_ne (hfresh : FreshAttempts (h ++ [(c, engine.out s c)])) (hx : x ∈ draws h)
    {y : AttemptId × DispatchId} (hy : (engine.out s c).drawn = some y)
    (htarget : c.op.target ≠ none) : y.1 ≠ x.2.1 := by
  obtain ⟨id, hid⟩ := Option.ne_none_iff_exists'.1 htarget
  have hdraw : draw (c, engine.out s c) = some (id, y) := by simp [draw, hid, hy]
  exact fun heq => hfresh.new hdraw hx heq.symm

/-- A call without a target draws nothing. -/
theorem target_of_drawn {y : AttemptId × DispatchId} (hy : (engine.out s c).drawn = some y) :
    c.op.target ≠ none := by
  obtain ⟨op, amb⟩ := c
  cases op with
  | raiseEpoch e =>
      have hnone : none = some y := hy
      cases hnone
  | _ => exact Option.some_ne_none _

/-- While attempts are fresh, no call draws one that was drawn before: what
every other call preserves, the run preserves. -/
theorem undrawn_runs {P : ExecutionEngine → Prop} (run : Runs engine G s k t)
    (hfresh : FreshAttempts (h ++ k)) (hx : x ∈ draws h)
    (hstep : ∀ u c, G u c → (∀ y, (engine.out u c).drawn = some y → y.1 ≠ x.2.1) → P u →
      P (engine.next u c)) (hs : P s) : P t := by
  induction run with
  | refl => exact hs
  | @snoc k u run c hG ih =>
      rw [← List.append_assoc] at hfresh
      refine hstep u c hG (fun y hy => ?_) (ih hfresh.left)
      refine drawn_ne hfresh ?_ hy (target_of_drawn hy)
      rw [draws_append]
      exact List.mem_append_left _ hx

/-- What is dead stays dead while attempts are fresh. -/
theorem dead_runs (run : Runs engine G s k t) (hfresh : FreshAttempts (h ++ k)) (hx : x ∈ draws h)
    (hdead : Dead s x.2.1) : Dead t x.2.1 :=
  undrawn_runs run hfresh hx (fun _ _ _ hnew => dead_step hnew) hdead

end

/-! ### Revocation -/

/-- The call `c`, answered in `s`, takes the execution `id` away from whoever
holds it. -/
inductive Revokes (s : ExecutionEngine) (c : Call) (id : ExecutionId) : Prop
  | dispatched {worker : WorkerId} {boot : WorkerBootId} {e : CoordinatorEpoch}
      (hop : c.op = .dispatch id worker boot e) (hallow : (engine.out s c).allows)
  | resumed {worker : WorkerId} {boot : WorkerBootId} {e : CoordinatorEpoch}
      {gen : ResumeGeneration} (hop : c.op = .resume id worker boot e gen)
      (hallow : (engine.out s c).code? = some .resumeAllowed)
  | acknowledged {epoch : CoordinatorEpoch} (hop : c.op = .acknowledgePreempt id epoch)
      (hallow : (engine.out s c).allows)
  | finalized {epoch : CoordinatorEpoch} (hop : c.op = .finalizeCancel id epoch)
      (hallow : (engine.out s c).allows)
  | superseded {epoch : CoordinatorEpoch} (hop : c.op = .supersede id epoch)
      (hallow : (engine.out s c).allows)
  | lost {worker : WorkerId} {boot : WorkerBootId} {epoch : CoordinatorEpoch}
      {r : ExecutionRecord} (hop : c.op = .markWorkerLost id worker boot epoch)
      (hfind : s.find id = some r)
      (hstate : r.state = .preemptionRequested ∨ r.state = .cancellationRequested)
      (hallow : (engine.out s c).allows)

section

variable {G : ExecutionEngine → Call → Prop} {e₀ : CoordinatorEpoch} {h : History}
  {s : ExecutionEngine} {c : Call} {id : ExecutionId} {a : AttemptId} {r r' : ExecutionRecord}

/-- An allowed call on `id` either repeats a request or has an effect on its record. -/
theorem view_of_allowed (htarget : c.op.target = some id)
    (hallow : (engine.out s c).allowed = true) (hcreate : ∀ id e, c.op ≠ .create id e)
    (hfind : (engine.next s c).find id = some r') :
    (s.Repeats c.op ∧ s.find id = some r') ∨
      ∃ r, s.find id = some r ∧
        Effect (engine.next s c).epoch c.ambient r c.op (engine.out s c) r' := by
  cases origin hfind with
  | idle hx hquiet =>
      rcases hquiet htarget with refuses | ⟨repeats, -⟩
      · rw [refuses.allowed] at hallow
        cases hallow
      · exact .inl ⟨repeats, hx⟩
  | created _ hop => exact absurd hop (hcreate _ _)
  | acted hx _ _ effect => exact .inr ⟨_, hx, effect⟩

theorem Outcome.allowed_of_code {o : Outcome} {code : DecisionCode} (h : o.code? = some code)
    (hcode : code = .allow ∨ code = .resumeAllowed) : o.allowed = true := by
  obtain ⟨d, hd, rfl⟩ := Option.map_eq_some_iff.1 h
  rcases hcode with hc | hc <;> simp [Outcome.allowed, hd, Decision.allowed, hc]

theorem Revokes.target (hrev : Revokes s c id) : c.op.target = some id := by
  cases hrev <;> rename_i hop _ <;> simp_all [Op.target]

theorem Revokes.allowed (hrev : Revokes s c id) : (engine.out s c).allowed = true := by
  cases hrev with
  | resumed _ hallow => exact Outcome.allowed_of_code hallow (.inr rfl)
  | dispatched _ hallow => exact Outcome.allowed_of_code hallow (.inl rfl)
  | acknowledged _ hallow => exact Outcome.allowed_of_code hallow (.inl rfl)
  | finalized _ hallow => exact Outcome.allowed_of_code hallow (.inl rfl)
  | superseded _ hallow => exact Outcome.allowed_of_code hallow (.inl rfl)
  | lost _ _ _ hallow => exact Outcome.allowed_of_code hallow (.inl rfl)

/-- After a revocation the execution names another attempt, or is spent. -/
theorem Revokes.spent (hrev : Revokes s c id) (hnew : ∀ x, (engine.out s c).drawn = some x → x.1 ≠ a)
    (hfind : (engine.next s c).find id = some r') (hcurrent : r'.currentAttemptId = some a) :
    r'.state.spent = true := by
  have hcreate : ∀ id e, c.op ≠ .create id e := by
    intro id e hc
    cases hrev <;> rename_i hop _ <;> simp_all
  have hor := view_of_allowed hrev.target hrev.allowed hcreate hfind
  generalize (engine.next s c).epoch = e' at hor
  cases hrev with
  | dispatched hop hallow =>
      rw [hop] at hor
      rcases hor with ⟨repeats, -⟩ | ⟨r, hr, effect⟩
      · cases repeats
      · cases effect with
        | dispatched hrec hstate gives =>
            exact absurd (Option.some.inj hcurrent) (hnew _ gives.drawn)
        | dispatchStuck hrec hstate gives => exact absurd hallow (gives.not_allows (by decide))
  | resumed hop hallow =>
      rw [hop] at hor
      rcases hor with ⟨repeats, -⟩ | ⟨r, hr, effect⟩
      · cases repeats
      · cases effect with
        | resumed hrec hstate gives =>
            exact absurd (Option.some.inj hcurrent) (hnew _ gives.drawn)
  | acknowledged hop hallow =>
      rw [hop] at hor
      rcases hor with ⟨repeats, -⟩ | ⟨r, hr, effect⟩
      · cases repeats
      · cases effect with
        | preemptAcknowledged => rfl
  | finalized hop hallow =>
      rw [hop] at hor
      rcases hor with ⟨repeats, hr⟩ | ⟨r, hr, effect⟩
      · -- the execution is cancelled already
        cases repeats with
        | finalizeCancel hf _ hstate =>
            obtain rfl := Option.some.inj (hf.symm.trans hr)
            rw [hstate]
            rfl
      · cases effect with
        | cancelFinalized => rfl
  | superseded hop hallow =>
      rw [hop] at hor
      rcases hor with ⟨repeats, -⟩ | ⟨r, hr, effect⟩
      · cases repeats
      · cases effect with
        | superseded => cases hcurrent
        | supersedeStuck => cases hcurrent
  | @lost worker boot epoch r₀ hop hf hstate hallow =>
      rw [hop] at hor
      rcases hor with ⟨repeats, -⟩ | ⟨r, hr, effect⟩
      · cases repeats
      · obtain rfl := Option.some.inj (hf.symm.trans hr)
        cases effect with
        | lost _ _ _ _ hloss gives =>
            rcases hstate with h | h <;> rw [h] at hloss <;> obtain rfl := Option.some.inj hloss
              <;> rfl

/-- A revocation kills every attempt that was drawn for the execution before. -/
theorem Revokes.dead (run : Runs engine G (init e₀) h s)
    (hfresh : FreshAttempts (h ++ [(c, engine.out s c)])) {d : DispatchId}
    (hdrawn : (id, a, d) ∈ draws h) (hG : G s c) (hrev : Revokes s c id) :
    Dead (engine.next s c) a := by
  intro k r' hfind hcurrent
  -- an identifier is drawn once, so the record is that of the execution revoked
  obtain ⟨d', hk⟩ := current_drawn (run.snoc c hG) hfind hcurrent
  have hkeep : (id, a, d) ∈ draws (h ++ [(c, engine.out s c)]) := by
    rw [draws_append]
    exact List.mem_append_left _ hdrawn
  have hsame := hfresh.owner hk hkeep rfl
  obtain rfl : k = id := congrArg Prod.fst hsame
  refine hrev.spent (fun x hx => ?_) hfind hcurrent
  exact drawn_ne hfresh hdrawn hx (target_of_drawn hx)

end

/-- Once the authority of an issued ticket was revoked, nothing that names its
attempt is ever accepted again. -/
theorem revoked_never_returns {e₀ : CoordinatorEpoch} {h₁ h₂ h₃ : History}
    {s₁ s₂ s₃ : ExecutionEngine} {c₁ c₂ c₃ : Call} {T : DispatchTicket}
    (run₁ : Runs engine Always (init e₀) h₁ s₁) (hissued : (engine.out s₁ c₁).ticket = some T)
    (run₂ : Runs engine Always (engine.next s₁ c₁) h₂ s₂) (hrevoked : Revokes s₂ c₂ T.executionId)
    (run₃ : Runs engine Always (engine.next s₂ c₂) h₃ s₃)
    (hfresh : FreshIds
      (h₁ ++ [(c₁, engine.out s₁ c₁)] ++ h₂ ++ [(c₂, engine.out s₂ c₂)] ++ h₃)) :
    (∀ t, c₃.op = .markRunning t → t.attemptId = T.attemptId → ¬(engine.out s₃ c₃).allows) ∧
      ∀ t, c₃.op = .complete t → t.attemptId = T.attemptId → ¬(engine.out s₃ c₃).allows := by
  have hdraw := ticket_drawn (reachable_of_runs run₁) hissued
  have hmem : (T.executionId, T.attemptId, T.dispatchId)
      ∈ draws (h₁ ++ [(c₁, engine.out s₁ c₁)] ++ h₂) := by
    rw [draws_append, draws_append, draws_one, hdraw]
    simp
  have run₁₂ := (run₁.snoc c₁ trivial).trans run₂
  have hdead : Dead (engine.next s₂ c₂) T.attemptId :=
    hrevoked.dead run₁₂ hfresh.left.attempts hmem trivial
  refine dead_refused (dead_runs (x := (T.executionId, T.attemptId, T.dispatchId)) run₃ hfresh.attempts
    ?_ hdead)
  rw [draws_append]
  exact List.mem_append_left _ hmem

/-- A dispatch revokes the ticket of the dispatch before it. -/
theorem revoked_never_returns_sample :
    ¬(engine.out (engine.run (init ⟨1⟩)
        (Sample.dispatching ++ [Sample.redispatching]))
      (Sample.call (.complete ((Sample.ticket 10).completion (Sample.digest 7))))).allows :=
  let s₁ := engine.run (init ⟨1⟩) Sample.readying
  let c₁ := Sample.call (.dispatch Sample.execution Sample.worker Sample.boot ⟨1⟩) 10
  let c₂ := Sample.redispatching
  have run₁ : Runs engine Always (init ⟨1⟩) (engine.trace (init ⟨1⟩) Sample.readying) s₁ :=
    runs_always _ _ _
  have hrevoked : Revokes (engine.next s₁ c₁) c₂ (Sample.ticket 10).executionId :=
    .dispatched rfl (by decide +kernel)
  (revoked_never_returns (T := Sample.ticket 10) run₁ (by decide +kernel) .refl hrevoked .refl
    (by decide +kernel)).2 _ rfl rfl

/-! ### Lost before the start -/

/-- The guard of the runs on which a lost attempt stays lost: no authorised
cancellation of the execution `id` while it is `READY` with `a` as its current
attempt. -/
def NoCancelWhileLost (id : ExecutionId) (a : AttemptId) (s : ExecutionEngine) (c : Call) : Prop :=
  ∀ req r, c.op = .cancel req → req.executionId = id → s.find id = some r → r.state = .ready →
    r.currentAttemptId = some a → ¬req.Authorised s.epoch r

/-- The execution `id` is back in `READY` if it still names `a`. -/
def Parked (id : ExecutionId) (a : AttemptId) (s : ExecutionEngine) : Prop :=
  ∀ r, s.find id = some r → r.currentAttemptId = some a → r.state = .ready

section

variable {e₀ : CoordinatorEpoch} {h k : History} {s t : ExecutionEngine} {c : Call}
  {id : ExecutionId} {a : AttemptId}

theorem Effect.parked {e : CoordinatorEpoch} {amb : Ambient} {r r' : ExecutionRecord} {op : Op}
    {o : Outcome} (effect : Effect e amb r op o r') (hnew : ∀ x, o.drawn = some x → x.1 ≠ a)
    (hguard : ∀ req, op = .cancel req → r.state = .ready → r.currentAttemptId = some a →
      ¬req.Authorised e r)
    (hparked : r.currentAttemptId = some a → r.state = .ready)
    (hcurrent : r'.currentAttemptId = some a) : r'.state = .ready := by
  have hother : r.state ≠ .ready → r.currentAttemptId = some a → False :=
    fun hst h => hst (hparked h)
  cases effect with
  | activated => rfl
  | dispatched hrec hstate gives => exact absurd (Option.some.inj hcurrent) (hnew _ gives.drawn)
  | dispatchStuck hrec hstate gives => exact absurd (Option.some.inj hcurrent) (hnew _ gives.drawn)
  | resumed hrec hstate gives => exact absurd (Option.some.inj hcurrent) (hnew _ gives.drawn)
  | started auth hstate gives =>
      rcases hstate with h | h <;> exact (hother (by rw [h]; exact nofun) hcurrent).elim
  | committed auth hstate hresult hdigest gives =>
      exact (hother (fun h => by rw [h] at hstate; cases hstate) hcurrent).elim
  | completeStuck => exact hparked hcurrent
  | cancelledEarly auth hstate gives =>
      exact (hother (by rw [hstate]; exact nofun) hcurrent).elim
  | cancelRequested auth hstate gives =>
      exact absurd auth (hguard _ rfl (hparked hcurrent) hcurrent)
  | cancelStuck => exact hparked hcurrent
  | cancelFinalized hcur hrec hstate gives =>
      exact (hother (by rw [hstate]; exact nofun) hcurrent).elim
  | preemptRequested auth hstate gives =>
      rcases hstate with h | h <;> exact (hother (by rw [h]; exact nofun) hcurrent).elim
  | preemptAcknowledged hcur hrec hstate gives =>
      exact (hother (by rw [hstate]; exact nofun) hcurrent).elim
  | madeResumable hcur hrec hstate gives =>
      exact (hother (by rw [hstate]; exact nofun) hcurrent).elim
  | lost hcur hrec hworker hboot hstate gives =>
      rcases ExecutionState.lossTarget_cases hstate with ⟨h, -⟩ | ⟨h, -⟩ | ⟨h, -⟩ | ⟨h, -⟩
        <;> exact (hother (by rw [h]; exact nofun) hcurrent).elim
  | superseded => cases hcurrent
  | supersedeStuck => cases hcurrent

theorem parked_step (hG : NoCancelWhileLost id a s c)
    (hnew : ∀ x, (engine.out s c).drawn = some x → x.1 ≠ a) (hparked : Parked id a s) :
    Parked id a (engine.next s c) := by
  intro r' hfind hcurrent
  cases origin hfind with
  | idle hx => exact hparked r' hx hcurrent
  | created => cases hcurrent
  | acted hx htarget hcur effect =>
      refine effect.parked hnew ?_ (hparked _ hx) hcurrent
      intro req hop hstate hcur' auth
      have hid : req.executionId = id := by
        rw [hop] at htarget
        exact Option.some.inj htarget
      -- a cancellation does not move the epoch
      have hsame : (engine.next s c).epoch = s.epoch :=
        epoch_next (by rw [hop]; rfl) (by rw [hop]; exact nofun)
      exact hG req _ hop hid hx hstate hcur' (hsame ▸ auth)

theorem parked_runs {x : ExecutionId × AttemptId × DispatchId}
    (run : Runs engine (NoCancelWhileLost id x.2.1) s k t) (hfresh : FreshAttempts (h ++ k))
    (hx : x ∈ draws h) (hparked : Parked id x.2.1 s) : Parked id x.2.1 t :=
  undrawn_runs run hfresh hx (fun _ _ hG hnew => parked_step hG hnew) hparked

/-- A loss in `DISPATCHED` parks the execution. -/
theorem parked_of_lost {r : ExecutionRecord} {worker : WorkerId} {boot : WorkerBootId}
    {epoch : CoordinatorEpoch} (hfind : s.find id = some r) (hstate : r.state = .dispatched)
    (hop : c.op = .markWorkerLost id worker boot epoch) (hallow : (engine.out s c).allows) :
    Parked id a (engine.next s c) := by
  intro r' hfind' _
  have hor := view_of_allowed (by rw [hop]; rfl) (Outcome.allowed_of_code hallow (.inl rfl))
    (by rw [hop]; exact nofun) hfind'
  generalize (engine.next s c).epoch = e' at hor
  rw [hop] at hor
  rcases hor with ⟨repeats, -⟩ | ⟨r₀, hr₀, effect⟩
  · cases repeats
  · obtain rfl := Option.some.inj (hfind.symm.trans hr₀)
    cases effect with
    | lost _ _ _ _ hloss gives =>
        rw [hstate] at hloss
        exact (Option.some.inj hloss).symm

/-- An attempt lost before it started never commits, in a run that accepts no
cancellation of the execution before it is dispatched again. -/
theorem lost_never_commits {h₁ h₂ : History} {s₁ s₂ : ExecutionEngine} {c₁ : Call}
    {r : ExecutionRecord} {worker : WorkerId} {boot : WorkerBootId} {epoch : CoordinatorEpoch}
    (run₁ : Runs engine Always (init e₀) h₁ s₁) (hfind : s₁.find id = some r)
    (hstate : r.state = .dispatched) (hcurrent : r.currentAttemptId = some a)
    (hop : c₁.op = .markWorkerLost id worker boot epoch) (hallow : (engine.out s₁ c₁).allows)
    (run₂ : Runs engine (NoCancelWhileLost id a) (engine.next s₁ c₁) h₂ s₂)
    (hfresh : FreshIds (h₁ ++ [(c₁, engine.out s₁ c₁)] ++ h₂)) :
    ∀ (c₂ : Call) (t : CompletionTicket), c₂.op = .complete t → t.attemptId = a →
      ¬(engine.out s₂ c₂).allows := by
  rintro c₂ t hop₂ rfl hallow₂
  obtain ⟨d, hdrawn⟩ := current_drawn run₁ hfind hcurrent
  have hmem : (id, t.attemptId, d) ∈ draws (h₁ ++ [(c₁, engine.out s₁ c₁)]) := by
    rw [draws_append]
    exact List.mem_append_left _ hdrawn
  have hparked : Parked id t.attemptId s₂ :=
    parked_runs (x := (id, t.attemptId, d)) run₂ hfresh.attempts hmem
      (parked_of_lost hfind hstate hop hallow)
  -- the completion addresses the execution the attempt was drawn for
  obtain ⟨r₂, hfind₂, auth, hcompletes, -⟩ := complete_allows hop₂ hallow₂
  have run : Runs engine Always (init e₀) _ s₂ := (run₁.snoc c₁ trivial).trans run₂.always
  obtain ⟨d₂, hdrawn₂⟩ := current_drawn run hfind₂ auth.attempt
  have hkeep : (id, t.attemptId, d) ∈ draws (h₁ ++ [(c₁, engine.out s₁ c₁)] ++ h₂) := by
    rw [draws_append]
    exact List.mem_append_left _ hmem
  obtain rfl : t.executionId = id := congrArg Prod.fst (FreshAttempts.owner hfresh.attempts hdrawn₂ hkeep rfl)
  rw [hparked r₂ hfind₂ auth.attempt] at hcompletes
  cases hcompletes

end

/-- The record after `Sample.dispatching`. -/
def Sample.dispatched : ExecutionRecord :=
  Sample.readied.dispatchedTo (Sample.ambient 10) Sample.worker Sample.boot

/-- The lost worker reports its completion after a new dispatch. -/
theorem lost_never_commits_sample :
    ¬(engine.out
      (engine.next (engine.next (engine.run (init ⟨1⟩) Sample.dispatching) Sample.losing)
        Sample.redispatching)
      (Sample.call (.complete ((Sample.ticket 10).completion (Sample.digest 7))))).allows := by
  have run₁ : Runs engine Always (init ⟨1⟩) (engine.trace (init ⟨1⟩) Sample.dispatching)
      (engine.run (init ⟨1⟩) Sample.dispatching) := runs_always _ _ _
  have hfind : (engine.run (init ⟨1⟩) Sample.dispatching).find Sample.execution
      = some Sample.dispatched := by decide +kernel
  have hguard : ∀ s, NoCancelWhileLost Sample.execution (Sample.ticket 10).attemptId s
      Sample.redispatching := by
    intro s req r hop
    cases hop
  have hlost : Sample.losing.op = .markWorkerLost Sample.execution Sample.worker Sample.boot ⟨1⟩ :=
    rfl
  have hrejected := lost_never_commits (a := (Sample.ticket 10).attemptId) run₁ hfind rfl rfl hlost
    (by decide +kernel) (.one Sample.redispatching (hguard _)) (by decide +kernel)
  exact hrejected _ ((Sample.ticket 10).completion (Sample.digest 7)) rfl rfl

/-- A cancellation accepted while the execution waits in `READY` lets the lost
attempt commit. -/
theorem lost_commits :
    ¬∀ (e₀ : CoordinatorEpoch) (h₁ h₂ : History) (s₁ s₂ : ExecutionEngine) (c₁ : Call)
      (id : ExecutionId) (r : ExecutionRecord) (a : AttemptId) (worker : WorkerId)
      (boot : WorkerBootId) (epoch : CoordinatorEpoch),
      Runs engine Always (init e₀) h₁ s₁ → s₁.find id = some r → r.state = .dispatched →
      r.currentAttemptId = some a → c₁.op = .markWorkerLost id worker boot epoch →
      (engine.out s₁ c₁).allows → Runs engine Always (engine.next s₁ c₁) h₂ s₂ →
      FreshIds (h₁ ++ [(c₁, engine.out s₁ c₁)] ++ h₂) →
      ∀ (c₂ : Call) (t : CompletionTicket), c₂.op = .complete t → t.attemptId = a →
        ¬(engine.out s₂ c₂).allows := by
  intro hclaim
  have run₁ : Runs engine Always (init ⟨1⟩) (engine.trace (init ⟨1⟩) Sample.dispatching)
      (engine.run (init ⟨1⟩) Sample.dispatching) := runs_always _ _ _
  have hfind : (engine.run (init ⟨1⟩) Sample.dispatching).find Sample.execution
      = some Sample.dispatched := by decide +kernel
  have hrejected := hclaim ⟨1⟩ _ _ (engine.run (init ⟨1⟩) Sample.dispatching) _ Sample.losing
    Sample.execution Sample.dispatched (Sample.ticket 10).attemptId Sample.worker Sample.boot ⟨1⟩
    run₁ hfind rfl rfl rfl (by decide +kernel) (.one Sample.cancelling trivial) (by decide +kernel)
    (Sample.call (.complete ((Sample.ticket 10).completion (Sample.digest 7))))
    ((Sample.ticket 10).completion (Sample.digest 7)) rfl rfl
  exact absurd hrejected (by decide +kernel)

end ExecutionFabric
