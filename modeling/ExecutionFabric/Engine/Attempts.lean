import ExecutionFabric.Engine.Authority
import ExecutionFabric.Engine.Enabled

/-!
The progress of attempts, and how many of them are live.

An attempt is live while it is `DISPATCHED` or `RUNNING`. Operations that take
authority away also move the attempt that had it, through the loops of the
engine. The loops ignore whether the table of attempts allowed the move, and
one of them asks for a move that it does not allow: acknowledging a preemption
leaves an attempt that never started `DISPATCHED`. The resumption that follows
looks for a `PREEMPTED` attempt to supersede, finds none, and installs a second
live attempt (`two_live_attempts`).

All loops only move attempts of the current identifier (`Advance`), and those
that retire an attempt leave none of them live (`Quiet`). From these two
`Effect.tended` derives the invariant, for the steps that do not acknowledge
the preemption of an unstarted attempt.
-/

namespace ExecutionFabric

open Collections StepMachine ExecutionEngine History

/-! ### Moving one attempt -/

namespace AttemptState

/-- The worker may be at work on the attempt. -/
def live (st : AttemptState) : Bool := st ∈ [dispatched, running]

/-- The states an attempt is retired to. -/
def retired (st : AttemptState) : Bool := st ∈ [completed, cancelled, lost, superseded]

end AttemptState

namespace AttemptRecord

variable (a : AttemptRecord) (target : AttemptState)

theorem move_state : (a.move target).state =
    if AttemptStateMachine.fromTo a.state target then target else a.state := by
  rw [move_eq]
  split <;> rfl

theorem move_state_or : (a.move target).state = a.state ∨ (a.move target).state = target := by
  rw [move_state]
  split
  · exact .inr rfl
  · exact .inl rfl

/-- From a live state every retirement is allowed. -/
theorem live_move {target : AttemptState} (h : target.retired = true) :
    (a.move target).state.live = false := by
  rw [move_state]
  revert h
  cases target <;> cases a.state <;> simp [AttemptState.retired, AttemptState.live,
    AttemptStateMachine.fromTo]

end AttemptRecord

/-! ### What the loops do to a list of attempts -/

/-- The attempts `as'` are the attempts `as`, some of those with the current
identifier moved to `target`. -/
def Advance (current : Option AttemptId) (target : AttemptState) (as as' : List AttemptRecord) :
    Prop :=
  ∀ a' ∈ as', ∃ a ∈ as, a'.id = a.id ∧
    (a'.state = a.state ∨ some a.id = current ∧ a'.state = target)

/-- None of the attempts is live. -/
def Quiet (as : List AttemptRecord) : Prop := ∀ a ∈ as, a.state.live = false

section

variable {current : Option AttemptId} {target : AttemptState} {as as' : List AttemptRecord}
  {p : AttemptRecord → Bool} {f : AttemptRecord → AttemptRecord}

theorem quiet_nil : Quiet [] := by simp [Quiet]

theorem Advance.refl : Advance current target as as := fun a ha => ⟨a, ha, rfl, .inl rfl⟩

theorem Advance.quiet (h : Advance current target as as') (htarget : target.live = false)
    (hquiet : Quiet as) : Quiet as' := by
  intro a' ha'
  obtain ⟨a, ha, -, hstate | ⟨-, hstate⟩⟩ := h a' ha'
  · rw [hstate]
    exact hquiet a ha
  · rw [hstate]
    exact htarget

theorem advance_updateAll (hp : ∀ a, p a = true → some a.id = current)
    (hf : ∀ a, (f a).id = a.id ∧ ((f a).state = a.state ∨ (f a).state = target)) :
    Advance current target as (updateAll p f as) := by
  intro a' ha'
  obtain ⟨a, ha, ⟨hpa, rfl⟩ | ⟨-, rfl⟩⟩ := mem_updateAll ha'
  · exact ⟨a, ha, (hf a).1, (hf a).2.imp_right fun h => ⟨hp a hpa, h⟩⟩
  · exact ⟨_, ha, rfl, .inl rfl⟩

theorem advance_updateFirst (hp : ∀ a, p a = true → some a.id = current)
    (hf : ∀ a, (f a).id = a.id ∧ ((f a).state = a.state ∨ (f a).state = target)) :
    Advance current target as (updateFirst p f as) := by
  intro a' ha'
  rcases mem_updateFirst ha' with ha' | ⟨a, ha, hpa, rfl⟩
  · exact ⟨a', ha', rfl, .inl rfl⟩
  · exact ⟨a, ha, (hf a).1, (hf a).2.imp_right fun h => ⟨hp a hpa, h⟩⟩

/-- If only matching attempts are live, and none is after its update, the loop
leaves none. -/
theorem quiet_updateAll (hp : ∀ a ∈ as, a.state.live = true → p a = true)
    (hf : ∀ a, (f a).state.live = false) : Quiet (updateAll p f as) := by
  intro a' ha'
  obtain ⟨a, ha, ⟨-, rfl⟩ | ⟨hpa, rfl⟩⟩ := mem_updateAll ha'
  · exact hf a
  · by_contra hlive
    rw [hp _ ha (by simpa using hlive)] at hpa
    cases hpa

end

/-! ### The loops of the engine -/

/-- The states an execution is in after its current attempt lost authority, or
ended. -/
def ExecutionState.relieved (st : ExecutionState) : Bool :=
  st ∈ [ready, preempted, resumable, ambiguous, committed, cancelled, superseded]

namespace ExecutionRecord

/-- A live attempt is the current one, of an execution that was not relieved. -/
structure Tended (r : ExecutionRecord) : Prop where
  current : ∀ a ∈ r.attempts, a.state.live = true → some a.id = r.currentAttemptId
  relieved : r.state.relieved = true → Quiet r.attempts

variable {r r' : ExecutionRecord}

theorem Tended.of_quiet (h : Quiet r.attempts) : r.Tended where
  current := fun a ha hlive => absurd hlive (by simp [h a ha])
  relieved := fun _ => h

/-- Moving the current attempt in an execution that is not relieved by it. -/
theorem Tended.advance {target : AttemptState} (h : r.Tended)
    (hadvance : Advance r.currentAttemptId target r.attempts r'.attempts)
    (hcurrent : r'.currentAttemptId = r.currentAttemptId)
    (hrelieved : r'.state.relieved = true → r.state.relieved = true ∧ target.live = false) :
    r'.Tended where
  current := by
    intro a' ha' hlive
    obtain ⟨a, ha, hid, hstate | ⟨hcur, -⟩⟩ := hadvance a' ha'
    · rw [hid, hcurrent]
      exact h.current a ha (hstate ▸ hlive)
    · rw [hid, hcurrent]
      exact hcur
  relieved := fun hst =>
    hadvance.quiet (hrelieved hst).2 (h.relieved (hrelieved hst).1)

/-- The attempt just installed is the only live one. -/
theorem Tended.install {made : AttemptRecord} {as : List AttemptRecord} (hquiet : Quiet as)
    (hattempts : r'.attempts = as ++ [made]) (hcurrent : r'.currentAttemptId = some made.id)
    (hstate : r'.state.relieved = false) : r'.Tended where
  current := by
    intro a ha hlive
    rw [hattempts] at ha
    rcases List.mem_append.1 ha with ha | ha
    · rw [hquiet a ha] at hlive
      cases hlive
    · rw [List.mem_singleton.1 ha, hcurrent]
  relieved := fun h => absurd h (by simp [hstate])

theorem Tended.quiet_retireCurrent {target : AttemptState} (h : r.Tended)
    (htarget : target.retired = true) : Quiet (r.retireCurrent target).attempts := by
  apply quiet_updateAll _ fun a => a.live_move htarget
  intro a ha hlive
  have hcurrent := h.current a ha hlive
  revert hlive
  cases hst : a.state <;> simp [AttemptState.live, hcurrent, AttemptStateMachine.isTerminal]

theorem Tended.quiet_loseCurrent (h : r.Tended) : Quiet r.loseCurrent.attempts := by
  apply quiet_updateAll _ fun a => a.live_move rfl
  intro a ha hlive
  simp [h.current a ha hlive]

theorem nodup_ids (h : r.Distinct) : (r.attempts.map (·.id)).Nodup := by
  rw [← r.map_lineage (·.id) fun _ => rfl]
  exact h.ids

theorem Tended.quiet_supersedeCurrent (h : r.Tended) (hdistinct : r.Distinct) :
    Quiet r.supersedeCurrent.attempts := by
  cases hcurrent : r.currentAttemptId with
  | none =>
      intro a ha
      by_contra hlive
      simp only [supersedeCurrent, hcurrent] at ha
      have hnone := h.current a ha (by simpa using hlive)
      rw [hcurrent] at hnone
      cases hnone
  | some current =>
      simp only [supersedeCurrent, hcurrent]
      -- the loop stops at the first match, and distinct identifiers have one at most
      rw [updateFirst_eq_updateAll (nodup_ids hdistinct)]
      · apply quiet_updateAll _ fun a => a.live_move rfl
        intro a ha hlive
        have hid := h.current a ha hlive
        rw [hcurrent] at hid
        revert hlive
        cases hst : a.state <;> simp_all [AttemptState.live, AttemptStateMachine.isTerminal]
      · intro x y hx hy
        simp only [Bool.and_eq_true, beq_iff_eq] at hx hy
        rw [hx.1, hy.1]

theorem Tended.quiet_completeAttempt {id : AttemptId} (h : r.Tended) (hdistinct : r.Distinct)
    (hcurrent : r.currentAttemptId = some id) (digest : ResultDigest) :
    Quiet (r.completeAttempt id digest).attempts := by
  simp only [completeAttempt]
  rw [updateFirst_eq_updateAll (nodup_ids hdistinct)]
  · refine quiet_updateAll ?_ fun a => ?_
    · intro a ha hlive
      have hid := h.current a ha hlive
      rw [hcurrent] at hid
      simpa using hid
    · have hmoved : (a.move .completed).state.live = false := a.live_move rfl
      exact hmoved
  · intro x y hx hy
    simp only [beq_iff_eq] at hx hy
    rw [hx, hy]

theorem advance_retireCurrent (r : ExecutionRecord) (target : AttemptState) :
    Advance r.currentAttemptId target r.attempts (r.retireCurrent target).attempts := by
  refine advance_updateAll (fun a ha => ?_) fun a => ⟨a.move_id target, a.move_state_or target⟩
  simp only [Bool.and_eq_true, beq_iff_eq] at ha
  exact ha.1

theorem advance_supersedePreempted (r : ExecutionRecord) :
    Advance r.currentAttemptId .superseded r.attempts r.supersedePreempted.attempts := by
  refine advance_updateFirst (fun a ha => ?_) fun a => ⟨a.move_id _, a.move_state_or _⟩
  simp only [Bool.and_eq_true, beq_iff_eq] at ha
  exact ha.1

theorem advance_loseCurrent (r : ExecutionRecord) :
    Advance r.currentAttemptId .lost r.attempts r.loseCurrent.attempts := by
  refine advance_updateAll (fun a ha => ?_) fun a => ⟨a.move_id _, a.move_state_or _⟩
  exact beq_iff_eq.1 ha

theorem advance_startAttempt {id : AttemptId} (hcurrent : r.currentAttemptId = some id) :
    Advance r.currentAttemptId .running r.attempts (r.startAttempt id).attempts := by
  refine advance_updateFirst (fun a ha => ?_) fun a => ⟨a.move_id _, a.move_state_or _⟩
  rw [hcurrent, beq_iff_eq.1 ha]

theorem advance_completeAttempt {id : AttemptId} (hcurrent : r.currentAttemptId = some id)
    (digest : ResultDigest) :
    Advance r.currentAttemptId .completed r.attempts (r.completeAttempt id digest).attempts := by
  refine advance_updateFirst (fun a ha => ?_) fun a =>
    ⟨a.move_id .completed, a.move_state_or .completed⟩
  rw [hcurrent, beq_iff_eq.1 ha]

end ExecutionRecord

/-! ### The invariant -/

/-- The guard: no preemption is acknowledged of an attempt that never started. -/
def AcksStarted (s : ExecutionEngine) (c : Call) : Prop :=
  ∀ id e r, c.op = .acknowledgePreempt id e → s.find id = some r →
    r.state = .preemptionRequested → s.epoch ≤ e → r.coordinatorEpoch ≤ e →
    ∀ a ∈ r.attempts, some a.id = r.currentAttemptId → a.state ≠ .dispatched

section

variable {e : CoordinatorEpoch} {amb : Ambient} {r r' : ExecutionRecord} {op : Op} {o : Outcome}

/-- Acknowledging the preemption retires a running attempt, and no other. -/
theorem ExecutionRecord.Tended.quiet_preempted (h : r.Tended)
    (hstarted : ∀ a ∈ r.attempts, some a.id = r.currentAttemptId → a.state ≠ .dispatched) :
    Quiet (r.retireCurrent .preempted).attempts := by
  intro a' ha'
  obtain ⟨a, ha, ⟨-, rfl⟩ | ⟨hp, rfl⟩⟩ := mem_updateAll ha'
  · by_contra hlive
    rw [AttemptRecord.move_state] at hlive
    cases hst : a.state <;> simp [hst, AttemptStateMachine.fromTo, AttemptState.live] at hlive
    exact hstarted a ha (h.current a ha (by rw [hst]; rfl)) hst
  · by_contra hlive
    have hcurrent := h.current a' ha (by simpa using hlive)
    revert hlive hp
    cases hst : a'.state <;> simp [hcurrent, AttemptState.live, AttemptStateMachine.isTerminal]

theorem Effect.tended (effect : Effect e amb r op o r') (hr : r.Shaped) (hdistinct : r.Distinct)
    (hstarted : ∀ id epoch, op = .acknowledgePreempt id epoch →
      ∀ a ∈ r.attempts, some a.id = r.currentAttemptId → a.state ≠ .dispatched)
    (h : r.Tended) : r'.Tended := by
  have hempty : r.state = .created → Quiet r.attempts := fun hstate => by
    rw [(hr.created hstate).2]
    exact quiet_nil
  cases effect with
  | activated hrec hstate gives => exact .of_quiet (hempty hstate)
  | @dispatched id worker boot o hrec hstate gives =>
      exact .install (h.quiet_supersedeCurrent hdistinct) rfl rfl rfl
  | @dispatchStuck id worker boot o hrec hstate gives =>
      refine .install (h.quiet_supersedeCurrent hdistinct) rfl rfl ?_
      simp [ExecutionRecord.install, ExecutionRecord.supersedeCurrent_eq, hstate,
        ExecutionState.relieved]
  | started auth hstate gives =>
      exact h.advance (ExecutionRecord.advance_startAttempt auth.attempt) rfl
        fun h => by cases h
  | @committed t o auth hstate hresult hdigest gives =>
      exact .of_quiet (h.quiet_completeAttempt hdistinct auth.attempt t.resultDigest)
  | completeStuck auth hstate hlive hpre hresult hdigest gives =>
      exact h.advance (ExecutionRecord.advance_completeAttempt auth.attempt _) rfl
        fun hst => ⟨hst, rfl⟩
  | cancelledEarly auth hstate gives => exact .of_quiet (hempty hstate)
  | cancelRequested auth hstate gives => exact ⟨h.current, fun h => by cases h⟩
  | cancelStuck auth hstate hlive hnew hflight gives => exact ⟨h.current, h.relieved⟩
  | cancelFinalized hcur hrec hstate gives => exact .of_quiet (h.quiet_retireCurrent rfl)
  | preemptRequested auth hstate gives => exact ⟨h.current, fun h => by cases h⟩
  | preemptAcknowledged hcur hrec hstate gives =>
      exact .of_quiet (h.quiet_preempted (hstarted _ _ rfl))
  | madeResumable hcur hrec hstate gives => exact .of_quiet (h.relieved (by rw [hstate]; rfl))
  | @resumed id worker boot o hrec hstate gives =>
      have hquiet : Quiet r.attempts := h.relieved (by rw [hstate]; rfl)
      exact .install (r.advance_supersedePreempted.quiet rfl hquiet) rfl rfl rfl
  | lost hcur hrec hworker hboot hstate gives => exact .of_quiet h.quiet_loseCurrent
  | superseded hrec hstate gives => exact .of_quiet (h.quiet_retireCurrent rfl)
  | supersedeStuck hrec hstate hlive gives => exact .of_quiet (h.quiet_retireCurrent rfl)

end

/-! ### Runs -/

namespace ExecutionRecord

/-- At most one attempt is live, and it is the current one of an execution that
was not relieved. -/
structure SingleLive (r : ExecutionRecord) : Prop extends r.Tended where
  one : (r.attempts.filter (·.state.live)).length ≤ 1

theorem Tended.singleLive {r : ExecutionRecord} (h : r.Tended) (hdistinct : r.Distinct) :
    r.SingleLive := by
  refine ⟨h, ?_⟩
  have hnodup : ((r.attempts.filter (·.state.live)).map (·.id)).Nodup :=
    (nodup_ids hdistinct).sublist (List.filter_sublist.map _)
  have hcurrent : ∀ a ∈ r.attempts.filter (·.state.live), some a.id = r.currentAttemptId :=
    fun a ha => h.current a (List.mem_filter.1 ha).1 (List.mem_filter.1 ha).2
  generalize r.attempts.filter (·.state.live) = live at hnodup hcurrent ⊢
  rcases live with _ | ⟨a, _ | ⟨b, live⟩⟩
  · exact Nat.zero_le 1
  · exact le_rfl
  · -- two live attempts would both carry the current identifier
    have hsame : some a.id = some b.id :=
      (hcurrent a (by simp)).trans (hcurrent b (by simp)).symm
    simp [Option.some.inj hsame] at hnodup

end ExecutionRecord

/-- The next state is as it should be exactly when the step meets the guard. -/
theorem singleLive_next_iff {s : ExecutionEngine} {c : Call} (hshaped : s.Every (·.Shaped))
    (hdistinct : s.Every (·.Distinct)) (hdistinct' : (engine.next s c).Every (·.Distinct))
    (h : s.Every (·.SingleLive)) : (engine.next s c).Every (·.SingleLive) ↔ AcksStarted s c := by
  constructor
  · -- the acknowledgement relieves the execution and leaves `a` as it is, live
    intro hnext id e r hop hfind hstate hcur hrec a ha hcurrent hdispatched
    obtain ⟨op, amb⟩ := c
    obtain rfl : op = .acknowledgePreempt id e := hop
    have effect : Effect s.epoch amb r (.acknowledgePreempt id e) (Outcome.plain .allow none none) _ :=
      .preemptAcknowledged hcur hrec hstate (Outcome.plain_gives _ _ _)
    have hacts := acknowledgePreempt_acts hfind effect
    have hquiet := (hnext id _ hacts.find).relieved rfl
    -- the table has no way from `DISPATCHED` to `PREEMPTED`
    have hsame : a.move .preempted = a := by
      rw [AttemptRecord.move_eq, hdispatched]
      rfl
    have hmem : a ∈ (r.retireCurrent .preempted).attempts := by
      refine List.mem_map.2 ⟨a, ha, ?_⟩
      simp [hsame]
    have hlive := hquiet a hmem
    rw [hdispatched] at hlive
    cases hlive
  · intro hG id r' hr'
    cases origin hr' with
    | idle hx => exact h id r' hx
    | created =>
        exact ExecutionRecord.Tended.singleLive (.of_quiet quiet_nil) (hdistinct' id _ hr')
    | @acted r _ hx htarget hcur effect =>
        refine (effect.tended (hshaped id r hx) (hdistinct id r hx) ?_
          (h id r hx).toTended).singleLive (hdistinct' id r' hr')
        intro id' e hop
        rw [hop] at htarget
        obtain rfl : id' = id := Option.some.inj htarget
        rw [hop] at effect
        cases effect with
        | preemptAcknowledged hcur' hrec hstate gives =>
            refine hG id' e r hop hx hstate ?_ hrec
            rw [hop] at hcur
            exact hcur

/-- With fresh identifiers, a run keeps at most one attempt of every execution
live, the current one, exactly when it acknowledges no preemption of an
attempt that never started. -/
theorem single_live_iff {e₀ : CoordinatorEpoch} {calls : List Call}
    (hfresh : FreshIds (engine.trace (init e₀) calls)) :
    (∀ cs, cs <+: calls → (engine.run (init e₀) cs).Every ExecutionRecord.SingleLive) ↔
      engine.Meets AcksStarted (init e₀) calls := by
  refine Machine.always_iff_meets (P := fun s : ExecutionEngine => s.Every ExecutionRecord.SingleLive)
    (fun id r hfind => by cases hfind) fun cs c hinit hmeets hall => ?_
  have run := runs_trace engine (init e₀) cs hmeets
  have run' := run.always.snoc c trivial
  have hfresh' := hfresh.of_prefix hinit
  rw [Machine.trace_append] at hfresh'
  apply singleLive_next_iff _ _ _ hall
  · exact fun id r hfind => (reachable_of_runs run).shaped hfind
  · exact distinct_of_runs run hfresh'.left
  · exact distinct_of_runs run' hfresh'

/-- A started attempt is preempted and resumed. -/
theorem single_live_sample :
    (engine.run (init ⟨1⟩) (Sample.dispatching ++ [Sample.starting] ++ Sample.preempting
      ++ [Sample.resuming])).Every ExecutionRecord.SingleLive := by
  have hack : ∀ s : ExecutionEngine,
      (s.find Sample.execution).map (fun r => r.attempts.map (·.state)) = some [.running] →
        AcksStarted s (Sample.call (.acknowledgePreempt Sample.execution ⟨1⟩)) := by
    intro s hrunning id e r hop hfind _ _ _ a ha _ hdispatched
    obtain ⟨rfl, rfl⟩ := Op.acknowledgePreempt.inj hop
    have hstates : r.attempts.map (·.state) = [.running] := by
      rw [hfind] at hrunning
      exact Option.some.inj hrunning
    have hmem : AttemptState.dispatched ∈ r.attempts.map (·.state) :=
      hdispatched ▸ List.mem_map_of_mem ha
    simp [hstates] at hmem
  have hother : ∀ (s : ExecutionEngine) (c : Call), (∀ id e, c.op ≠ .acknowledgePreempt id e) →
      AcksStarted s c := fun s c hne id e r hop => absurd hop (hne id e)
  have hmeets : engine.Meets AcksStarted (init ⟨1⟩) (Sample.dispatching ++ [Sample.starting]
      ++ Sample.preempting ++ [Sample.resuming]) :=
    ⟨hother _ _ nofun, hother _ _ nofun, hother _ _ nofun, hother _ _ nofun,
      hother _ _ nofun, hack _ (by decide +kernel), hother _ _ nofun, hother _ _ nofun, trivial⟩
  exact (single_live_iff (by decide +kernel)).2 hmeets _ List.prefix_rfl

/-- The first attempt is preempted before it starts, and stays `DISPATCHED`
next to the one that the resumption installs. -/
theorem two_live_attempts :
    ¬∀ e₀ h s, Runs engine Always (init e₀) h s → FreshIds h → ∀ id r, s.find id = some r →
      (r.attempts.filter (·.state.live)).length ≤ 1 := by
  intro hclaim
  let calls := Sample.dispatching ++ Sample.preempting ++ [Sample.resuming]
  have run := runs_always engine (init ⟨1⟩) calls
  have hstates : ((engine.run (init ⟨1⟩) calls).find Sample.execution).map
      (fun r => r.attempts.map (·.state)) = some [.dispatched, .dispatched] := by decide +kernel
  obtain ⟨r, hfind, hboth⟩ := Option.map_eq_some_iff.1 hstates
  have hone := hclaim ⟨1⟩ _ _ run (by decide +kernel) Sample.execution r hfind
  have hcount : (r.attempts.filter (·.state.live)).length
      = ((r.attempts.map (·.state)).filter (·.live)).length := by
    rw [List.filter_map, List.length_map]
    rfl
  rw [hcount, hboth] at hone
  revert hone
  decide

end ExecutionFabric
