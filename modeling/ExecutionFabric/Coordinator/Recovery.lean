import ExecutionFabric.Coordinator.Requests
import ExecutionFabric.Coordinator.Restart
import ExecutionFabric.Engine.Issuance

/-!
What is a ticket worth after a restart?

A recovered record still names its attempt, its owner and its generations, and
nothing is asked of the worker before it is believed again. The only fence is
the epoch: if the new engine starts above the epoch of a ticket, the ticket is
refused for good. The epoch passed to the constructor need not be larger than
the one before, so a worker may start and complete what it was given in the
life before (`ticket_outlives_restart`).

A ticket is `Usable` in an engine when nothing in the state rules out that it
is accepted later. What is not usable does not become so while identifiers are
drawn fresh, and so a restart after which no earlier ticket is usable revives
none (`recovered_never_allows`).
-/

namespace ExecutionFabric

open StepMachine ExecutionEngine History

/-! ### Usable tickets -/

/-- The states an attempt is started from. -/
def ExecutionState.startable (st : ExecutionState) : Bool := st = .dispatched || st = .resuming

namespace DispatchTicket

/-- The identifiers that a completion must not leave nil. -/
structure Identified (T : DispatchTicket) : Prop where
  execution : T.executionId.isNil = false
  worker : T.workerId.isNil = false
  boot : T.workerBootId.isNil = false

/-- The record names the attempt of the ticket, and it can still be started, or
it can still be completed under the epoch of the record. -/
structure Opens (T : DispatchTicket) (r : ExecutionRecord) : Prop where
  current : r.currentAttemptId = some T.attemptId
  live : r.state.startable = true ∨
    r.state.spent = false ∧ r.coordinatorEpoch = T.epoch ∧ T.Identified

/-- The engine may still accept the ticket, now or under a later epoch. -/
structure Usable (T : DispatchTicket) (s : ExecutionEngine) : Prop where
  epoch : s.epoch ≤ T.epoch
  record : ∃ r, s.find T.executionId = some r ∧ T.Opens r

/-- The call carries the authority of the ticket, under its epoch. -/
inductive CarriedBy (T : DispatchTicket) : Op → Prop
  | start {t : StartTicket} (named : T.NamedByStart t) (epoch : t.epoch = T.epoch) :
      CarriedBy T (.markRunning t)
  | completion {t : CompletionTicket} (named : T.NamedByCompletion t) (epoch : t.epoch = T.epoch) :
      CarriedBy T (.complete t)

end DispatchTicket

section

variable {s : ExecutionEngine} {c : Call} {T : DispatchTicket}

/-- An effect that draws another identifier does not make a ticket usable. -/
theorem Effect.opens {e : CoordinatorEpoch} {amb : Ambient} {r r' : ExecutionRecord} {op : Op}
    {o : Outcome} (effect : Effect e amb r op o r')
    (hnew : ∀ x, o.drawn = some x → x.1 ≠ T.attemptId) (h : T.Opens r') : T.Opens r := by
  have hcurrent : r.currentAttemptId = some T.attemptId := by
    have hauth' : r'.authority.attempt = some T.attemptId := h.current
    cases effect.passage with
    | kept hauth => rwa [hauth] at hauth'
    | seeded _ _ hauth => rwa [hauth] at hauth'
    | dropped hauth =>
        rw [hauth] at hauth'
        cases hauth'
    | passed worker boot hauth _ hdrawn =>
        rw [hauth] at hauth'
        exact absurd (Option.some.inj hauth') (hnew _ hdrawn)
  have hspent : r'.state.spent = false → r.state.spent = false := fun hlive => by
    by_contra hspent
    have hspent' := effect.spent hnew (fun _ => by simpa using hspent) h.current
    rw [hlive] at hspent'
    cases hspent'
  refine ⟨hcurrent, h.live.imp (fun hstartable => ?_) fun ⟨hlive, hepoch, hids⟩ => ?_⟩
  · -- only a dispatch and a resumption lead to a state an attempt is started from
    cases effect with
    | dispatched _ _ gives => exact absurd (Option.some.inj h.current) (hnew _ gives.drawn)
    | dispatchStuck _ _ gives => exact absurd (Option.some.inj h.current) (hnew _ gives.drawn)
    | resumed _ _ gives => exact absurd (Option.some.inj h.current) (hnew _ gives.drawn)
    | completeStuck => exact hstartable
    | cancelStuck => exact hstartable
    | supersedeStuck => exact hstartable
    | lost _ _ _ _ hstate =>
        rcases ExecutionState.lossTarget_cases hstate with ⟨-, rfl⟩ | ⟨-, rfl⟩ | ⟨-, rfl⟩ | ⟨-, rfl⟩
          <;> cases hstartable
    | _ => cases hstartable
  · exact ⟨hspent hlive, effect.frame.2.1.symm.trans hepoch, hids⟩

/-- A call that draws another identifier does not make a ticket usable. -/
theorem usable_step (hnew : ∀ x, (engine.out s c).drawn = some x → x.1 ≠ T.attemptId)
    (h : T.Usable (engine.next s c)) : T.Usable s := by
  obtain ⟨hepoch, r', hfind, hopens⟩ := h
  -- epochs never fall, so a ticket that is stale stays so
  refine ⟨(epoch_le_next s c).trans hepoch, ?_⟩
  cases origin hfind with
  | idle hbefore => exact ⟨r', hbefore, hopens⟩
  | created =>
      have hnone : none = some T.attemptId := hopens.current
      cases hnone
  | acted hbefore htarget hcur effect => exact ⟨_, hbefore, effect.opens hnew hopens⟩

/-- What carries a ticket and is allowed shows the ticket to be usable. -/
theorem usable_of_allowed (hcarried : T.CarriedBy c.op) (hallow : (engine.out s c).allows) :
    T.Usable s := by
  obtain ⟨op, amb⟩ := c
  cases hcarried with
  | @start t named hepoch =>
      obtain ⟨r, hfind, auth, hstate⟩ := markRunning_allows rfl hallow
      have hcur : s.epoch ≤ T.epoch :=
        (epoch_le_next s _).trans (auth.epoch.ge.trans hepoch.le)
      refine ⟨hcur, r, named.execution ▸ hfind, ?_, .inl ?_⟩
      · rw [auth.attempt, named.attempt]
      · simpa [ExecutionState.startable] using hstate
  | @completion t named hepoch =>
      obtain ⟨r, hfind, auth, hstate, -⟩ := complete_allows rfl hallow
      have hcur : s.epoch ≤ T.epoch :=
        (epoch_le_next s _).trans (auth.epoch.ge.trans hepoch.le)
      refine ⟨hcur, r, named.execution ▸ hfind, ?_, .inr ⟨?_, ?_, ?_⟩⟩
      · rw [auth.attempt, named.attempt]
      · revert hstate
        cases r.state <;> simp [ExecutionState.spent, ExecutionStateMachine.fromTo,
          ExecutionStateMachine.isTerminal]
      · exact auth.recordEpoch.symm.trans hepoch
      · obtain ⟨hexecution, -, hworker, hboot, -⟩ := auth.identified
        exact ⟨named.execution ▸ hexecution, named.worker ▸ hworker, named.boot ▸ hboot⟩

end

/-! ### The life of an incarnation -/

/-- The guard of the runs of one incarnation. -/
def NoRestart (_ : Coordinator) : Event → Prop
  | .restart _ => False
  | _ => True

/-- The tickets issued, oldest first. -/
def History.tickets (h : History) : List DispatchTicket := h.filterMap issue

section

variable {G : Coordinator → Event → Prop} {h : List (Event × Output)} {k k' : Coordinator}
  {ev : Event}

/-- Whatever happens to an incarnation is a run of its engine. -/
theorem engine_next_runs (hG : NoRestart k ev) :
    Runs engine Always k.engine (coordinator.out k ev).calls (coordinator.next k ev).engine := by
  cases ev with
  | accept => exact .refl
  | restart e => exact hG.elim
  | inbound conn type payload amb order =>
      have hfollows := Turn.decide_follows k conn type payload amb order
      show Runs engine Always k.engine (k.step (.inbound conn type payload amb order)).2.calls
        (k.step (.inbound conn type payload amb order)).1.engine
      unfold Coordinator.step
      dsimp only
      split
      · show Runs engine Always k.engine
          (Turn.decide { coordinator := k } conn type payload amb order).calls
          (Turn.decide { coordinator := k } conn type payload amb order).coordinator.engine
        rw [hfollows.made, hfollows.reached]
        exact runs_always _ _ _
      · exact .refl

theorem engine_of_runs (run : Runs coordinator NoRestart k h k') :
    Runs engine Always k.engine (engineCalls h) k'.engine := by
  induction run with
  | refl => exact .refl
  | snoc run ev hG ih =>
      rw [engineCalls_snoc]
      exact ih.trans (engine_next_runs hG)

/-- Over all incarnations, what is recorded of a call is what an engine answered. -/
theorem answered_of_runs (run : Runs coordinator G k h k') {x : Call × Outcome}
    (hx : x ∈ engineCalls h) : ∃ s, x.2 = engine.out s x.1 := by
  induction run with
  | refl => cases hx
  | @snoc h k₁ run ev hG ih =>
      rw [engineCalls_snoc] at hx
      rcases List.mem_append.1 hx with hx | hx
      · exact ih hx
      · cases ev with
        | restart e => cases hx
        | accept => cases hx
        | inbound conn type payload amb order =>
            have hG' : NoRestart k₁ (.inbound conn type payload amb order) := trivial
            exact (engine_next_runs hG').answered hx

/-- The attempt in an issued ticket was drawn. -/
theorem drawn_of_tickets (run : Runs coordinator G k h k') {T : DispatchTicket}
    (hT : T ∈ tickets (engineCalls h)) :
    ∃ id, (id, T.attemptId, T.dispatchId) ∈ draws (engineCalls h) := by
  obtain ⟨⟨c, o⟩, hx, hissue⟩ := List.mem_filterMap.1 hT
  obtain ⟨s, hout⟩ := answered_of_runs run hx
  have hout : o = engine.out s c := hout
  subst hout
  obtain ⟨id, r, htarget, -, -, hdrawn⟩ := drawn_of_ticket (ticket_of_issue hissue)
  exact ⟨id, List.mem_filterMap.2 ⟨_, hx, by simp [draw, htarget, hdrawn]⟩⟩

end

/-! ### After a restart -/

section

variable {file : Option ByteString} {e₀ e : CoordinatorEpoch} {h h' : List (Event × Output)}
  {k k' : Coordinator}

/-- If no ticket issued before a restart is usable in the engine it recovers, no
start and no completion that carries one is ever allowed by the new
incarnation. -/
theorem recovered_never_allows (run : Runs coordinator Always (.construct true file e₀) h k)
    (run' : Runs coordinator NoRestart (.construct true k.file e) h' k')
    (hfresh : FreshIds (engineCalls h ++ engineCalls h'))
    (hspent : ∀ T ∈ tickets (engineCalls h),
      ¬T.Usable (Coordinator.construct true k.file e).engine) :
    ∀ T ∈ tickets (engineCalls h), ∀ x ∈ engineCalls h', T.CarriedBy x.1.op → ¬x.2.allows := by
  intro T hT x hx hcarried hallow
  obtain ⟨id, hdrawn⟩ := drawn_of_tickets run hT
  obtain ⟨h₁, h₂, hsplit⟩ := List.append_of_mem hx
  have hengine := engine_of_runs run'
  rw [hsplit] at hengine hfresh
  obtain ⟨s, hbefore, -, hout, -⟩ := hengine.at_event
  rw [← List.append_assoc] at hfresh
  -- no call before the one in question draws the attempt of the ticket again
  have hnot : ¬T.Usable s :=
    undrawn_runs (P := fun s => ¬T.Usable s) hbefore hfresh.left.attempts hdrawn
      (fun _ _ _ hnew hunusable husable => hunusable (usable_step hnew husable)) (hspent T hT)
  exact hnot (usable_of_allowed hcarried (hout ▸ hallow))

end

namespace Sample

/-- A worker connects and is dispatched the execution `execution`. -/
def assigning : List Event :=
  connecting ++ [submitFrame execution 1, dispatchFrame execution 10 1]

/-- The coordinator after that. -/
def assigned : Coordinator := coordinator.run (.construct true none ⟨1⟩) assigning

/-- The coordinator started next, and the start that the worker then sends. -/
def returning (e : CoordinatorEpoch) : List (Event × Output) :=
  coordinator.trace (.construct true assigned.file e) [startFrame 10 1]

theorem runs_assigning : Runs coordinator Always (.construct true none ⟨1⟩)
    (coordinator.trace (.construct true none ⟨1⟩) assigning) assigned :=
  runs_always _ _ _

theorem runs_returning (e : CoordinatorEpoch) :
    Runs coordinator NoRestart (.construct true assigned.file e) (returning e)
      (coordinator.run (.construct true assigned.file e) [startFrame 10 1]) :=
  runs_trace _ _ _ ⟨trivial, trivial⟩

/-- The ticket of a start. -/
def started (op : Op) : Option StartTicket :=
  match op with
  | .markRunning t => some t
  | _ => none

theorem carriedBy_of_started {op : Op} {T : DispatchTicket} (h : started op = some T.start) :
    T.CarriedBy op := by
  cases op with
  | markRunning t =>
      obtain rfl : t = T.start := Option.some.inj h
      exact .start ⟨rfl, rfl, rfl, rfl, rfl, rfl, rfl, rfl⟩ rfl
  | _ => cases h

end Sample

set_option maxRecDepth 20000 in
/-- The coordinator is started again under a larger epoch, and the worker comes
back with its ticket. -/
theorem recovered_never_allows_sample :
    ∃ x ∈ engineCalls (Sample.returning ⟨2⟩), (Sample.ticket 10).CarriedBy x.1.op ∧ ¬x.2.allows := by
  have htickets : tickets (engineCalls (coordinator.trace (.construct true none ⟨1⟩)
        Sample.assigning)) = [Sample.ticket 10] ∧
      FreshIds (engineCalls (coordinator.trace (.construct true none ⟨1⟩) Sample.assigning)
        ++ engineCalls (Sample.returning ⟨2⟩)) ∧
      (Coordinator.construct true Sample.assigned.file ⟨2⟩).engine.epoch = ⟨2⟩ ∧
      ∃ x ∈ engineCalls (Sample.returning ⟨2⟩),
        Sample.started x.1.op = some (Sample.ticket 10).start := by decide +kernel
  obtain ⟨hissued, hfresh, hepoch, x, hx, hstart⟩ := htickets
  have hcarried := Sample.carriedBy_of_started hstart
  refine ⟨x, hx, hcarried, ?_⟩
  refine recovered_never_allows Sample.runs_assigning (Sample.runs_returning ⟨2⟩) hfresh ?_ _ ?_ x
    hx hcarried
  · intro T hT husable
    rw [hissued, List.mem_singleton] at hT
    have hle := husable.epoch
    rw [hepoch, hT] at hle
    revert hle
    decide
  · rw [hissued]
    exact List.mem_singleton_self _

set_option maxRecDepth 20000 in
/-- The coordinator is started again under the same epoch, and the start of the
attempt it had dispatched before is allowed. -/
theorem ticket_outlives_restart :
    ¬∀ (file : Option ByteString) (e₀ e : CoordinatorEpoch) (h h' : List (Event × Output))
      (k k' : Coordinator), Runs coordinator Always (.construct true file e₀) h k →
      Runs coordinator NoRestart (.construct true k.file e) h' k' →
      FreshIds (engineCalls h ++ engineCalls h') →
      ∀ T ∈ tickets (engineCalls h), ∀ x ∈ engineCalls h', T.CarriedBy x.1.op →
        ¬x.2.allows := by
  intro hclaim
  have hfacts : Sample.ticket 10 ∈ tickets (engineCalls (coordinator.trace
        (.construct true none ⟨1⟩) Sample.assigning)) ∧
      FreshIds (engineCalls (coordinator.trace (.construct true none ⟨1⟩) Sample.assigning)
        ++ engineCalls (Sample.returning ⟨1⟩)) ∧
      ∃ x ∈ engineCalls (Sample.returning ⟨1⟩),
        Sample.started x.1.op = some (Sample.ticket 10).start ∧ x.2.code? = some .allow := by
    decide +kernel
  obtain ⟨hissued, hfresh, x, hx, hstart, hallow⟩ := hfacts
  exact hclaim none ⟨1⟩ ⟨1⟩ _ _ _ _ Sample.runs_assigning (Sample.runs_returning ⟨1⟩) hfresh _
    hissued x hx (Sample.carriedBy_of_started hstart) hallow

end ExecutionFabric
