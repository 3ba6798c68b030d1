import ExecutionFabric.Engine

/-!
What one call can do.

The operations of the engine are long if-chains; this module says once what
comes out of them. `Effect` is the relation between a record before and after
a call that wrote to it, one constructor for each path of the source that
stores a record, with the checks that path has passed. `Effects` is the same
for the whole engine: a call is refused, repeats a request that is already in
flight, only adopts an epoch, creates a record, or has an `Effect` on one
record. `step_effects` proves that nothing else happens; every invariant is
derived from it, and no later proof opens an operation to see what it may do.

Some of the constructors are paths that answer with a refusal and store
something all the same: their names end in `Stuck`.
-/

namespace ExecutionFabric

open Collections StepMachine

/-- A decision that is allowed only if it is `ALLOW`. -/
def Decision.Plain (d : Decision) : Prop := d.code ≠ .allow → d.allowed = false

/-- What an outcome says, its texts left out. -/
structure Outcome.Gives (o : Outcome) (code : DecisionCode) (ticket : Option DispatchTicket)
    (drawn : Option (AttemptId × DispatchId)) : Prop where
  code : o.code? = some code
  ticket : o.ticket = ticket
  drawn : o.drawn = drawn

/-- The outcome is a refusal: a decision that is not `allowed()`, and nothing
issued. -/
structure Outcome.Refuses (o : Outcome) : Prop where
  allowed : o.allowed = false
  code : o.code? ≠ some .allow
  ticket : o.ticket = none
  drawn : o.drawn = none

/-- The loop of `dispatch` touches the attempts only. -/
theorem ExecutionRecord.supersedeCurrent_eq (r : ExecutionRecord) :
    r.supersedeCurrent = { r with
      attempts := match r.currentAttemptId with
        | none => r.attempts
        | some current => updateFirst
            (fun a => a.id == current && !AttemptStateMachine.isTerminal a.state)
            (·.move .superseded) r.attempts } := by
  obtain ⟨_, _, _, _, _, _, current, _⟩ := r
  cases current <;> rfl

namespace ExecutionEngine

/-! ### Reading decisions and states back -/

section

variable (s : ExecutionEngine) (d : Decision) (r : ExecutionRecord)

@[simp] theorem fillContext_code : (fillContext d r).code = d.code := rfl

@[simp] theorem refuse_code (code : DecisionCode) (reason : String) :
    (refuse code reason).code = code := rfl

theorem transition_of_fromTo (target : ExecutionState)
    (h : ExecutionStateMachine.fromTo r.state target = true) :
    (transition r target).1.code = .allow ∧ (transition r target).2 = { r with state := target } := by
  simp [transition, h]

theorem transition_of_not_fromTo (target : ExecutionState)
    (h : ExecutionStateMachine.fromTo r.state target = false) :
    (transition r target).1.code = .rejectAlreadyTerminal ∧ (transition r target).2 = r := by
  simp [transition, h]

@[simp] theorem store_epoch (id : ExecutionId) : (s.store id r).epoch = s.epoch := rfl

theorem find_store (id k : ExecutionId) :
    (s.store id r).find k = if k = id then some r else s.find k := by
  by_cases hk : k = id
  · subst hk
    simp [find, store]
  · simp [find, store, hk, Finmap.lookup_insert_of_ne]

@[simp] theorem find_store_self (id : ExecutionId) : (s.store id r).find id = some r := by
  simp [find_store]

theorem find_store_of_ne {id k : ExecutionId} (hk : k ≠ id) :
    (s.store id r).find k = s.find k := by
  simp [find_store, hk]

@[simp] theorem find_adoptEpoch (e : CoordinatorEpoch) (k : ExecutionId) :
    (s.adoptEpoch e).find k = s.find k := by
  unfold adoptEpoch
  split <;> rfl

theorem adoptEpoch_epoch (e : CoordinatorEpoch) : (s.adoptEpoch e).epoch = max s.epoch e := by
  unfold adoptEpoch
  split
  · rename_i h
    exact (max_eq_right h.le).symm
  · rename_i h
    exact (max_eq_left (not_lt.1 h)).symm

/-- Past the stale check, the epoch after adoption is the argument. -/
theorem adoptEpoch_epoch_of_le {e : CoordinatorEpoch} (h : s.epoch ≤ e) :
    (s.adoptEpoch e).epoch = e := by
  rw [adoptEpoch_epoch, max_eq_right h]

theorem adoptEpoch_eq_self_iff {e : CoordinatorEpoch} : s.adoptEpoch e = s ↔ e ≤ s.epoch := by
  refine ⟨fun h => ?_, fun h => by simp [adoptEpoch, not_lt.2 h]⟩
  have hmax := s.adoptEpoch_epoch e
  rw [h] at hmax
  exact max_eq_left_iff.1 hmax.symm

/-- Storing a record is seen exactly when it differs from the one found. -/
theorem store_eq_self_iff {id : ExecutionId} {r' : ExecutionRecord} (h : s.find id = some r) :
    s.store id r' = s ↔ r' = r := by
  constructor
  · intro heq
    have hfind := s.find_store_self r' id
    rw [heq, h] at hfind
    exact (Option.some.inj hfind).symm
  · rintro rfl
    have hrec : s.records.insert id r' = s.records := by
      refine Finmap.ext_lookup fun k => ?_
      refine (s.find_store r' id k).trans ?_
      split
      · rename_i hk
        rw [hk]
        exact h.symm
      · rfl
    simp [store, hrec]

end

/-! ### The two validators -/

/-- The checks of `validate_start`, as facts about record and ticket. -/
structure StartAuthorised (e : CoordinatorEpoch) (r : ExecutionRecord) (t : StartTicket) :
    Prop where
  epoch : t.epoch = e
  generation : t.executionGeneration = r.generation
  attempt : r.currentAttemptId = some t.attemptId
  attemptGeneration : r.currentAttemptGeneration = some t.attemptGeneration
  worker : r.ownerWorker = some t.workerId
  boot : r.ownerWorkerBoot = some t.workerBootId
  ownership : t.ownershipGeneration = r.ownershipGeneration
  fence : t.fenceGeneration = r.fenceGeneration

/-- The checks of `validate_ticket`, as facts about record and ticket. -/
structure CompletionAuthorised (e : CoordinatorEpoch) (r : ExecutionRecord)
    (t : CompletionTicket) : Prop where
  identified : t.executionId.isNil = false ∧ t.attemptId.isNil = false ∧
    t.workerId.isNil = false ∧ t.workerBootId.isNil = false ∧ t.dispatchId.isNil = false
  counted : t.attemptGeneration.isSet = true ∧ t.executionGeneration.isSet = true ∧
    t.ownershipGeneration.isSet = true ∧ t.fenceGeneration.isSet = true
  epoch : t.epoch = e
  recordEpoch : t.epoch = r.coordinatorEpoch
  generation : t.executionGeneration = r.generation
  attempt : r.currentAttemptId = some t.attemptId
  attemptGeneration : r.currentAttemptGeneration = some t.attemptGeneration
  worker : r.ownerWorker = some t.workerId
  boot : r.ownerWorkerBoot = some t.workerBootId
  ownership : t.ownershipGeneration = r.ownershipGeneration
  fence : t.fenceGeneration = r.fenceGeneration
  dispatch : ∀ a ∈ r.attempts, a.id = t.attemptId → a.dispatchId = t.dispatchId

/-- A chain of checks answers `ALLOW` when every check lets it pass. -/
theorem check_code {c : Prop} [Decidable c] {code : DecisionCode} {reason : String} {d : Decision} :
    (if c then refuse code reason else d).code = .allow ↔
      (¬c ∨ code = .allow) ∧ (c ∨ d.code = .allow) := by
  split <;> simp_all

theorem plain_refuse {code : DecisionCode} {reason : String} (h₁ : code ≠ .retryAllowed)
    (h₂ : code ≠ .resumeAllowed) : (refuse code reason).Plain := by
  intro h
  simp_all [Decision.allowed]

theorem plain_check {c : Prop} [Decidable c] {code : DecisionCode} {reason : String} {d : Decision}
    (h₁ : code ≠ .retryAllowed) (h₂ : code ≠ .resumeAllowed) (hd : d.Plain) :
    (if c then refuse code reason else d).Plain := by
  split
  · exact plain_refuse h₁ h₂
  · exact hd

theorem validateStart_iff {s : ExecutionEngine} {r : ExecutionRecord} {t : StartTicket} :
    (s.validateStart r t).code = .allow ↔ StartAuthorised s.epoch r t := by
  simp only [validateStart, check_code, reduceCtorEq, or_false, or_true, and_true]
  constructor
  · intro h
    constructor <;> grind
  · rintro ⟨h₁, h₂, h₃, h₄, h₅, h₆, h₇, h₈⟩
    simp [h₁, h₂, h₃, h₄, h₅, h₆, h₇, h₈]

theorem validateStart_plain (s : ExecutionEngine) (r : ExecutionRecord) (t : StartTicket) :
    (s.validateStart r t).Plain := by
  unfold validateStart
  repeat refine plain_check (by decide) (by decide) ?_
  exact fun h => absurd rfl h

theorem validateTicket_iff {s : ExecutionEngine} {r : ExecutionRecord} {t : CompletionTicket} :
    (s.validateTicket r t).code = .allow ↔ CompletionAuthorised s.epoch r t := by
  simp only [validateTicket, check_code, reduceCtorEq, or_false, or_true, and_true]
  constructor
  · intro h
    constructor <;> grind
  · rintro ⟨h₁, h₂, h₃, h₄, h₅, h₆, h₇, h₈, h₉, h₁₀, h₁₁, h₁₂⟩
    grind

theorem validateTicket_plain (s : ExecutionEngine) (r : ExecutionRecord) (t : CompletionTicket) :
    (s.validateTicket r t).Plain := by
  unfold validateTicket
  repeat refine plain_check (by decide) (by decide) ?_
  exact fun h => absurd rfl h

end ExecutionEngine

/-! ### Effects on one record -/

namespace Op

/-- The execution a call addresses. -/
def target : Op → Option ExecutionId
  | create id _ | activate id _ | dispatch id _ _ _ | finalizeCancel id _
  | acknowledgePreempt id _ | markResumable id _ | resume id _ _ _ _ | markWorkerLost id _ _ _
  | supersede id _ => some id
  | markRunning t => some t.executionId
  | complete t => some t.executionId
  | cancel req | preempt req => some req.executionId
  | raiseEpoch _ => none

/-- The epoch a call presents. -/
def epoch : Op → CoordinatorEpoch
  | create _ e | activate _ e | dispatch _ _ _ e | finalizeCancel _ e | acknowledgePreempt _ e
  | markResumable _ e | resume _ _ _ e _ | markWorkerLost _ _ _ e | supersede _ e
  | raiseEpoch e => e
  | markRunning t => t.epoch
  | complete t => t.epoch
  | cancel req | preempt req => req.epoch

/-- The calls whose epoch is adopted once it is known not to be stale. -/
def adopts : Op → Bool
  | create .. | activate .. | dispatch .. => true
  | _ => false

end Op

namespace ExecutionState

/-- The states `dispatch` can install and start an attempt from. -/
def dispatchable (st : ExecutionState) : Bool := st ∈ [ready, dispatched, running, ambiguous]

/-- The states a requested cancellation goes in flight from. -/
def cancellable (st : ExecutionState) : Bool := st ∈ [ready, dispatched, running]

/-- Where an authoritative worker loss leads. -/
def lossTarget : ExecutionState → Option ExecutionState
  | dispatched => some ready
  | running => some ambiguous
  | cancellationRequested => some cancelled
  | preemptionRequested => some preempted
  | _ => none

theorem lossTarget_cases {st target : ExecutionState} (h : st.lossTarget = some target) :
    (st = dispatched ∧ target = ready) ∨ (st = running ∧ target = ambiguous) ∨
      (st = cancellationRequested ∧ target = cancelled) ∨
      (st = preemptionRequested ∧ target = preempted) := by
  cases st <;> simp_all [lossTarget]

end ExecutionState

open ExecutionEngine ExecutionStateMachine

/-- A control request that passes the authority checks on a record. -/
structure ControlRequest.Authorised (e : CoordinatorEpoch) (r : ExecutionRecord)
    (req : ControlRequest) : Prop where
  epoch : req.epoch = e
  recordEpoch : req.epoch = r.coordinatorEpoch
  owner : req.authorityGeneration = r.ownershipGeneration

/-- A call that stores a record: the record before, the call, its outcome, and
the record after. `e` is the epoch of the engine once the call's own epoch has
been adopted. -/
inductive Effect (e : CoordinatorEpoch) (amb : Ambient) (r : ExecutionRecord) :
    Op → Outcome → ExecutionRecord → Prop
  | activated {id : ExecutionId} {o : Outcome} (hrec : r.coordinatorEpoch ≤ e)
      (hstate : r.state = .created) (gives : o.Gives .allow none none) :
      Effect e amb r (.activate id e) o
        { r with ownershipGeneration := ⟨1⟩, fenceGeneration := ⟨1⟩, state := .ready }
  | dispatched {id : ExecutionId} {worker : WorkerId} {boot : WorkerBootId} {o : Outcome}
      (hrec : r.coordinatorEpoch ≤ e) (hstate : r.state.dispatchable = true)
      (gives : o.Gives .allow (some (r.ticketFor e (r.nextAttempt amb worker boot)))
        (some (Id.random amb.attemptWords, Id.random amb.dispatchWords))) :
      Effect e amb r (.dispatch id worker boot e) o
        { r.supersedeCurrent.install (r.nextAttempt amb worker boot) with state := .dispatched }
  | dispatchStuck {id : ExecutionId} {worker : WorkerId} {boot : WorkerBootId} {o : Outcome}
      (hrec : r.coordinatorEpoch ≤ e) (hstate : r.state = .resuming)
      (gives : o.Gives .rejectAlreadyTerminal none
        (some (Id.random amb.attemptWords, Id.random amb.dispatchWords))) :
      Effect e amb r (.dispatch id worker boot e) o
        (r.supersedeCurrent.install (r.nextAttempt amb worker boot))
  | started {t : StartTicket} {o : Outcome} (auth : StartAuthorised e r t)
      (hstate : r.state = .dispatched ∨ r.state = .resuming) (gives : o.Gives .allow none none) :
      Effect e amb r (.markRunning t) o { r.startAttempt t.attemptId with state := .running }
  | committed {t : CompletionTicket} {o : Outcome} (auth : CompletionAuthorised e r t)
      (hstate : fromTo r.state .completed = true) (hresult : t.hasResult = true)
      (hdigest : t.resultDigest.isNil = false) (gives : o.Gives .allow none none) :
      Effect e amb r (.complete t) o
        { r.completeAttempt t.attemptId t.resultDigest with
          committedDigest := some t.resultDigest
          commitGeneration := r.commitGeneration.next
          committedAt := amb.now
          state := .committed }
  | completeStuck {t : CompletionTicket} {o : Outcome} (auth : CompletionAuthorised e r t)
      (hstate : fromTo r.state .completed = false) (hlive : isTerminal r.state = false)
      (hpre : r.state ≠ .preempted) (hresult : t.hasResult = true)
      (hdigest : t.resultDigest.isNil = false) (gives : o.Gives .rejectAlreadyTerminal none none) :
      Effect e amb r (.complete t) o (r.completeAttempt t.attemptId t.resultDigest)
  | cancelledEarly {req : ControlRequest} {o : Outcome} (auth : req.Authorised e r)
      (hstate : r.state = .created) (gives : o.Gives .allow none none) :
      Effect e amb r (.cancel req) o
        { r with cancellationGeneration := r.cancellationGeneration.next, state := .cancelled }
  | cancelRequested {req : ControlRequest} {o : Outcome} (auth : req.Authorised e r)
      (hstate : r.state.cancellable = true) (gives : o.Gives .allow none none) :
      Effect e amb r (.cancel req) o
        { r with
          cancellationGeneration := r.cancellationGeneration.next
          state := .cancellationRequested }
  | cancelStuck {req : ControlRequest} {o : Outcome} (auth : req.Authorised e r)
      (hstate : r.state.cancellable = false) (hlive : isTerminal r.state = false)
      (hnew : r.state ≠ .created) (hflight : r.state ≠ .cancellationRequested)
      (gives : o.Gives .rejectNotOwner none none) :
      Effect e amb r (.cancel req) o
        { r with cancellationGeneration := r.cancellationGeneration.next }
  | cancelFinalized {id : ExecutionId} {epoch : CoordinatorEpoch} {o : Outcome} (hcur : e ≤ epoch)
      (hrec : r.coordinatorEpoch ≤ epoch) (hstate : r.state = .cancellationRequested)
      (gives : o.Gives .allow none none) :
      Effect e amb r (.finalizeCancel id epoch) o
        { r.retireCurrent .cancelled with state := .cancelled }
  | preemptRequested {req : ControlRequest} {o : Outcome} (auth : req.Authorised e r)
      (hstate : r.state = .dispatched ∨ r.state = .running) (gives : o.Gives .allow none none) :
      Effect e amb r (.preempt req) o
        { r with
          preemptionGeneration := r.preemptionGeneration.next
          state := .preemptionRequested }
  | preemptAcknowledged {id : ExecutionId} {epoch : CoordinatorEpoch} {o : Outcome}
      (hcur : e ≤ epoch) (hrec : r.coordinatorEpoch ≤ epoch)
      (hstate : r.state = .preemptionRequested) (gives : o.Gives .allow none none) :
      Effect e amb r (.acknowledgePreempt id epoch) o
        { r.retireCurrent .preempted with state := .preempted }
  | madeResumable {id : ExecutionId} {epoch : CoordinatorEpoch} {o : Outcome} (hcur : e ≤ epoch)
      (hrec : r.coordinatorEpoch ≤ epoch) (hstate : r.state = .preempted)
      (gives : o.Gives .allow none none) :
      Effect e amb r (.markResumable id epoch) o { r with state := .resumable }
  | resumed {id : ExecutionId} {worker : WorkerId} {boot : WorkerBootId} {o : Outcome}
      (hrec : r.coordinatorEpoch = e) (hstate : r.state = .resumable)
      (gives : o.Gives .resumeAllowed (some (r.ticketFor e (r.nextAttempt amb worker boot)))
        (some (Id.random amb.attemptWords, Id.random amb.dispatchWords))) :
      Effect e amb r (.resume id worker boot e r.resumeGeneration.next) o
        { r.supersedePreempted.install (r.nextAttempt amb worker boot) with
          resumeGeneration := r.resumeGeneration.next
          state := .resuming }
  | lost {id : ExecutionId} {worker : WorkerId} {boot : WorkerBootId} {epoch : CoordinatorEpoch}
      {o : Outcome} {target : ExecutionState} (hcur : e ≤ epoch) (hrec : r.coordinatorEpoch ≤ epoch)
      (hworker : r.ownerWorker = some worker) (hboot : r.ownerWorkerBoot = some boot)
      (hstate : r.state.lossTarget = some target) (gives : o.Gives .allow none none) :
      Effect e amb r (.markWorkerLost id worker boot epoch) o { r.loseCurrent with state := target }
  | superseded {id : ExecutionId} {o : Outcome} (hrec : r.coordinatorEpoch = e)
      (hstate : fromTo r.state .superseded = true) (gives : o.Gives .allow none none) :
      Effect e amb r (.supersede id e) o
        { (r.retireCurrent .superseded).dropAuthority with state := .superseded }
  | supersedeStuck {id : ExecutionId} {o : Outcome} (hrec : r.coordinatorEpoch = e)
      (hstate : fromTo r.state .superseded = false) (hlive : isTerminal r.state = false)
      (gives : o.Gives .rejectAlreadyTerminal none none) :
      Effect e amb r (.supersede id e) o (r.retireCurrent .superseded).dropAuthority

/-- No effect touches the identity, the epoch or the creation time. -/
theorem Effect.frame {e : CoordinatorEpoch} {amb : Ambient} {r r' : ExecutionRecord} {op : Op}
    {o : Outcome} (effect : Effect e amb r op o r') :
    r'.id = r.id ∧ r'.coordinatorEpoch = r.coordinatorEpoch ∧ r'.createdAt = r.createdAt := by
  cases effect <;> first
    | exact ⟨rfl, rfl, rfl⟩
    | simp [ExecutionRecord.install, ExecutionRecord.supersedeCurrent_eq]

/-- Terminal states are absorbing: nothing has an effect on a terminal record. -/
theorem Effect.live {e : CoordinatorEpoch} {amb : Ambient} {r r' : ExecutionRecord} {op : Op}
    {o : Outcome} (effect : Effect e amb r op o r') : isTerminal r.state = false := by
  have hfrom : ∀ {target}, fromTo r.state target = true → isTerminal r.state = false := by
    intro target h
    by_contra hterminal
    rw [fromTo_of_isTerminal (by simpa using hterminal)] at h
    cases h
  cases effect with
  | activated hrec hstate gives => rw [hstate]; rfl
  | dispatched hrec hstate gives =>
      revert hstate
      cases r.state <;> simp [ExecutionState.dispatchable, isTerminal]
  | dispatchStuck hrec hstate gives => rw [hstate]; rfl
  | started auth hstate gives => rcases hstate with h | h <;> rw [h] <;> rfl
  | committed auth hstate hresult hdigest gives => exact hfrom hstate
  | completeStuck auth hstate hlive hpre hresult hdigest gives => exact hlive
  | cancelledEarly auth hstate gives => rw [hstate]; rfl
  | cancelRequested auth hstate gives =>
      revert hstate
      cases r.state <;> simp [ExecutionState.cancellable, isTerminal]
  | cancelStuck auth hstate hlive hnew hflight gives => exact hlive
  | cancelFinalized hcur hrec hstate gives => rw [hstate]; rfl
  | preemptRequested auth hstate gives => rcases hstate with h | h <;> rw [h] <;> rfl
  | preemptAcknowledged hcur hrec hstate gives => rw [hstate]; rfl
  | madeResumable hcur hrec hstate gives => rw [hstate]; rfl
  | resumed hrec hstate gives => rw [hstate]; rfl
  | lost hcur hrec hworker hboot hstate gives =>
      rcases ExecutionState.lossTarget_cases hstate with ⟨h, _⟩ | ⟨h, _⟩ | ⟨h, _⟩ | ⟨h, _⟩
        <;> rw [h] <;> rfl
  | superseded hrec hstate gives => exact hfrom hstate
  | supersedeStuck hrec hstate hlive gives => exact hlive

/-! ### Effects on the engine -/

namespace ExecutionEngine

/-- The engine once a call has passed its stale check. -/
def adoptFor (s : ExecutionEngine) (op : Op) : ExecutionEngine :=
  if op.adopts then s.adoptEpoch op.epoch else s

@[simp] theorem find_adoptFor (s : ExecutionEngine) (op : Op) (k : ExecutionId) :
    (s.adoptFor op).find k = s.find k := by
  unfold adoptFor
  split
  · exact s.find_adoptEpoch _ k
  · rfl

theorem epoch_le_adoptFor (s : ExecutionEngine) (op : Op) : s.epoch ≤ (s.adoptFor op).epoch := by
  unfold adoptFor
  split
  · rw [adoptEpoch_epoch]
    exact le_max_left _ _
  · exact le_rfl

/-- The record `create` makes. -/
def newRecord (amb : Ambient) (id : ExecutionId) (e : CoordinatorEpoch) : ExecutionRecord :=
  { id, generation := ⟨1⟩, coordinatorEpoch := e, createdAt := amb.now }

/-- The calls that pass the stale check, so that their epoch is adopted, and
are refused afterwards. -/
inductive Adopts (s : ExecutionEngine) : Op → Prop
  | create {id : ExecutionId} {e : CoordinatorEpoch} (hcur : s.epoch ≤ e)
      (hold : (s.find id).isSome = true) : Adopts s (.create id e)
  | activate {id : ExecutionId} {e : CoordinatorEpoch} {r : ExecutionRecord} (hcur : s.epoch ≤ e)
      (hfind : s.find id = some r) (hrec : r.coordinatorEpoch ≤ e) (hstate : r.state ≠ .created) :
      Adopts s (.activate id e)
  | dispatch {id : ExecutionId} {worker : WorkerId} {boot : WorkerBootId} {e : CoordinatorEpoch}
      {r : ExecutionRecord} (hcur : s.epoch ≤ e) (hfind : s.find id = some r)
      (hrec : r.coordinatorEpoch ≤ e) (hstate : r.state.dispatchable = false)
      (hresuming : r.state ≠ .resuming) : Adopts s (.dispatch id worker boot e)

/-- The requests that find what they ask for already done. -/
inductive Repeats (s : ExecutionEngine) : Op → Prop
  | cancel {req : ControlRequest} {r : ExecutionRecord} (hfind : s.find req.executionId = some r)
      (auth : req.Authorised s.epoch r) (hstate : r.state = .cancellationRequested) :
      Repeats s (.cancel req)
  | finalizeCancel {id : ExecutionId} {epoch : CoordinatorEpoch} {r : ExecutionRecord}
      (hfind : s.find id = some r) (hcur : s.epoch ≤ epoch) (hstate : r.state = .cancelled) :
      Repeats s (.finalizeCancel id epoch)
  | preempt {req : ControlRequest} {r : ExecutionRecord} (hfind : s.find req.executionId = some r)
      (auth : req.Authorised s.epoch r) (hstate : r.state = .preemptionRequested) :
      Repeats s (.preempt req)

/-- One call on the engine: its outcome and the engine after it. -/
inductive Effects (s : ExecutionEngine) (amb : Ambient) : Op → Outcome → ExecutionEngine → Prop
  | raised (e : CoordinatorEpoch) : Effects s amb (.raiseEpoch e) {} (s.adoptEpoch e)
  | refused {op : Op} {o : Outcome} (refuses : o.Refuses) : Effects s amb op o s
  | adopted {op : Op} {o : Outcome} (adopts : s.Adopts op) (refuses : o.Refuses) :
      Effects s amb op o (s.adoptEpoch op.epoch)
  | repeated {op : Op} {o : Outcome} (repeats : s.Repeats op) (gives : o.Gives .allow none none) :
      Effects s amb op o s
  | created {id : ExecutionId} {e : CoordinatorEpoch} {o : Outcome} (hcur : s.epoch ≤ e)
      (hnew : s.find id = none) (gives : o.Gives .allow none none) :
      Effects s amb (.create id e) o ((s.adoptEpoch e).store id (newRecord amb id e))
  | acted {op : Op} {o : Outcome} {id : ExecutionId} {r r' : ExecutionRecord}
      (htarget : op.target = some id) (hfind : s.find id = some r) (hcur : s.epoch ≤ op.epoch)
      (effect : Effect (s.adoptFor op).epoch amb r op o r') :
      Effects s amb op o ((s.adoptFor op).store id r')

variable {s : ExecutionEngine} {amb : Ambient} {op : Op} {d : Decision}

theorem refuses_of (h : d.allowed = false) : Outcome.Refuses { decision := some d } where
  allowed := h
  code := by
    intro hcode
    have hallow : d.code = .allow := by simpa [Outcome.code?] using hcode
    simp [Decision.allowed, hallow] at h
  ticket := rfl
  drawn := rfl

/-- A refusing exit of an operation. -/
theorem effects_of_refusal (h : d.allowed = false) : Effects s amb op { decision := some d } s :=
  .refused (refuses_of h)

theorem gives_of {code : DecisionCode} (h : d.code = code) :
    Outcome.Gives { decision := some d } code none none :=
  ⟨by simp [Outcome.code?, h], rfl, rfl⟩

/-! ### One operation at a time -/

theorem create_effects (s : ExecutionEngine) (amb : Ambient) (id : ExecutionId)
    (e : CoordinatorEpoch) :
    Effects s amb (.create id e) (decided (s.create amb id e)).2 (s.create amb id e).2 := by
  unfold create decided
  by_cases hstale : e < s.epoch
  · simp only [hstale, if_true]
    exact effects_of_refusal rfl
  have hcur : s.epoch ≤ e := not_lt.1 hstale
  simp only [hstale, if_false, find_adoptEpoch]
  split
  · rename_i hold
    exact .adopted (.create hcur hold) (refuses_of rfl)
  · rename_i hnew
    rw [adoptEpoch_epoch_of_le _ hcur]
    exact .created hcur (by simpa using hnew) (gives_of rfl)

theorem activate_effects (s : ExecutionEngine) (amb : Ambient) (id : ExecutionId)
    (e : CoordinatorEpoch) {res : Decision × ExecutionEngine} (h : s.activate id e = .ok res) :
    Effects s amb (.activate id e) (decided res).2 res.2 := by
  unfold activate at h
  cases hfind : s.find id with
  | none => simp [hfind] at h
  | some r =>
      simp only [hfind, Except.ok.injEq] at h
      by_cases hstale : e < s.epoch ∨ e < r.coordinatorEpoch
      · rw [if_pos hstale] at h
        subst h
        exact effects_of_refusal rfl
      obtain ⟨hcur, hrec⟩ : s.epoch ≤ e ∧ r.coordinatorEpoch ≤ e := by simpa using hstale
      rw [if_neg hstale] at h
      by_cases hstate : r.state = .created
      · have htr := transition_of_fromTo
          { r with ownershipGeneration := ⟨1⟩, fenceGeneration := ⟨1⟩ } .ready
          (by simp [hstate, fromTo])
        rw [if_neg (not_not.2 hstate), htr.2] at h
        subst h
        refine .acted rfl hfind hcur ?_
        change Effect (s.adoptEpoch e).epoch amb r _ _ _
        rw [s.adoptEpoch_epoch_of_le hcur]
        exact .activated hrec hstate (gives_of htr.1)
      · rw [if_pos hstate] at h
        subst h
        exact .adopted (.activate hcur hfind hrec hstate) (refuses_of rfl)

theorem dispatch_effects (s : ExecutionEngine) (amb : Ambient) (id : ExecutionId)
    (worker : WorkerId) (boot : WorkerBootId) (e : CoordinatorEpoch) {i : Issue}
    (h : s.dispatch amb id worker boot e = .ok i) :
    Effects s amb (.dispatch id worker boot e) (issued i).2 i.engine := by
  unfold dispatch at h
  cases hfind : s.find id with
  | none => simp [hfind] at h
  | some r =>
      simp only [hfind, Except.ok.injEq] at h
      by_cases hstale : e < s.epoch ∨ e < r.coordinatorEpoch
      · rw [if_pos hstale] at h
        subst h
        exact effects_of_refusal rfl
      obtain ⟨hcur, hrec⟩ : s.epoch ≤ e ∧ r.coordinatorEpoch ≤ e := by simpa using hstale
      have hadopted : ∀ d : Decision, d.allowed = false → r.state.dispatchable = false →
          r.state ≠ .resuming → Effects s amb (.dispatch id worker boot e)
            (issued { decision := d, engine := s.adoptEpoch e }).2 (s.adoptEpoch e) :=
        fun d hd hdisp hres => .adopted (.dispatch hcur hfind hrec hdisp hres) (refuses_of hd)
      have hepoch := s.adoptEpoch_epoch_of_le hcur
      rw [if_neg hstale] at h
      -- every state has exactly one branch
      cases hstate : r.state <;> simp only [hstate, reduceCtorEq, if_false, if_true, or_self,
        or_true, true_or, not_true_eq_false, not_false_eq_true] at h
      case ready | dispatched | running | ambiguous =>
        have htr := transition_of_fromTo (r.supersedeCurrent.install (r.nextAttempt amb worker boot))
          .dispatched
          (by simp [ExecutionRecord.install, ExecutionRecord.supersedeCurrent_eq, hstate, fromTo])
        simp only [htr.1, htr.2, ne_eq, not_true_eq_false, if_false] at h
        subst h
        refine .acted rfl hfind hcur ?_
        change Effect (s.adoptEpoch e).epoch amb r _ _ _
        rw [hepoch]
        refine .dispatched hrec (by simp [hstate, ExecutionState.dispatchable]) ⟨rfl, ?_, rfl⟩
        simp [issued, ExecutionRecord.ticketFor, ExecutionRecord.install,
          ExecutionRecord.supersedeCurrent_eq]
      case resuming =>
        have htr := transition_of_not_fromTo
          (r.supersedeCurrent.install (r.nextAttempt amb worker boot)) .dispatched
          (by simp [ExecutionRecord.install, ExecutionRecord.supersedeCurrent_eq, hstate, fromTo])
        simp only [htr.1, htr.2, ne_eq, reduceCtorEq, not_false_eq_true, if_true] at h
        subst h
        refine .acted rfl hfind hcur ?_
        change Effect (s.adoptEpoch e).epoch amb r _ _ _
        rw [hepoch]
        exact .dispatchStuck hrec hstate ⟨by simp [issued, Outcome.code?, htr.1], rfl, rfl⟩
      all_goals
        subst h
        exact hadopted _ rfl (by simp [hstate, ExecutionState.dispatchable]) (by simp [hstate])

/-- An exit that stores a record after a transition its table allows. -/
theorem effects_of_transition {id : ExecutionId} {r r₁ : ExecutionRecord} {target : ExecutionState}
    (hadopts : op.adopts = false) (htarget : op.target = some id) (hfind : s.find id = some r)
    (hcur : s.epoch ≤ op.epoch) (hfrom : fromTo r₁.state target = true)
    (hd : d.code = (transition r₁ target).1.code)
    (effect : ∀ o : Outcome, o.Gives .allow none none →
      Effect s.epoch amb r op o { r₁ with state := target }) :
    Effects s amb op (decided (d, s.store id (transition r₁ target).2)).2
      (s.store id (transition r₁ target).2) := by
  obtain ⟨hcode, hafter⟩ := transition_of_fromTo r₁ target hfrom
  have hstay : s.adoptFor op = s := by simp [adoptFor, hadopts]
  have hacted := Effects.acted htarget hfind hcur
    (hstay.symm ▸ effect _ (gives_of (hd.trans hcode)))
  rw [hafter]
  rwa [hstay] at hacted

theorem markRunning_effects (s : ExecutionEngine) (amb : Ambient) (t : StartTicket) :
    Effects s amb (.markRunning t) (decided (s.markRunning t)).2 (s.markRunning t).2 := by
  unfold markRunning
  cases hfind : s.find t.executionId with
  | none => exact effects_of_refusal rfl
  | some r =>
      by_cases hstate : r.state ≠ .dispatched ∧ r.state ≠ .resuming
      · simp only [if_pos hstate]
        exact effects_of_refusal rfl
      have hwait : r.state = .dispatched ∨ r.state = .resuming := by tauto
      by_cases hauth : (s.validateStart r t).code ≠ .allow
      · simp only [if_neg hstate, if_pos hauth]
        exact effects_of_refusal (validateStart_plain s r t hauth)
      have auth := validateStart_iff.1 (not_not.1 hauth)
      simp only [if_neg hstate, if_neg hauth]
      refine effects_of_transition rfl rfl hfind auth.epoch.ge ?_ rfl
        fun o gives => .started auth hwait gives
      rcases hwait with h | h <;> simp [ExecutionRecord.startAttempt, h, fromTo]

theorem complete_effects (s : ExecutionEngine) (amb : Ambient) (t : CompletionTicket) :
    Effects s amb (.complete t) (decided (s.complete amb t)).2 (s.complete amb t).2 := by
  unfold complete
  cases hfind : s.find t.executionId with
  | none => exact effects_of_refusal rfl
  | some r =>
      by_cases hauth : (s.validateTicket r t).code ≠ .allow
      · simp only [if_pos hauth]
        exact effects_of_refusal (validateTicket_plain s r t hauth)
      have auth := validateTicket_iff.1 (not_not.1 hauth)
      simp only [if_neg hauth]
      by_cases hcommitted : r.state = .committed
      · simp only [if_pos hcommitted]
        split <;> exact effects_of_refusal rfl
      by_cases hterminal : isTerminal r.state = true
      · simp only [if_neg hcommitted, if_pos hterminal]
        split <;> exact effects_of_refusal rfl
      by_cases hpre : r.state = .preempted
      · simp only [if_neg hcommitted, if_neg hterminal, if_pos hpre]
        exact effects_of_refusal rfl
      by_cases hresult : ¬t.hasResult = true ∨ t.resultDigest.isNil = true
      · simp only [if_neg hcommitted, if_neg hterminal, if_neg hpre, if_pos hresult]
        exact effects_of_refusal rfl
      obtain ⟨hhas, hdigest⟩ : t.hasResult = true ∧ t.resultDigest.isNil = false := by
        simpa using hresult
      simp only [if_neg hcommitted, if_neg hterminal, if_neg hpre, if_neg hresult]
      -- the two guarded transitions, with the digest written in between
      cases hfrom : fromTo r.state .completed with
      | true =>
          have htr := transition_of_fromTo (r.completeAttempt t.attemptId t.resultDigest)
            .completed hfrom
          simp only [htr.1, htr.2, ne_eq, not_true_eq_false, if_false]
          exact effects_of_transition rfl rfl hfind auth.epoch.ge rfl rfl
            fun o gives => .committed auth hfrom hhas hdigest gives
      | false =>
          have htr := transition_of_not_fromTo (r.completeAttempt t.attemptId t.resultDigest)
            .completed hfrom
          simp only [htr.1, htr.2, ne_eq, reduceCtorEq, not_false_eq_true, if_true]
          exact .acted rfl hfind auth.epoch.ge
            (.completeStuck auth hfrom (by simpa using hterminal) hpre hhas hdigest
              (gives_of htr.1))

theorem cancel_effects (s : ExecutionEngine) (amb : Ambient) (req : ControlRequest) :
    Effects s amb (.cancel req) (decided (s.cancel req)).2 (s.cancel req).2 := by
  unfold cancel
  cases hfind : s.find req.executionId with
  | none => exact effects_of_refusal rfl
  | some r =>
      by_cases hepoch : req.epoch ≠ s.epoch ∨ req.epoch ≠ r.coordinatorEpoch
      · simp only [if_pos hepoch]
        exact effects_of_refusal rfl
      by_cases howner : req.authorityGeneration ≠ r.ownershipGeneration
      · simp only [if_neg hepoch, if_pos howner]
        exact effects_of_refusal rfl
      have auth : req.Authorised s.epoch r := ⟨by tauto, by tauto, by tauto⟩
      by_cases hterminal : isTerminal r.state = true
      · simp only [if_neg hepoch, if_neg howner, if_pos hterminal]
        exact effects_of_refusal rfl
      by_cases hflight : r.state = .cancellationRequested
      · simp only [if_neg hepoch, if_neg howner, if_neg hterminal, if_pos hflight]
        exact .repeated (.cancel hfind auth hflight) (gives_of rfl)
      simp only [if_neg hepoch, if_neg howner, if_neg hterminal, if_neg hflight]
      by_cases hcreated : r.state = .created
      · simp only [if_pos hcreated]
        exact effects_of_transition rfl rfl hfind auth.epoch.ge (by simp [hcreated, fromTo]) rfl
          fun o gives => .cancelledEarly auth hcreated gives
      by_cases hcan : r.state = .ready ∨ r.state = .dispatched ∨ r.state = .running
      · simp only [if_neg hcreated, if_pos hcan]
        refine effects_of_transition rfl rfl hfind auth.epoch.ge ?_ rfl
          fun o gives => .cancelRequested auth (by simpa [ExecutionState.cancellable]) gives
        rcases hcan with h | h | h <;> simp [h, fromTo]
      · simp only [if_neg hcreated, if_neg hcan]
        exact .acted rfl hfind auth.epoch.ge
          (.cancelStuck auth (by simpa [ExecutionState.cancellable] using hcan)
            (by simpa using hterminal) hcreated hflight (gives_of rfl))

theorem finalizeCancel_effects (s : ExecutionEngine) (amb : Ambient) (id : ExecutionId)
    (epoch : CoordinatorEpoch) :
    Effects s amb (.finalizeCancel id epoch) (decided (s.finalizeCancel id epoch)).2
      (s.finalizeCancel id epoch).2 := by
  unfold finalizeCancel
  cases hfind : s.find id with
  | none => exact effects_of_refusal rfl
  | some r =>
      by_cases hstale : epoch < s.epoch ∨ epoch < r.coordinatorEpoch
      · simp only [if_pos hstale]
        exact effects_of_refusal rfl
      obtain ⟨hcur, hrec⟩ : s.epoch ≤ epoch ∧ r.coordinatorEpoch ≤ epoch := by simpa using hstale
      by_cases hdone : r.state = .cancelled
      · simp only [if_neg hstale, if_pos hdone]
        exact .repeated (.finalizeCancel hfind hcur hdone) (gives_of rfl)
      by_cases hflight : r.state = .cancellationRequested
      · simp only [if_neg hstale, if_neg hdone, if_neg (not_not.2 hflight)]
        exact effects_of_transition rfl rfl hfind hcur
          (by simp [ExecutionRecord.retireCurrent, hflight, fromTo]) rfl
          fun o gives => .cancelFinalized hcur hrec hflight gives
      · simp only [if_neg hstale, if_neg hdone, ne_eq, if_pos hflight]
        exact effects_of_refusal rfl

theorem preempt_effects (s : ExecutionEngine) (amb : Ambient) (req : ControlRequest) :
    Effects s amb (.preempt req) (decided (s.preempt req)).2 (s.preempt req).2 := by
  unfold preempt
  cases hfind : s.find req.executionId with
  | none => exact effects_of_refusal rfl
  | some r =>
      by_cases hepoch : req.epoch ≠ s.epoch ∨ req.epoch ≠ r.coordinatorEpoch
      · simp only [if_pos hepoch]
        exact effects_of_refusal rfl
      by_cases howner : req.authorityGeneration ≠ r.ownershipGeneration
      · simp only [if_neg hepoch, if_pos howner]
        exact effects_of_refusal rfl
      have auth : req.Authorised s.epoch r := ⟨by tauto, by tauto, by tauto⟩
      by_cases hterminal : isTerminal r.state = true
      · simp only [if_neg hepoch, if_neg howner, if_pos hterminal]
        exact effects_of_refusal rfl
      by_cases hflight : r.state = .preemptionRequested
      · simp only [if_neg hepoch, if_neg howner, if_neg hterminal, if_pos hflight]
        exact .repeated (.preempt hfind auth hflight) (gives_of rfl)
      by_cases hrun : r.state = .dispatched ∨ r.state = .running
      · simp only [if_neg hepoch, if_neg howner, if_neg hterminal, if_neg hflight, if_pos hrun]
        refine effects_of_transition rfl rfl hfind auth.epoch.ge ?_ rfl
          fun o gives => .preemptRequested auth hrun gives
        rcases hrun with h | h <;> simp [h, fromTo]
      · simp only [if_neg hepoch, if_neg howner, if_neg hterminal, if_neg hflight, if_neg hrun]
        exact effects_of_refusal rfl

theorem acknowledgePreempt_effects (s : ExecutionEngine) (amb : Ambient) (id : ExecutionId)
    (epoch : CoordinatorEpoch) :
    Effects s amb (.acknowledgePreempt id epoch) (decided (s.acknowledgePreempt id epoch)).2
      (s.acknowledgePreempt id epoch).2 := by
  unfold acknowledgePreempt
  cases hfind : s.find id with
  | none => exact effects_of_refusal rfl
  | some r =>
      by_cases hstale : epoch < s.epoch ∨ epoch < r.coordinatorEpoch
      · simp only [if_pos hstale]
        exact effects_of_refusal rfl
      obtain ⟨hcur, hrec⟩ : s.epoch ≤ epoch ∧ r.coordinatorEpoch ≤ epoch := by simpa using hstale
      by_cases hflight : r.state = .preemptionRequested
      · simp only [if_neg hstale, if_neg (not_not.2 hflight)]
        exact effects_of_transition rfl rfl hfind hcur
          (by simp [ExecutionRecord.retireCurrent, hflight, fromTo]) rfl
          fun o gives => .preemptAcknowledged hcur hrec hflight gives
      · simp only [if_neg hstale, ne_eq, if_pos hflight]
        exact effects_of_refusal rfl

theorem markResumable_effects (s : ExecutionEngine) (amb : Ambient) (id : ExecutionId)
    (epoch : CoordinatorEpoch) :
    Effects s amb (.markResumable id epoch) (decided (s.markResumable id epoch)).2
      (s.markResumable id epoch).2 := by
  unfold markResumable
  cases hfind : s.find id with
  | none => exact effects_of_refusal rfl
  | some r =>
      by_cases hstale : epoch < s.epoch ∨ epoch < r.coordinatorEpoch
      · simp only [if_pos hstale]
        exact effects_of_refusal rfl
      obtain ⟨hcur, hrec⟩ : s.epoch ≤ epoch ∧ r.coordinatorEpoch ≤ epoch := by simpa using hstale
      by_cases hpre : r.state = .preempted
      · simp only [if_neg hstale, if_neg (not_not.2 hpre)]
        exact effects_of_transition rfl rfl hfind hcur (by simp [hpre, fromTo]) rfl
          fun o gives => .madeResumable hcur hrec hpre gives
      · simp only [if_neg hstale, ne_eq, if_pos hpre]
        exact effects_of_refusal rfl

theorem resume_effects (s : ExecutionEngine) (amb : Ambient) (id : ExecutionId)
    (worker : WorkerId) (boot : WorkerBootId) (e : CoordinatorEpoch) (gen : ResumeGeneration) :
    Effects s amb (.resume id worker boot e gen) (issued (s.resume amb id worker boot e gen)).2
      (s.resume amb id worker boot e gen).engine := by
  unfold resume
  cases hfind : s.find id with
  | none => exact effects_of_refusal rfl
  | some r =>
      by_cases hepoch : e ≠ s.epoch ∨ e ≠ r.coordinatorEpoch
      · simp only [if_pos hepoch]
        exact effects_of_refusal rfl
      by_cases hres : r.state ≠ .resumable
      · simp only [if_neg hepoch, if_pos hres]
        exact effects_of_refusal rfl
      by_cases hgen : gen ≠ r.resumeGeneration.next
      · simp only [if_neg hepoch, if_neg hres, if_pos hgen]
        exact effects_of_refusal rfl
      simp only [if_neg hepoch, if_neg hres, if_neg hgen]
      obtain ⟨rfl, hrec⟩ : e = s.epoch ∧ e = r.coordinatorEpoch := by tauto
      obtain rfl := not_not.1 hgen
      -- the attempt does not depend on the resume generation, which moved on before
      have hmade : ExecutionRecord.nextAttempt
          { r with resumeGeneration := r.resumeGeneration.next } amb worker boot
          = r.nextAttempt amb worker boot := rfl
      have htr := transition_of_fromTo
        (ExecutionRecord.install (ExecutionRecord.supersedePreempted
          { r with resumeGeneration := r.resumeGeneration.next })
          (r.nextAttempt amb worker boot)) .resuming
        (by simp [ExecutionRecord.install, ExecutionRecord.supersedePreempted, not_not.1 hres,
          fromTo])
      simp only [hmade, htr.1, htr.2, ne_eq, not_true_eq_false, if_false]
      refine .acted rfl hfind le_rfl ?_
      refine .resumed hrec.symm (not_not.1 hres) ?_
      exact ⟨rfl, rfl, rfl⟩

theorem markWorkerLost_effects (s : ExecutionEngine) (amb : Ambient) (id : ExecutionId)
    (worker : WorkerId) (boot : WorkerBootId) (epoch : CoordinatorEpoch) :
    Effects s amb (.markWorkerLost id worker boot epoch)
      (decided (s.markWorkerLost id worker boot epoch)).2
      (s.markWorkerLost id worker boot epoch).2 := by
  unfold markWorkerLost
  cases hfind : s.find id with
  | none => exact effects_of_refusal rfl
  | some r =>
      by_cases hstale : epoch < s.epoch ∨ epoch < r.coordinatorEpoch
      · simp only [if_pos hstale]
        exact effects_of_refusal rfl
      obtain ⟨hcur, hrec⟩ : s.epoch ≤ epoch ∧ r.coordinatorEpoch ≤ epoch := by simpa using hstale
      by_cases hterminal : isTerminal r.state = true
      · simp only [if_neg hstale, if_pos hterminal]
        exact effects_of_refusal rfl
      by_cases howner : r.ownerWorker ≠ some worker ∨ r.ownerWorkerBoot ≠ some boot
      · simp only [if_neg hstale, if_neg hterminal, if_pos howner]
        exact effects_of_refusal rfl
      obtain ⟨hworker, hboot⟩ : r.ownerWorker = some worker ∧ r.ownerWorkerBoot = some boot := by
        tauto
      simp only [if_neg hstale, if_neg hterminal, if_neg howner]
      have hlost : ∀ (target : ExecutionState) {d : Decision},
          r.state.lossTarget = some target → fromTo r.state target = true →
          d.code = (transition r.loseCurrent target).1.code →
          Effects s amb (.markWorkerLost id worker boot epoch)
            (decided (d, s.store id (transition r.loseCurrent target).2)).2
            (s.store id (transition r.loseCurrent target).2) :=
        fun target d htarget hfrom hd => effects_of_transition rfl rfl hfind hcur hfrom hd
          fun o gives => .lost hcur hrec hworker hboot htarget gives
      cases hstate : r.state <;> simp only [reduceCtorEq, if_false, if_true]
      case dispatched => exact hlost .ready (by rw [hstate]; rfl) (by rw [hstate]; rfl) rfl
      case running => exact hlost .ambiguous (by rw [hstate]; rfl) (by rw [hstate]; rfl) rfl
      case cancellationRequested =>
        exact hlost .cancelled (by rw [hstate]; rfl) (by rw [hstate]; rfl) rfl
      case preemptionRequested =>
        exact hlost .preempted (by rw [hstate]; rfl) (by rw [hstate]; rfl) rfl
      -- in `RESUMING` the loss is deferred, elsewhere there is nothing to lose
      all_goals exact effects_of_refusal rfl

theorem supersede_effects (s : ExecutionEngine) (amb : Ambient) (id : ExecutionId)
    (e : CoordinatorEpoch) :
    Effects s amb (.supersede id e) (decided (s.supersede id e)).2 (s.supersede id e).2 := by
  unfold supersede
  cases hfind : s.find id with
  | none => exact effects_of_refusal rfl
  | some r =>
      by_cases hepoch : e ≠ s.epoch ∨ e ≠ r.coordinatorEpoch
      · simp only [if_pos hepoch]
        exact effects_of_refusal rfl
      obtain ⟨rfl, hrec⟩ : e = s.epoch ∧ e = r.coordinatorEpoch := by tauto
      by_cases hterminal : isTerminal r.state = true ∧ r.state ≠ .ambiguous
      · simp only [if_neg hepoch, if_pos hterminal]
        exact effects_of_refusal rfl
      have hlive : isTerminal r.state = false := by
        cases hst : r.state <;> simp_all [isTerminal]
      simp only [if_neg hepoch, if_neg hterminal]
      cases hfrom : fromTo r.state .superseded with
      | true =>
          exact effects_of_transition rfl rfl hfind le_rfl hfrom rfl
            fun o gives => .superseded hrec.symm hfrom gives
      | false =>
          -- the authority was dropped before the table is asked
          have htr := transition_of_not_fromTo (r.retireCurrent .superseded).dropAuthority
            .superseded hfrom
          rw [htr.2]
          exact .acted rfl hfind le_rfl
            (.supersedeStuck hrec.symm hfrom hlive (gives_of htr.1))

/-- Every call is one of the cases of `Effects`. -/
theorem step_effects (s : ExecutionEngine) (op : Op) (amb : Ambient) :
    Effects s amb op (engine.out s ⟨op, amb⟩) (engine.next s ⟨op, amb⟩) := by
  show Effects s amb op (s.step ⟨op, amb⟩).2 (s.step ⟨op, amb⟩).1
  cases op with
  | create id e => exact create_effects s amb id e
  | activate id e =>
      simp only [step]
      cases h : s.activate id e with
      | error => exact .refused ⟨rfl, by simp [Outcome.code?], rfl, rfl⟩
      | ok res => exact activate_effects s amb id e h
  | dispatch id worker boot e =>
      simp only [step]
      cases h : s.dispatch amb id worker boot e with
      | error => exact .refused ⟨rfl, by simp [Outcome.code?], rfl, rfl⟩
      | ok i => exact dispatch_effects s amb id worker boot e h
  | markRunning t => exact markRunning_effects s amb t
  | complete t => exact complete_effects s amb t
  | cancel req => exact cancel_effects s amb req
  | finalizeCancel id epoch => exact finalizeCancel_effects s amb id epoch
  | preempt req => exact preempt_effects s amb req
  | acknowledgePreempt id epoch => exact acknowledgePreempt_effects s amb id epoch
  | markResumable id epoch => exact markResumable_effects s amb id epoch
  | resume id worker boot e gen => exact resume_effects s amb id worker boot e gen
  | markWorkerLost id worker boot epoch => exact markWorkerLost_effects s amb id worker boot epoch
  | supersede id e => exact supersede_effects s amb id e
  | raiseEpoch e => exact .raised e

end ExecutionEngine

end ExecutionFabric
