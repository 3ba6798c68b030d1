import ExecutionFabric.Coordinator.Durability
import ExecutionFabric.Coordinator.Restart
import ExecutionFabric.Engine.Enabled
import ExecutionFabric.Protocol.Payloads

/-!
Does a cancellation that was accepted come to an end?

The engine has `finalize_cancel` for that, and no frame asks for it. What
frames can do is report the result of the attempt after all, or the loss of
its worker. Both take an owner, and `cancel` does not look for one: in `READY`,
before the first dispatch, there is none, and the execution stays in
`CANCELLATION_REQUESTED` whatever arrives (`find_run_of_adrift`). With an owner
one frame is enough (`finishes_of_owned`).
-/

namespace ExecutionFabric

open StepMachine ExecutionEngine ExecutionStateMachine

/-- The record names an owner, in one of its incarnations. -/
structure ExecutionRecord.Owned (r : ExecutionRecord) : Prop where
  worker : r.ownerWorker ≠ none
  boot : r.ownerWorkerBoot ≠ none

/-! ### The trap -/

/-- The calls that some entry of the queue makes. -/
def Op.exposed : Op → Bool
  | .finalizeCancel _ _ => false
  | .supersede _ _ => false
  | _ => true

theorem Op.exposed_of_routine {op : Op} (h : op.routine = true) : op.exposed = true := by
  cases op <;> first | rfl | cases h

/-- A cancellation of the record was requested, and it has no owner. -/
structure ExecutionRecord.Adrift (r : ExecutionRecord) : Prop where
  state : r.state = .cancellationRequested
  unowned : ¬r.Owned

section

variable {e : CoordinatorEpoch} {amb : Ambient} {r r' : ExecutionRecord} {op : Op} {o : Outcome}

/-- Only a call that is not exposed has an effect on such a record. -/
theorem Effect.not_exposed (effect : Effect e amb r op o r') (h : r.Adrift) :
    op.exposed = false := by
  have hstate := h.state
  cases effect with
  | cancelFinalized => rfl
  | superseded => rfl
  | supersedeStuck => rfl
  | committed auth =>
      -- a completion passes only with the owner in its ticket
      refine absurd ⟨?_, ?_⟩ h.unowned
      · exact fun hnone => absurd (auth.worker.symm.trans hnone) (Option.some_ne_none _)
      · exact fun hnone => absurd (auth.boot.symm.trans hnone) (Option.some_ne_none _)
  | lost hcur hrec hworker hboot =>
      refine absurd ⟨?_, ?_⟩ h.unowned
      · exact fun hnone => absurd (hworker.symm.trans hnone) (Option.some_ne_none _)
      · exact fun hnone => absurd (hboot.symm.trans hnone) (Option.some_ne_none _)
  | activated hrec hother => exact absurd (hother.symm.trans hstate) nofun
  | dispatched hrec hother => rw [hstate] at hother; cases hother
  | dispatchStuck hrec hother => exact absurd (hother.symm.trans hstate) nofun
  | started auth hother =>
      rcases hother with hother | hother <;> rw [hstate] at hother <;> cases hother
  | completeStuck auth hother => rw [hstate] at hother; cases hother
  | cancelledEarly auth hother => exact absurd (hother.symm.trans hstate) nofun
  | cancelRequested auth hother => rw [hstate] at hother; cases hother
  | cancelStuck auth hother hlive hnew hflight => exact absurd hstate hflight
  | preemptRequested auth hother =>
      rcases hother with hother | hother <;> rw [hstate] at hother <;> cases hother
  | preemptAcknowledged hcur hrec hother => exact absurd (hother.symm.trans hstate) nofun
  | madeResumable hcur hrec hother => exact absurd (hother.symm.trans hstate) nofun
  | resumed hrec hother => exact absurd (hother.symm.trans hstate) nofun

variable {s : ExecutionEngine} {c : Call} {calls : List Call} {id : ExecutionId}

theorem find_next_of_adrift (hfind : s.find id = some r) (h : r.Adrift)
    (hexposed : c.op.exposed = true) : (engine.next s c).find id = some r := by
  have hview := step_view s c id
  rw [hfind] at hview
  generalize (engine.next s c).find id = y at hview ⊢
  cases hview with
  | idle => rfl
  | acted htarget hcur effect => exact absurd ((effect.not_exposed h).symm.trans hexposed) nofun

theorem find_run_of_adrift (hfind : s.find id = some r) (h : r.Adrift)
    (hexposed : ∀ c ∈ calls, c.op.exposed = true) : (engine.run s calls).find id = some r := by
  induction calls generalizing s with
  | nil => exact hfind
  | cons c calls ih =>
      obtain ⟨hc, hcalls⟩ := List.forall_mem_cons.1 hexposed
      exact ih (find_next_of_adrift hfind h hc) hcalls

end

/-! ### What the entries of the queue ask for -/

section

variable {k : Coordinator} {conn : ℕ} {type : MsgType} {payload : ByteString} {amb : Ambient}
  {order : List ℕ}

theorem forall_mem_submitting {p : Call → Prop} {sp : SubmitPayload}
    (hcreate : p ⟨.create sp.executionId sp.epoch, amb⟩)
    (hactivate : p ⟨.activate sp.executionId sp.epoch, amb⟩) :
    ∀ c ∈ k.submitting amb sp, p c := by
  unfold Coordinator.submitting
  split
  · exact List.forall_mem_cons.2 ⟨hcreate, List.forall_mem_singleton.2 hactivate⟩
  · exact List.forall_mem_singleton.2 hcreate

/-- No frame and no closed connection asks for the end of a cancellation. -/
theorem exposed_requests :
    ∀ c ∈ k.requests conn type payload amb order, c.op.exposed = true := by
  have hasking := k.requests_asking conn type payload amb order
  generalize k.requests conn type payload amb order = calls at hasking
  cases hasking with
  | nothing hsubmit hdispatch hcancel => exact List.forall_mem_nil _
  | submit htype hp => exact forall_mem_submitting rfl rfl
  | dispatch htype hp hworker => exact List.forall_mem_singleton.2 rfl
  | cancel htype hp => exact List.forall_mem_singleton.2 rfl
  | routine hroutine hsubmit hdispatch hcancel =>
      exact List.forall_mem_singleton.2 (Op.exposed_of_routine hroutine)

end

/-! ### One execution -/

/-- What reaches a coordinator while it runs: connections, and frames. A closed
connection is the frame that it leaves in the queue. -/
inductive Arrival
  | accept
  | frame (conn : ℕ) (type : MsgType) (payload : ByteString)

/-- The event it is, with the time, the random words and the order of the table. -/
def Arrival.event : Arrival → Ambient × List ℕ → Event
  | accept, _ => .accept
  | frame conn type payload, env => .inbound conn type payload env.1 env.2

namespace Coordinator

/-- The execution is in a terminal state. -/
def Ended (id : ExecutionId) (k : Coordinator) : Prop :=
  ∃ r, k.engine.find id = some r ∧ isTerminal r.state = true

/-- In the environment `env`, some arrivals bring the execution to its end. -/
def Finishes (env : ℕ → Ambient × List ℕ) (k : Coordinator) (id : ExecutionId) : Prop :=
  Steers coordinator Arrival.event (Ended id) env k

/-- The cancellation of the execution is stuck: the decision thread is gone, or
the execution has no owner. -/
def Stuck (id : ExecutionId) (k : Coordinator) : Prop :=
  ∃ r, k.engine.find id = some r ∧ r.state = .cancellationRequested ∧
    (k.alive = false ∨ ¬r.Owned)

variable {k : Coordinator} {id : ExecutionId} {r : ExecutionRecord}

theorem stuck_step (k : Coordinator) (a : Arrival) (env : Ambient × List ℕ) (h : k.Stuck id) :
    (coordinator.next k (a.event env)).Stuck id := by
  obtain ⟨r, hfind, hstate, hwhy⟩ := h
  cases a with
  | accept => exact ⟨r, hfind, hstate, hwhy⟩
  | frame conn type payload =>
      by_cases halive : k.alive = true
      · have hadrift : r.Adrift := ⟨hstate, hwhy.resolve_left (by simp [halive])⟩
        have hfollows := Turn.decide_follows k conn type payload env.1 env.2
        refine ⟨r, ?_, hstate, .inr hadrift.unowned⟩
        rw [Arrival.event, next_of_alive halive, hfollows.reached]
        exact find_run_of_adrift hfind hadrift exposed_requests
      · rw [Arrival.event, next_of_dead halive]
        exact ⟨r, hfind, hstate, hwhy⟩

theorem Stuck.not_ended (h : k.Stuck id) : ¬k.Ended id := by
  obtain ⟨r, hfind, hstate, -⟩ := h
  rintro ⟨r', hfind', hterminal⟩
  obtain rfl := Option.some.inj (hfind.symm.trans hfind')
  rw [hstate] at hterminal
  cases hterminal

/-- The loss of its owner ends a requested cancellation. -/
theorem finishes_of_owned (env : ℕ → Ambient × List ℕ) (halive : k.alive = true)
    (hfind : k.engine.find id = some r) (hstate : r.state = .cancellationRequested)
    (howned : r.Owned) : k.Finishes env id := by
  obtain ⟨worker, hworker⟩ := Option.ne_none_iff_exists'.1 howned.worker
  obtain ⟨boot, hboot⟩ := Option.ne_none_iff_exists'.1 howned.boot
  let e := max k.engine.epoch r.coordinatorEpoch
  let wp : WorkerLostPayload := ⟨id, worker, boot, e⟩
  have hunpack : unpackWorkerLost (packWorkerLost wp) = .ok wp :=
    (carries_workerLost wp).1
  have hfollows := Turn.decide_follows k 0 .workerLost (packWorkerLost wp) (env 0).1 (env 0).2
  have hrequests : k.requests 0 .workerLost (packWorkerLost wp) (env 0).1 (env 0).2 =
      [⟨.markWorkerLost id worker boot e, (env 0).1⟩] := by
    unfold requests
    rw [if_neg (by simp), hunpack]
    rfl
  have hacts : Acts k.engine (env 0).1 (.markWorkerLost id worker boot e) id _ _ :=
    markWorkerLost_acts hfind (.lost (le_max_left _ _) (le_max_right _ _) hworker hboot
      (by rw [hstate]; rfl) (Outcome.plain_gives .allow none none))
  refine .step (.frame 0 .workerLost (packWorkerLost wp)) (.here ?_)
  rw [Arrival.event, next_of_alive halive, Ended, hfollows.reached, hrequests]
  exact ⟨_, hacts.find, rfl⟩

/-- A requested cancellation can finish exactly when the decision thread is
there and the execution has an owner. -/
theorem finishes_iff (env : ℕ → Ambient × List ℕ) (hfind : k.engine.find id = some r)
    (hstate : r.state = .cancellationRequested) :
    k.Finishes env id ↔ k.alive = true ∧ r.Owned := by
  constructor
  · intro hfinishes
    by_contra hcond
    have hwhy : k.alive = false ∨ ¬r.Owned := by
      rw [not_and_or, Bool.not_eq_true] at hcond
      exact hcond
    exact not_steers_of_trap stuck_step (fun _ => Stuck.not_ended) ⟨r, hfind, hstate, hwhy⟩
      hfinishes
  · rintro ⟨halive, howned⟩
    exact finishes_of_owned env halive hfind hstate howned

end Coordinator

/-! ### All executions -/

/-- Every execution whose cancellation was requested has an owner. -/
def ExecutionEngine.Attended (s : ExecutionEngine) : Prop :=
  s.Every fun r => r.state = .cancellationRequested → r.Owned

/-- The request is accepted, and the execution has no owner. -/
def ExecutionEngine.Abandons (s : ExecutionEngine) (req : ControlRequest) : Prop :=
  ∃ r, s.find req.executionId = some r ∧ r.state.cancellable = true ∧
    req.Authorised s.epoch r ∧ ¬r.Owned

section

variable {s : ExecutionEngine} {amb : Ambient} {req : ControlRequest}

/-- Apart from a cancellation and a supersession, an effect that leaves a
cancellation requested leaves the record its owner. -/
theorem Effect.attended {e : CoordinatorEpoch} {r r' : ExecutionRecord} {op : Op} {o : Outcome}
    (effect : Effect e amb r op o r') (hplain : op.plain = true)
    (h : r.state = .cancellationRequested → r.Owned) :
    r'.state = .cancellationRequested → r'.Owned := by
  cases effect with
  | completeStuck => exact fun hstate => ⟨(h hstate).worker, (h hstate).boot⟩
  | dispatchStuck => exact fun _ => ⟨Option.some_ne_none _, Option.some_ne_none _⟩
  | cancelledEarly | cancelRequested | cancelStuck | superseded | supersedeStuck => cases hplain
  | lost hcur hrec hworker hboot hstate gives =>
      rcases ExecutionState.lossTarget_cases hstate with ⟨-, rfl⟩ | ⟨-, rfl⟩ | ⟨-, rfl⟩ | ⟨-, rfl⟩
        <;> exact nofun
  | _ => exact nofun

theorem attended_next {c : Call} (hplain : c.op.plain = true) (h : s.Attended) :
    (engine.next s c).Attended := by
  intro id r' hfind
  cases origin hfind with
  | idle hx => exact h id r' hx
  | created => exact nofun
  | acted hx htarget hcur effect => exact effect.attended hplain (h id _ hx)

theorem attended_run {calls : List Call} (hplain : ∀ c ∈ calls, c.op.plain = true)
    (h : s.Attended) : (engine.run s calls).Attended := by
  induction calls generalizing s with
  | nil => exact h
  | cons c calls ih =>
      obtain ⟨hc, hcalls⟩ := List.forall_mem_cons.1 hplain
      exact ih hcalls (attended_next hc h)

theorem attended_cancel_iff (h : s.Attended) :
    (engine.next s ⟨.cancel req, amb⟩).Attended ↔ ¬s.Abandons req := by
  have hepoch : (engine.next s ⟨.cancel req, amb⟩).epoch = s.epoch := epoch_next rfl nofun
  constructor
  · rintro hnext ⟨r, hfind, hstate, auth, hunowned⟩
    have hacts : Acts s amb (.cancel req) req.executionId _ _ :=
      cancel_acts hfind (.cancelRequested auth hstate (Outcome.plain_gives .allow none none))
    have howned := hnext req.executionId _ hacts.find rfl
    exact hunowned ⟨howned.worker, howned.boot⟩
  · intro hkept id r' hfind hstate'
    cases origin hfind with
    | idle hx => exact h id r' hx hstate'
    | created _ hop => cases hop
    | @acted r _ hx htarget hcur effect =>
        obtain rfl : req.executionId = id := Option.some.inj htarget
        rw [hepoch] at effect
        cases effect with
        | cancelledEarly => cases hstate'
        | cancelRequested auth hstate gives =>
            have howned : r.Owned := by
              by_contra hunowned
              exact hkept ⟨r, hx, hstate, auth, hunowned⟩
            exact ⟨howned.worker, howned.boot⟩
        | cancelStuck auth hstate hlive hnew hflight gives => exact absurd hstate' hflight

end

namespace Coordinator

/-- Every requested cancellation can finish, in the environment `env`. -/
def CancellationsFinish (env : ℕ → Ambient × List ℕ) (k : Coordinator) : Prop :=
  ∀ id r, k.engine.find id = some r → r.state = .cancellationRequested → k.Finishes env id

/-- Some cancellation is requested. -/
def Cancelling (k : Coordinator) : Prop :=
  ∃ id r, k.engine.find id = some r ∧ r.state = .cancellationRequested

variable {k : Coordinator}

theorem cancellationsFinish_iff (env : ℕ → Ambient × List ℕ) :
    k.CancellationsFinish env ↔ k.engine.Attended ∧ (k.Cancelling → k.alive = true) := by
  constructor
  · intro h
    have hboth := fun id r hfind hstate => (finishes_iff env hfind hstate).1 (h id r hfind hstate)
    refine ⟨fun id r hfind hstate => (hboth id r hfind hstate).2, ?_⟩
    rintro ⟨id, r, hfind, hstate⟩
    exact (hboth id r hfind hstate).1
  · rintro ⟨hattended, halive⟩ id r hfind hstate
    exact (finishes_iff env hfind hstate).2
      ⟨halive ⟨id, r, hfind, hstate⟩, hattended id r hfind hstate⟩

/-- A started coordinator has an owner for every such record of the file, which
would not have been loaded otherwise. -/
theorem construct_finishes (env : ℕ → Ambient × List ℕ) (persistent : Bool)
    (file : Option ByteString) (e : CoordinatorEpoch) :
    (construct persistent file e).CancellationsFinish env := by
  refine (cancellationsFinish_iff env).2 ⟨fun id r hfind hstate => ?_, fun _ => ?_⟩
  · have hrecords := records_construct persistent file e
    have hlookup : (construct persistent file e).engine.records.lookup id = some r := hfind
    rw [hrecords] at hlookup
    cases persistent with
    | false => cases hlookup
    | true =>
        cases hload : load file with
        | error _ =>
            rw [hload] at hlookup
            cases hlookup
        | ok recovered =>
            rw [hload] at hlookup
            dsimp only at hlookup
            rw [lookup_foldl_emplace, Finmap.lookup_empty, Option.none_or] at hlookup
            have hr := List.mem_of_find?_eq_some hlookup
            have hvalid : r.Valid := (spelled_of_load hload).valid r hr
            obtain ⟨-, hworker, hboot⟩ := hvalid.owned (by rw [hstate]; rfl)
            exact ⟨hworker, hboot⟩
  · simp only [construct]
    repeat' split
    all_goals rfl

end Coordinator

/-- The guard of the runs that leave no cancellation stuck: no cancellation is
accepted of an execution without an owner, and no dispatch ends the decision
thread while one is under way. -/
def KeepsAttended (k : Coordinator) : Event → Prop
  | .inbound _ type payload _ order => k.alive = true →
    (type = .cancel → ∀ req, unpackCancel payload = .ok req → ¬k.engine.Abandons req) ∧
      (k.Astray type payload order → ¬k.Cancelling)
  | _ => True

section

variable {k : Coordinator} {conn : ℕ} {type : MsgType} {payload : ByteString} {amb : Ambient}
  {order : List ℕ}

/-- The one call of an entry that goes astray throws. -/
theorem requests_of_astray (h : k.Astray type payload order) :
    ∃ c, k.requests conn type payload amb order = [c] ∧
      (engine.out k.engine c).threw = true := by
  obtain ⟨rfl, dp, hdp, hworker, hnone⟩ := h
  refine ⟨⟨.dispatch dp.executionId dp.workerId dp.workerBootId dp.epoch, amb⟩, ?_,
    threw_of_requires rfl hnone⟩
  unfold Coordinator.requests
  rw [if_neg (by simp), hdp]
  exact if_neg hworker

/-- After an entry, every such execution has an owner exactly when the entry does
not cancel one that has none. -/
theorem attended_requests_iff (h : k.engine.Attended) :
    (engine.run k.engine (k.requests conn type payload amb order)).Attended ↔
      (type = .cancel → ∀ req, unpackCancel payload = .ok req → ¬k.engine.Abandons req) := by
  have hasking := k.requests_asking conn type payload amb order
  generalize k.requests conn type payload amb order = calls at hasking
  have hone : ∀ {op : Op}, op.plain = true → (engine.run k.engine [⟨op, amb⟩]).Attended :=
    fun hplain => attended_run (List.forall_mem_singleton.2 hplain) h
  cases hasking with
  | nothing hsubmit hdispatch hcancel =>
      exact iff_of_true h fun htype req hreq => absurd hreq (hcancel htype req)
  | submit htype hp =>
      refine iff_of_true (attended_run (forall_mem_submitting rfl rfl) h) fun htype' => ?_
      exact absurd (htype.symm.trans htype') nofun
  | dispatch htype hp hworker =>
      exact iff_of_true (hone rfl) fun htype' => absurd (htype.symm.trans htype') nofun
  | @cancel req htype hreq =>
      refine (attended_cancel_iff h).trans ⟨?_, fun hall => hall htype req hreq⟩
      intro hkept _ req' hreq'
      obtain rfl := Except.ok.inj (hreq.symm.trans hreq')
      exact hkept
  | routine hroutine hsubmit hdispatch hcancel =>
      exact iff_of_true (hone (Op.plain_of_routine hroutine)) fun htype => absurd htype hcancel

/-- From a state in which every requested cancellation can finish, each still can
after an event exactly when it meets the guard. -/
theorem finishes_next_iff {env : ℕ → Ambient × List ℕ} {ev : Event}
    (h : k.CancellationsFinish env) :
    (coordinator.next k ev).CancellationsFinish env ↔ KeepsAttended k ev := by
  obtain ⟨hattended, hcancelling⟩ := (Coordinator.cancellationsFinish_iff env).1 h
  cases ev with
  | accept =>
      refine iff_of_true ?_ trivial
      exact (Coordinator.cancellationsFinish_iff env).2 ⟨hattended, hcancelling⟩
  | restart e => exact iff_of_true (Coordinator.construct_finishes env _ _ _) trivial
  | inbound conn type payload amb order =>
      by_cases halive : k.alive = true
      · have hfollows := Turn.decide_follows k conn type payload amb order
        show _ ↔ (k.alive = true → _)
        rw [next_of_alive halive, Coordinator.cancellationsFinish_iff, hfollows.reached,
          attended_requests_iff hattended, forall_prop_of_true halive]
        refine and_congr_right fun _ => ?_
        by_cases hastray : k.Astray type payload order
        · -- the exception leaves the engine as it was, and nobody to go on
          obtain ⟨c, hcalls, hthrew⟩ := @requests_of_astray k conn type payload amb order hastray
          have hengine : (Turn.decide { coordinator := k } conn type payload amb
              order).coordinator.engine = k.engine := by
            rw [hfollows.reached, hcalls]
            exact next_of_threw hthrew
          have hdead : (Turn.decide { coordinator := k } conn type payload amb
              order).coordinator.alive = false := by
            rw [hfollows.alive, hfollows.made, hcalls]
            simp [Machine.trace, hthrew]
          unfold Coordinator.Cancelling
          rw [hengine, hdead]
          exact ⟨fun h _ hc => absurd (h hc) Bool.false_ne_true, fun h hc => absurd hc (h hastray)⟩
        · have hreturn := @calls_return k conn type payload amb order hastray
          refine iff_of_true (fun _ => ?_) fun h => absurd h hastray
          rw [hfollows.alive, halive, hreturn]
          rfl
      · rw [next_of_dead halive]
        exact iff_of_true h fun halive' => absurd halive' halive

end

/-- In every state of a run, every requested cancellation can finish exactly when
every event of the run meets the guard. -/
theorem cancellations_finish_iff (env : ℕ → Ambient × List ℕ) (persistent : Bool)
    (file : Option ByteString) (e₀ : CoordinatorEpoch) (events : List Event) :
    (∀ evs, evs <+: events →
      (coordinator.run (.construct persistent file e₀) evs).CancellationsFinish env) ↔
      coordinator.Meets KeepsAttended (.construct persistent file e₀) events :=
  Machine.always_iff_meets (Coordinator.construct_finishes env persistent file e₀)
    fun _ _ _ _ h => finishes_next_iff h

/-- An execution is submitted and cancelled before its first dispatch: nothing
that can arrive ends it. -/
theorem cancellation_stranded :
    ¬∀ persistent file e₀ events, (∀ e, .restart e ∉ events) → ∃ env,
      (coordinator.run (.construct persistent file e₀) events).CancellationsFinish env := by
  intro hclaim
  let k := coordinator.run (.construct false none ⟨1⟩) Sample.withdrawing
  have hfacts : (k.engine.find (Sample.sampleId 2)).map (fun r => (r.state, r.ownerWorker))
      = some (.cancellationRequested, none) := by decide +kernel
  obtain ⟨r, hfind, hr⟩ := Option.map_eq_some_iff.1 hfacts
  obtain ⟨hstate, hunowned⟩ := Prod.mk.inj hr
  obtain ⟨env, hfinish⟩ := hclaim false none ⟨1⟩ Sample.withdrawing fun e he => by
    simp [Sample.withdrawing, Sample.inbound] at he
  have hfinishes := hfinish (Sample.sampleId 2) r hfind hstate
  exact ((Coordinator.finishes_iff env hfind hstate).1 hfinishes).2.worker hunowned

end ExecutionFabric
