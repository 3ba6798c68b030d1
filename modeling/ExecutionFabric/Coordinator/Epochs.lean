import ExecutionFabric.Coordinator.Requests
import ExecutionFabric.Coordinator.Restart
import ExecutionFabric.Engine.Rejection

/-!
Do the coordinator and its engine agree on the epoch?

Both keep one. The coordinator sets its own in the constructor and never
again; it is the epoch that is advertised in `WELCOME`, saved with the
records, and used when a worker is lost. The engine validates against its own
and raises it when it is asked to create, activate or dispatch under a larger
one, even if the call is rejected in the end. Requests carry the epoch of the
client, so one `SUBMIT` from the future is enough to set the two apart
(`epochs_drift`). `epochs_agree_iff` lists what has to be avoided.
-/

namespace ExecutionFabric

open Collections StepMachine ExecutionEngine

/-! ### How calls move the epoch -/

section

variable {s : ExecutionEngine} {c : Call} {amb : Ambient} {id : ExecutionId}
  {worker : WorkerId} {boot : WorkerBootId} {e : CoordinatorEpoch}

/-- A creation adopts the epoch it carries, allowed or not. -/
theorem epoch_create : (engine.next s ⟨.create id e, amb⟩).epoch = max s.epoch e := by
  by_cases hstale : e < s.epoch
  · rw [max_eq_left hstale.le]
    exact epoch_next_of_le hstale.le
  · have hnext : engine.next s ⟨.create id e, amb⟩ = (s.create amb id e).2 := rfl
    rw [hnext, create, if_neg hstale]
    dsimp only
    split <;> exact adoptEpoch_epoch s e

/-- A dispatch adopts the epoch it carries, allowed or not, if there is a
record and that has no larger one. -/
theorem epoch_dispatch {r : ExecutionRecord} (hfind : s.find id = some r)
    (hrec : r.coordinatorEpoch ≤ e) :
    (engine.next s ⟨.dispatch id worker boot e, amb⟩).epoch = max s.epoch e := by
  by_cases hcur : s.epoch ≤ e
  · have hadopt : (s.adoptFor (.dispatch id worker boot e)).epoch = max s.epoch e :=
      adoptEpoch_epoch s e
    by_cases hstate : r.state.dispatchable = true
    · have hacts : Acts s amb (.dispatch id worker boot e) id _ _ :=
        dispatch_acts hfind hcur (.dispatched hrec hstate (Outcome.plain_gives _ _ _))
      rw [hacts.next]
      exact hadopt
    · by_cases hresuming : r.state = .resuming
      · have hacts : Acts s amb (.dispatch id worker boot e) id _ _ :=
          dispatch_acts hfind hcur (.dispatchStuck hrec hresuming (Outcome.plain_gives _ _ _))
        rw [hacts.next]
        exact hadopt
      · -- the state is refused, but only after the epoch was adopted
        have adopts : s.Adopts (.dispatch id worker boot e) :=
          .dispatch hcur hfind hrec (by simpa using hstate) hresuming
        obtain ⟨d, -, -, hnext⟩ := adopts_leaks amb adopts
        rw [hnext]
        exact hadopt
  · have hstale : e ≤ s.epoch := (not_le.1 hcur).le
    rw [max_eq_left hstale]
    exact epoch_next_of_le hstale

/-- A dispatch that finds no record, or one from a later epoch, adopts nothing. -/
theorem epoch_dispatch_of_stale
    (h : ∀ r, s.find id = some r → ¬r.coordinatorEpoch ≤ e) :
    (engine.next s ⟨.dispatch id worker boot e, amb⟩).epoch = s.epoch := by
  show (s.step ⟨.dispatch id worker boot e, amb⟩).1.epoch = s.epoch
  cases hfind : s.find id with
  | none => simp [step, dispatch, hfind]
  | some r =>
      have hlt : e < r.coordinatorEpoch := not_le.1 (h r hfind)
      simp [step, dispatch, hfind, hlt, issued]

end

/-! ### Frames -/

section

variable {k : Coordinator} {conn : ℕ} {type : MsgType} {payload : ByteString} {amb : Ambient}
  {order : List ℕ}

/-- The entry carries no epoch that the engine would adopt: a `SUBMIT`, or a
`DISPATCH` that reaches a record from no later epoch, has no larger epoch than
the engine. -/
def Coordinator.Within (k : Coordinator) (type : MsgType) (payload : ByteString)
    (order : List ℕ) : Prop :=
  match type with
  | .submit => ∀ sp, unpackSubmit payload = .ok sp → sp.epoch ≤ k.engine.epoch
  | .dispatch => ∀ dp, unpackDispatch payload = .ok dp → k.workerConn order dp.workerId ≠ 0 →
      ∀ r, k.engine.find dp.executionId = some r → r.coordinatorEpoch ≤ dp.epoch →
        dp.epoch ≤ k.engine.epoch
  | _ => True

/-- The calls of a `SUBMIT` adopt its epoch. -/
theorem epoch_submitting (sp : SubmitPayload) :
    (engine.run k.engine (k.submitting amb sp)).epoch = max k.engine.epoch sp.epoch := by
  have hcreate : (engine.next k.engine ⟨.create sp.executionId sp.epoch, amb⟩).epoch
      = max k.engine.epoch sp.epoch := epoch_create
  unfold Coordinator.submitting
  split
  · -- the activation carries the epoch that the creation adopted
    refine (epoch_next_of_le ?_).trans hcreate
    exact (le_max_right _ _).trans hcreate.ge
  · exact hcreate

theorem epoch_dispatching_iff {s : ExecutionEngine} {id : ExecutionId} {worker : WorkerId}
    {boot : WorkerBootId} {e : CoordinatorEpoch} :
    (engine.run s [⟨.dispatch id worker boot e, amb⟩]).epoch = s.epoch ↔
      ∀ r, s.find id = some r → r.coordinatorEpoch ≤ e → e ≤ s.epoch := by
  show (engine.next s _).epoch = _ ↔ _
  by_cases hfound : ∃ r, s.find id = some r ∧ r.coordinatorEpoch ≤ e
  · obtain ⟨r, hfind, hrec⟩ := hfound
    rw [epoch_dispatch hfind hrec, max_eq_left_iff]
    constructor
    · exact fun hle _ _ _ => hle
    · exact fun h => h r hfind hrec
  · have hstale : ∀ r, s.find id = some r → ¬r.coordinatorEpoch ≤ e :=
      fun r hfind hrec => hfound ⟨r, hfind, hrec⟩
    rw [epoch_dispatch_of_stale hstale]
    exact iff_of_true rfl fun r hfind hrec => absurd hrec (hstale r hfind)

/-- A single call about an execution leaves the epoch, unless it carries one. -/
theorem epoch_single {s : ExecutionEngine} {op : Op} (hadopts : op.adopts = false)
    (htarget : op.target ≠ none) : (engine.run s [⟨op, amb⟩]).epoch = s.epoch :=
  epoch_next hadopts fun e (hop : op = .raiseEpoch e) => htarget (by rw [hop]; rfl)

/-- An entry of the queue leaves the epoch of the engine as it is exactly when
it carries no larger one. -/
theorem epoch_requests_iff :
    (engine.run k.engine (k.requests conn type payload amb order)).epoch = k.engine.epoch ↔
      k.Within type payload order := by
  have hasking := k.requests_asking conn type payload amb order
  generalize k.requests conn type payload amb order = calls at hasking
  have hother : type ≠ .submit → type ≠ .dispatch → k.Within type payload order := by
    intro hsubmit hdispatch
    cases type <;> trivial
  cases hasking with
  | nothing hsubmit hdispatch hcancel =>
      refine iff_of_true rfl ?_
      cases type
      case submit => exact fun sp hp => absurd hp (hsubmit rfl sp)
      case dispatch => exact fun dp hp hworker => absurd (hdispatch rfl dp hp) hworker
      all_goals trivial
  | @submit sp htype hp =>
      subst htype
      simp [epoch_submitting, Coordinator.Within, hp]
  | @dispatch dp htype hp hworker =>
      subst htype
      rw [epoch_dispatching_iff]
      simp [Coordinator.Within, hp, hworker]
  | cancel htype hp =>
      subst htype
      exact iff_of_true (epoch_single rfl (Option.some_ne_none _)) trivial
  | routine hroutine hsubmit hdispatch hcancel =>
      refine iff_of_true ?_ (hother hsubmit hdispatch)
      exact epoch_single (Op.adopts_of_routine hroutine) (Op.target_of_routine hroutine)

end

/-! ### Starting -/

/-- Recovery adopts the epochs of the records, all of them. -/
theorem epoch_replaceRecords_le_iff {s : ExecutionEngine} {rs : List ExecutionRecord}
    {e : CoordinatorEpoch} (hids : (rs.map (·.id)).Nodup) :
    (s.replaceRecords rs).epoch ≤ e ↔ s.epoch ≤ e ∧ ∀ r ∈ rs, r.coordinatorEpoch ≤ e := by
  have hlookup : ∀ id, (rs.foldl emplace ∅).lookup id = rs.find? (·.id = id) := fun id => by
    rw [lookup_foldl_emplace, Finmap.lookup_empty, Option.none_or]
  refine fold_max_le_iff.trans (and_congr_right fun _ => ?_)
  constructor
  · intro h r hr
    have hfound : (rs.foldl emplace ∅).lookup r.id = some r := by
      rw [hlookup, find?_of_nodup hids hr]
    exact h _ (Multiset.mem_map.2 ⟨_, Finmap.lookup_eq_some_iff.1 hfound, rfl⟩)
  · intro h x hx
    obtain ⟨⟨id, r⟩, hentry, rfl⟩ := Multiset.mem_map.1 hx
    have hfound := Finmap.lookup_eq_some_iff.2 hentry
    rw [hlookup] at hfound
    exact h r (List.mem_of_find?_eq_some hfound)

/-- The two epochs are one. -/
def Coordinator.Agrees (k : Coordinator) : Prop := k.epoch = k.engine.epoch

/-- The file, if it is loaded, holds no record from a later epoch than the one
saved with it and the one passed in. -/
def SnapshotCurrent (persistent : Bool) (file : Option ByteString) (epoch : CoordinatorEpoch) :
    Prop :=
  persistent = true → ∀ rs e, load file = .ok (rs, e) →
    ∀ r ∈ rs, r.coordinatorEpoch ≤ max epoch e

theorem construct_agrees_of_load {file : Option ByteString} {rs : List ExecutionRecord}
    {e₀ e : CoordinatorEpoch} (hload : load file = .ok (rs, e)) :
    (Coordinator.construct true file e₀).Agrees ↔ ∀ r ∈ rs, r.coordinatorEpoch ≤ max e₀ e := by
  let s := (init e₀).replaceRecords rs
  have hs : ∀ {e'}, s.epoch ≤ e' ↔ e₀ ≤ e' ∧ ∀ r ∈ rs, r.coordinatorEpoch ≤ e' :=
    epoch_replaceRecords_le_iff (load_distinct hload)
  unfold Coordinator.Agrees Coordinator.construct
  simp only [hload, if_true]
  split
  · -- the saved epoch is the larger one, and the engine is raised to it
    rename_i hlarger
    have hlarger : e₀ < e := hlarger
    have hraise : (s.raiseEpoch e).epoch = max s.epoch e := adoptEpoch_epoch s e
    show e = (s.raiseEpoch e).epoch ↔ _
    rw [hraise, eq_comm, max_eq_right_iff, hs, max_eq_right hlarger.le]
    exact and_iff_right hlarger.le
  · -- the engine starts at the epoch passed in, and only its records may raise it
    rename_i hsmaller
    have hsmaller : e ≤ e₀ := not_lt.1 hsmaller
    have hstart : e₀ ≤ s.epoch := epoch_le_replaceRecords (init e₀) rs
    show e₀ = s.epoch ↔ _
    rw [← hstart.ge_iff_eq, hs, max_eq_left hsmaller]
    exact and_iff_right le_rfl

theorem construct_agrees_iff {persistent : Bool} {file : Option ByteString}
    {e₀ : CoordinatorEpoch} :
    (Coordinator.construct persistent file e₀).Agrees ↔ SnapshotCurrent persistent file e₀ := by
  cases persistent with
  | false => exact iff_of_true rfl nofun
  | true =>
      cases hload : load file with
      | error _ =>
          have hnone : ∀ rs e, load file ≠ .ok (rs, e) := fun rs e h => by
            rw [hload] at h
            cases h
          refine iff_of_true ?_ fun _ rs e h => absurd h (hnone rs e)
          simp [Coordinator.Agrees, Coordinator.construct, hload, init]
      | ok recovered =>
          obtain ⟨rs, e⟩ := recovered
          rw [construct_agrees_of_load hload]
          constructor
          · intro h _ rs' e' hload'
            obtain ⟨rfl, rfl⟩ := Prod.mk.inj (Except.ok.inj (hload.symm.trans hload'))
            exact h
          · exact fun h => h rfl rs e hload

/-! ### Runs -/

/-- The guard of the runs in which nothing sets the two apart. -/
def KeepsEpoch (k : Coordinator) : Event → Prop
  | .accept => True
  | .inbound _ type payload _ order => k.alive = true → k.Within type payload order
  | .restart e => SnapshotCurrent k.persistent k.file e

/-- From a state in which they agree, the two agree after an event exactly when
it meets the guard. -/
theorem agrees_next_iff {k : Coordinator} {ev : Event} (hagrees : k.Agrees) :
    (coordinator.next k ev).Agrees ↔ KeepsEpoch k ev := by
  cases ev with
  | accept => exact iff_of_true hagrees trivial
  | restart e => exact construct_agrees_iff
  | inbound conn type payload amb order =>
      show _ ↔ (k.alive = true → k.Within type payload order)
      by_cases halive : k.alive = true
      · have hfollows := Turn.decide_follows k conn type payload amb order
        rw [next_of_alive halive, forall_prop_of_true halive, Coordinator.Agrees, hfollows.epoch,
          hfollows.reached, (hagrees : k.epoch = _), eq_comm]
        exact epoch_requests_iff
      · rw [next_of_dead halive]
        exact iff_of_true hagrees fun halive' => absurd halive' halive

/-- The coordinator and its engine agree on the epoch in every state of a run
exactly when the snapshot it starts from is current and every event meets the
guard. -/
theorem epochs_agree_iff (persistent : Bool) (file : Option ByteString) (e₀ : CoordinatorEpoch)
    (events : List Event) :
    (∀ evs, evs <+: events → (coordinator.run (.construct persistent file e₀) evs).Agrees) ↔
      SnapshotCurrent persistent file e₀ ∧
        coordinator.Meets KeepsEpoch (.construct persistent file e₀) events := by
  by_cases hstart : SnapshotCurrent persistent file e₀
  · rw [and_iff_right hstart]
    exact Machine.always_iff_meets (construct_agrees_iff.2 hstart)
      fun evs ev _ _ hagrees => agrees_next_iff hagrees
  · refine iff_of_false (fun h => hstart ?_) fun h => hstart h.1
    exact construct_agrees_iff.1 (h [] List.nil_prefix)

/-- One submission under a later epoch. -/
theorem epochs_drift :
    ¬∀ persistent file e₀ events,
      (coordinator.run (.construct persistent file e₀) events).Agrees := by
  intro hclaim
  have hagrees := hclaim false none ⟨1⟩ [Sample.submitFrame Sample.execution 5]
  have hdrift : (coordinator.run (.construct false none ⟨1⟩)
      [Sample.submitFrame Sample.execution 5]).epoch ≠ (coordinator.run (.construct false none ⟨1⟩)
        [Sample.submitFrame Sample.execution 5]).engine.epoch := by decide +kernel
  exact hdrift hagrees

end ExecutionFabric
