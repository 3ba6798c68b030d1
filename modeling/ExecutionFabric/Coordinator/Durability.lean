import ExecutionFabric.Coordinator.Requests
import ExecutionFabric.Engine.Rejection

/-!
Is everything saved before it is answered?

Each branch of the handler decides for itself whether it saves. Most save
whatever the engine said. Four look first, and each overlooks a case in which
the engine has written: `START` never saves, `DISPATCH` and `COMPLETE` save
only what was accepted and miss what a refused call stored, and `RESUME` saves
only if the worker is connected.

A coordinator is `Durable` when its records and its epoch are the ones last
saved, or still the ones recovered when it was started. The runs that avoid
the four cases (`PersistsAll`) are durable whenever a reply is sent
(`durable_before_reply`); one accepted start is enough to break it
(`start_not_saved`).
-/

namespace ExecutionFabric

open Collections StepMachine ExecutionEngine

/-! ### What leaves the records alone -/

section

variable {s : ExecutionEngine} {c : Call}

/-- A call either leaves the records as they are, or creates one, or has an
effect on one. -/
theorem records_next_or (s : ExecutionEngine) (c : Call) :
    (engine.next s c).records = s.records ∨ (∃ id e, c.op = .create id e) ∨
      ∃ id r r', c.op.target = some id ∧ s.find id = some r ∧ s.epoch ≤ c.op.epoch ∧
        Effect (s.adoptFor c.op).epoch c.ambient r c.op (engine.out s c) r' ∧
        engine.next s c = (s.adoptFor c.op).store id r' := by
  have hadopt : ∀ e, (s.adoptEpoch e).records = s.records := fun e => by
    unfold adoptEpoch
    split <;> rfl
  obtain ⟨op, amb⟩ := c
  have heffects := step_effects s op amb
  generalize engine.out s ⟨op, amb⟩ = o at heffects ⊢
  generalize engine.next s ⟨op, amb⟩ = s' at heffects ⊢
  cases heffects with
  | raised e => exact .inl (hadopt e)
  | refused => exact .inl rfl
  | adopted => exact .inl (hadopt _)
  | repeated => exact .inl rfl
  | @created id e => exact .inr (.inl ⟨id, e, rfl⟩)
  | acted htarget hfind hcur effect =>
      exact .inr (.inr ⟨_, _, _, htarget, hfind, hcur, effect, rfl⟩)

theorem Outcome.Gives.result {o : Outcome} {code : DecisionCode} {ticket drawn}
    (gives : o.Gives code ticket drawn) : o.result.code = code := by
  obtain ⟨d, hd, hcode⟩ := Option.map_eq_some_iff.1 gives.code
  simp [Outcome.result, hd, hcode]

variable {amb : Ambient}

/-- A start that the engine does not accept. -/
theorem records_markRunning {t : StartTicket}
    (hguard : ∀ r, s.find t.executionId = some r → StartAuthorised s.epoch r t →
      ¬(r.state = .dispatched ∨ r.state = .resuming)) :
    (engine.next s ⟨.markRunning t, amb⟩).records = s.records := by
  rcases records_next_or s ⟨.markRunning t, amb⟩ with
    h | ⟨_, _, hop⟩ | ⟨_, _, _, ht, hf, _, effect, _⟩
  · exact h
  · cases hop
  · obtain rfl := Option.some.inj ht
    cases effect with
    | started auth hstate gives => exact absurd hstate (hguard _ hf auth)

/-- A dispatch that is refused, of an execution that is not resuming. -/
theorem records_dispatch {id : ExecutionId} {worker : WorkerId} {boot : WorkerBootId}
    {e : CoordinatorEpoch}
    (hcode : (engine.out s ⟨.dispatch id worker boot e, amb⟩).result.code ≠ .allow)
    (hguard : ∀ r, s.find id = some r → s.epoch ≤ e → r.coordinatorEpoch ≤ e →
      r.state ≠ .resuming) :
    (engine.next s ⟨.dispatch id worker boot e, amb⟩).records = s.records := by
  rcases records_next_or s ⟨.dispatch id worker boot e, amb⟩ with
    h | ⟨_, _, hop⟩ | ⟨_, _, _, ht, hf, hcur, effect, _⟩
  · exact h
  · cases hop
  · obtain rfl := Option.some.inj ht
    have hepoch : (s.adoptFor (.dispatch id worker boot e)).epoch = e :=
      adoptEpoch_epoch_of_le s hcur
    simp only [hepoch] at effect
    cases effect with
    | dispatched hrec hstate gives => exact absurd gives.result hcode
    | dispatchStuck hrec hstate gives => exact absurd hstate (hguard _ hf hcur hrec)

/-- A completion that is refused and leaves nothing behind. -/
theorem records_complete {t : CompletionTicket}
    (hcode : (engine.out s ⟨.complete t, amb⟩).result.code ≠ .allow)
    (hguard : ¬s.Leaks (.complete t)) :
    (engine.next s ⟨.complete t, amb⟩).records = s.records := by
  rcases records_next_or s ⟨.complete t, amb⟩ with
    h | ⟨_, _, hop⟩ | ⟨id, r, r', ht, hf, hcur, effect, hnext⟩
  · exact h
  · cases hop
  · obtain ⟨d, hd⟩ : ∃ d, (engine.out s ⟨.complete t, amb⟩).decision = some d := ⟨_, rfl⟩
    have hrefused : d.allowed = false := by
      cases effect with
      | committed auth hstate hresult hdigest gives => exact absurd gives.result hcode
      | completeStuck auth hstate hlive hpre hresult hdigest gives =>
          have hdc := gives.code
          rw [Outcome.code?, hd] at hdc
          simp [Decision.allowed, Option.some.inj hdc]
    rw [hnext, effect_eq_self hf ht hcur hd hrefused hguard effect]

/-- A resumption that is refused. -/
theorem records_resume {id : ExecutionId} {worker : WorkerId} {boot : WorkerBootId}
    {e : CoordinatorEpoch} {gen : ResumeGeneration}
    (hguard : (engine.out s ⟨.resume id worker boot e gen, amb⟩).result.code = .resumeAllowed →
      ∀ r, s.find id = some r → e = s.epoch → r.coordinatorEpoch = s.epoch →
        gen = r.resumeGeneration.next → r.state ≠ .resumable) :
    (engine.next s ⟨.resume id worker boot e gen, amb⟩).records = s.records := by
  rcases records_next_or s ⟨.resume id worker boot e gen, amb⟩ with
    h | ⟨_, _, hop⟩ | ⟨_, r, _, ht, hf, _, effect, _⟩
  · exact h
  · cases hop
  · obtain rfl := Option.some.inj ht
    generalize engine.out s ⟨.resume id worker boot e gen, amb⟩ = o at effect hguard
    generalize hop : Op.resume id worker boot e gen = op at effect
    have hepoch : (s.adoptFor op).epoch = s.epoch := by rw [← hop]; rfl
    rw [hepoch] at effect
    cases effect with
    | resumed hrec hstate gives =>
        cases hop
        exact absurd hstate (hguard gives.result r hf rfl hrec rfl)
    | _ => cases hop

theorem next_of_threw (h : (engine.out s c).threw = true) : engine.next s c = s := by
  obtain ⟨op, amb⟩ := c
  have hthrew : (s.step ⟨op, amb⟩).2.threw = true := h
  show (s.step ⟨op, amb⟩).1 = s
  cases op with
  | activate id e =>
      simp only [step] at hthrew ⊢
      cases hcall : s.activate id e with
      | error _ => rfl
      | ok res =>
          rw [hcall] at hthrew
          cases hthrew
  | dispatch id worker boot e =>
      simp only [step] at hthrew ⊢
      cases hcall : s.dispatch amb id worker boot e with
      | error _ => rfl
      | ok i =>
          rw [hcall] at hthrew
          cases hthrew
  | _ => cases hthrew

end

/-! ### Durable coordinators -/

/-- The records and the epoch are those that were saved last, or still those
that were recovered from the file when the coordinator was started. -/
def Coordinator.Durable (k : Coordinator) : Prop :=
  k.Saved ∨ ∃ e₀, k.engine.records = (construct k.persistent k.file e₀).engine.records ∧
    k.epoch = (construct k.persistent k.file e₀).epoch

theorem Coordinator.durable_construct (persistent : Bool) (file : Option ByteString)
    (e₀ : CoordinatorEpoch) : (construct persistent file e₀).Durable := by
  refine .inr ⟨e₀, ?_⟩
  rw [construct_persistent, construct_file]
  exact ⟨rfl, rfl⟩

theorem recordList_congr {s t : ExecutionEngine} (h : s.records = t.records) :
    s.recordList = t.recordList := by
  have hfind : s.find = t.find := funext fun id => by simp only [find, h]
  rw [recordList, recordList, h, hfind]

/-- `k` differs from `k₀` in nothing that is saved. -/
structure Coordinator.Alike (k₀ k : Coordinator) : Prop where
  records : k.engine.records = k₀.engine.records
  epoch : k.epoch = k₀.epoch
  persistent : k.persistent = k₀.persistent
  file : k.file = k₀.file

theorem Coordinator.Alike.durable {k₀ k : Coordinator} (h : k₀.Alike k) (hdurable : k₀.Durable) :
    k.Durable := by
  unfold Durable Saved at hdurable ⊢
  rw [h.file, h.epoch, h.persistent, h.records, recordList_congr h.records]
  exact hdurable

/-- When the reply is sent, or when the handler returns without one, the
coordinator has the property. -/
inductive Turn.Ends (P : Coordinator → Prop) (conn : ℕ) : Turn → Prop
  | replied {u : Turn} (hu : P u.coordinator) (type : MsgType) (message : Message) :
      Ends P conn (u.send conn type message)
  | silent {t : Turn} (ht : P t.coordinator) (hsent : t.sent = []) : Ends P conn t

namespace Turn

variable {P : Coordinator → Prop} {conn : ℕ} {k : Coordinator} {t : Turn}

/-- Nothing happens after the reply. -/
theorem Ends.after (h : Ends P conn t) : P t.coordinator := by
  cases h with
  | replied hu => rwa [send_coordinator]
  | silent ht => exact ht

/-- A reply after a save. -/
theorem ends_persist (h : t.coordinator.persistent = true) (type : MsgType) (message : Message) :
    Ends Coordinator.Durable conn (t.persist.send conn type message) :=
  .replied (.inl (t.persist_saved h)) type message

theorem ends_given {α : Type} (hk : P k) {unpacked : Except ByteString α} {handle : α → Turn}
    (hhandle : ∀ p, unpacked = .ok p → Ends P conn (handle p)) :
    Ends P conn (given { coordinator := k } unpacked handle) := by
  cases unpacked with
  | error _ => exact .silent hk rfl
  | ok p => exact hhandle p rfl

section

variable {amb : Ambient} {order : List ℕ} (hpersistent : k.persistent = true) (hk : k.Durable)
include hpersistent

theorem ends_onControl (op : Op) (reply : MsgType) :
    Ends Coordinator.Durable conn (onControl { coordinator := k } conn amb op reply) :=
  ends_persist hpersistent reply _

theorem ends_onSubmit (sp : SubmitPayload) :
    Ends Coordinator.Durable conn (onSubmit { coordinator := k } conn amb sp) := by
  unfold onSubmit
  dsimp only
  split
  · rename_i hcode
    split
    · -- the record was just created, so the activation finds it
      rename_i hthrew
      have hreturns : (engine.out (engine.next k.engine ⟨.create sp.executionId sp.epoch, amb⟩)
          ⟨.activate sp.executionId sp.epoch, amb⟩).threw = false := by
        refine returns_of_found fun id hrequires => ?_
        obtain rfl : sp.executionId = id := Option.some.inj hrequires
        exact create_allows rfl (congrArg some hcode)
      exact absurd (hreturns.symm.trans hthrew) nofun
    · exact ends_persist hpersistent _ _
  · exact ends_persist hpersistent _ _

include hk

theorem ends_onDispatch (dp : DispatchRequestPayload)
    (hguard : k.workerConn order dp.workerId ≠ 0 → ∀ r, k.engine.find dp.executionId = some r →
      k.engine.epoch ≤ dp.epoch → r.coordinatorEpoch ≤ dp.epoch → r.state ≠ .resuming) :
    Ends Coordinator.Durable conn (onDispatch { coordinator := k } conn amb order dp) := by
  unfold onDispatch
  dsimp only
  split
  · exact .replied hk _ _
  · rename_i hworker
    split
    · rename_i hthrew
      have hsame : k.Alike (Turn.call { coordinator := k } ⟨.dispatch dp.executionId dp.workerId
          dp.workerBootId dp.epoch, amb⟩).crash.coordinator :=
        ⟨congrArg ExecutionEngine.records (next_of_threw hthrew), rfl, rfl, rfl⟩
      exact .silent (hsame.durable hk) rfl
    · split
      · -- a ticket was issued: the ticket is sent first, and then all is saved
        unfold Turn.assign
        refine ends_persist ?_ _ _
        rw [send_coordinator]
        split <;> exact hpersistent
      · rename_i hcode
        have hsame : k.Alike (Turn.call { coordinator := k } ⟨.dispatch dp.executionId dp.workerId
            dp.workerBootId dp.epoch, amb⟩).coordinator :=
          ⟨records_dispatch hcode (hguard hworker), rfl, rfl, rfl⟩
        exact .replied (hsame.durable hk) _ _

omit hpersistent in
theorem ends_onStart (t : StartTicket)
    (hguard : ∀ r, k.engine.find t.executionId = some r → StartAuthorised k.engine.epoch r t →
      ¬(r.state = .dispatched ∨ r.state = .resuming)) :
    Ends Coordinator.Durable conn (onStart { coordinator := k } conn amb t) := by
  have hrecords : (engine.next k.engine ⟨.markRunning t, amb⟩).records = k.engine.records :=
    records_markRunning hguard
  have hsame : k.Alike (call { coordinator := k } ⟨.markRunning t, amb⟩).coordinator :=
    ⟨hrecords, rfl, rfl, rfl⟩
  exact .replied (hsame.durable hk) _ _

theorem ends_onComplete (cp : CompletePayload)
    (hguard : ¬k.engine.Leaks (.complete (CompletePayload.filled cp))) :
    Ends Coordinator.Durable conn (onComplete { coordinator := k } conn amb cp) := by
  unfold onComplete
  dsimp only
  split
  · exact ends_persist hpersistent _ _
  · -- nothing is saved on a refusal, so it must not have written anything
    rename_i hcode
    have hsame : k.Alike (Turn.call { coordinator := k }
        ⟨.complete (CompletePayload.filled cp), amb⟩).coordinator :=
      ⟨records_complete hcode hguard, rfl, rfl, rfl⟩
    exact .replied (hsame.durable hk) _ _

theorem ends_onResume (rp : ResumeRequestPayload)
    (hguard : k.workerConn order rp.workerId = 0 → ∀ r, k.engine.find rp.executionId = some r →
      rp.epoch = k.engine.epoch → r.coordinatorEpoch = k.engine.epoch →
      rp.resumeGen = r.resumeGeneration.next → r.state ≠ .resumable) :
    Ends Coordinator.Durable conn (onResume { coordinator := k } conn amb order rp) := by
  unfold onResume
  dsimp only
  split
  · refine ends_persist ?_ _ _
    rw [send_coordinator]
    exact hpersistent
  · rename_i hcode
    have hsame : k.Alike (Turn.call { coordinator := k } ⟨.resume rp.executionId rp.workerId
        rp.workerBootId rp.epoch rp.resumeGen, amb⟩).coordinator := by
      refine ⟨records_resume fun hresumed => ?_, rfl, rfl, rfl⟩
      exact hguard (by_contra fun hworker => hcode ⟨hresumed, hworker⟩)
    exact .replied (hsame.durable hk) _ _

theorem ends_onConnClosed :
    Ends Coordinator.Durable conn (onConnClosed { coordinator := k } conn amb) := by
  unfold onConnClosed
  dsimp only
  cases k.conns.lookup conn with
  | none => exact .silent hk rfl
  | some entry =>
      have hsame : k.Alike { k with conns := k.conns.erase conn } := ⟨rfl, rfl, rfl, rfl⟩
      dsimp only
      cases entry.activeExecution with
      | none => exact .silent (hsame.durable hk) rfl
      | some id =>
          dsimp only
          cases entry.isWorker with
          | true => exact .silent (.inl (persist_saved _ hpersistent)) (by simp [Turn.call])
          | false => exact .silent (hsame.durable hk) rfl

end

end Turn

/-! ### Runs -/

/-- The guard of the runs in which every write of the engine is saved: no start
is accepted, no dispatch reaches a resuming execution, no refused completion
leaves a trace, and no resumption is accepted without a connected worker. -/
def PersistsAll (k : Coordinator) : Event → Prop
  | .inbound _ .start payload _ _ =>
    ∀ t r, unpackStart payload = .ok t → k.engine.find t.executionId = some r →
      StartAuthorised k.engine.epoch r t → ¬(r.state = .dispatched ∨ r.state = .resuming)
  | .inbound _ .dispatch payload _ order =>
    ∀ dp r, unpackDispatch payload = .ok dp → k.workerConn order dp.workerId ≠ 0 →
      k.engine.find dp.executionId = some r → k.engine.epoch ≤ dp.epoch →
      r.coordinatorEpoch ≤ dp.epoch → r.state ≠ .resuming
  | .inbound _ .complete payload _ _ =>
    ∀ cp, unpackComplete payload = .ok cp →
      ¬k.engine.Leaks (.complete (Turn.CompletePayload.filled cp))
  | .inbound _ .resume payload _ order =>
    ∀ rp r, unpackResume payload = .ok rp → k.workerConn order rp.workerId = 0 →
      k.engine.find rp.executionId = some r → rp.epoch = k.engine.epoch →
      r.coordinatorEpoch = k.engine.epoch → rp.resumeGen = r.resumeGeneration.next →
      r.state ≠ .resumable
  | _ => True

theorem Turn.ends_decide {k : Coordinator} {conn : ℕ} {type : MsgType} {payload : ByteString}
    {amb : Ambient} {order : List ℕ} (hpersistent : k.persistent = true) (hk : k.Durable)
    (hG : PersistsAll k (.inbound conn type payload amb order)) :
    Ends Coordinator.Durable conn (decide { coordinator := k } conn type payload amb order) := by
  have hcontrol : ∀ op reply, Ends Coordinator.Durable conn
      (onControl { coordinator := k } conn amb op reply) := ends_onControl hpersistent
  unfold decide
  split
  · exact ends_onConnClosed hpersistent hk
  · unfold handleFrame
    cases type
    case hello =>
      refine ends_given hk fun hp _ => .replied ?_ _ _
      have hsame : k.Alike (modifyConn { coordinator := k } conn fun entry =>
          { entry with isWorker := hp.role == 1, workerId := hp.workerId,
                       boot := hp.workerBootId }).coordinator := ⟨rfl, rfl, rfl, rfl⟩
      exact hsame.durable hk
    case registerWorker => exact .replied hk _ _
    case submit => exact ends_given hk fun sp _ => ends_onSubmit hpersistent sp
    case dispatch =>
      refine ends_given hk fun dp hdp => ends_onDispatch hpersistent hk dp ?_
      exact fun hworker r => hG dp r hdp hworker
    case start => exact ends_given hk fun t ht => ends_onStart hk t fun r => hG t r ht
    case complete =>
      exact ends_given hk fun cp hcp => ends_onComplete hpersistent hk cp (hG cp hcp)
    case cancel => exact ends_given hk fun _ _ => hcontrol _ _
    case preempt => exact ends_given hk fun _ _ => hcontrol _ _
    case ackPreempt => exact ends_given hk fun _ _ => hcontrol _ _
    case markResumable => exact ends_given hk fun _ _ => hcontrol _ _
    case resume =>
      refine ends_given hk fun rp hrp => ends_onResume hpersistent hk rp ?_
      exact fun hworker r => hG rp r hrp hworker
    case workerLost => exact ends_given hk fun _ _ => hcontrol _ _
    case query => exact ends_given hk fun _ _ => .replied hk _ _
    case ping => exact .replied hk _ _
    case shutdown =>
      have hsame : k.Alike { k with running := false } := ⟨rfl, rfl, rfl, rfl⟩
      exact .silent (hsame.durable hk) rfl
    all_goals exact .silent hk rfl

section

variable {file : Option ByteString} {e₀ : CoordinatorEpoch} {h : List (Event × Output)}
  {k : Coordinator}

theorem durable_next {ev : Event} (hG : PersistsAll k ev)
    (hk : k.persistent = true ∧ k.Durable) :
    (coordinator.next k ev).persistent = true ∧ (coordinator.next k ev).Durable := by
  obtain ⟨hpersistent, hdurable⟩ := hk
  cases ev with
  | accept =>
      have hsame : k.Alike k.accept := ⟨rfl, rfl, rfl, rfl⟩
      exact ⟨hpersistent, hsame.durable hdurable⟩
  | restart e =>
      refine ⟨?_, Coordinator.durable_construct _ _ _⟩
      exact (Coordinator.construct_persistent _ _ _).trans hpersistent
  | inbound conn type payload amb order =>
      by_cases halive : k.alive = true
      · rw [next_of_alive halive]
        have hhandles := Turn.handles (G := Always) (fun _ _ _ => trivial) k conn type payload amb
          order fun _ _ _ => trivial
        exact ⟨hhandles.persistent.trans hpersistent,
          (Turn.ends_decide hpersistent hdurable hG).after⟩
      · rw [next_of_dead halive]
        exact ⟨hpersistent, hdurable⟩

theorem durable_of_runs (run : Runs coordinator PersistsAll (.construct true file e₀) h k) :
    k.persistent = true ∧ k.Durable := by
  refine run.preserves (P := fun k => k.persistent = true ∧ k.Durable)
    (fun _ _ hG hk => durable_next hG hk) ?_
  exact ⟨Coordinator.construct_persistent _ _ _, Coordinator.durable_construct _ _ _⟩

end

/-- A coordinator starts with the records of the file, if there are any. -/
theorem Coordinator.records_construct (persistent : Bool) (file : Option ByteString)
    (e : CoordinatorEpoch) : (construct persistent file e).engine.records =
      match persistent, load file with
      | true, .ok (recovered, _) => recovered.foldl emplace ∅
      | _, _ => ∅ := by
  have hraise : ∀ (s : ExecutionEngine) (e : CoordinatorEpoch),
      (s.raiseEpoch e).records = s.records := fun s e => by
    unfold raiseEpoch adoptEpoch
    split <;> rfl
  cases persistent with
  | false => rfl
  | true =>
      cases hload : load file with
      | error _ => simp [construct, hload, init]
      | ok recovered =>
          simp only [construct, hload, if_true]
          split
          · exact hraise _ _
          · rfl

/-- The recovered records do not depend on the epoch that is passed in. -/
theorem Coordinator.construct_records (persistent : Bool) (file : Option ByteString)
    (e₀ e₁ : CoordinatorEpoch) : (construct persistent file e₀).engine.records
      = (construct persistent file e₁).engine.records := by
  rw [records_construct, records_construct]

end ExecutionFabric
