import ExecutionFabric.Engine.Run
import ExecutionFabric.Library.Independence

/-!
Calls about different executions do not interfere.

A call reads the record it addresses and the epoch, and nothing else: in two
engines that agree on these it gets the same answer and leaves the same record
(`step_alike`). It writes to no other record; and if it carries the epoch of
the engine, it does not move the epoch either. So at one epoch the engine falls
apart into its executions (`engine_cells`).
-/

namespace ExecutionFabric

open StepMachine ExecutionEngine

/-! ### What a call looks at -/

/-- The engine as far as calls about one execution look at it. -/
def ExecutionEngine.standing (s : ExecutionEngine) (id : ExecutionId) :
    CoordinatorEpoch × Option ExecutionRecord := (s.epoch, s.find id)

/-- The engines agree on the epoch and on one execution. -/
structure Agree (id : ExecutionId) (s s' : ExecutionEngine) : Prop where
  epoch : s.epoch = s'.epoch
  find : s.find id = s'.find id

theorem agree_iff {id : ExecutionId} {s s' : ExecutionEngine} :
    s.standing id = s'.standing id ↔ Agree id s s' := by
  rw [standing, standing, Prod.mk.injEq]
  exact ⟨fun h => ⟨h.1, h.2⟩, fun h => ⟨h.1, h.2⟩⟩

/-- Two calls answered alike, and left one execution alike. -/
structure Alike (id : ExecutionId) (x y : ExecutionEngine × Outcome) : Prop where
  out : x.2 = y.2
  agree : Agree id x.1 y.1

section

variable {id : ExecutionId} {s s' : ExecutionEngine}

theorem Agree.store (h : Agree id s s') (r : ExecutionRecord) :
    Agree id (s.store id r) (s'.store id r) where
  epoch := h.epoch
  find := by rw [find_store_self, find_store_self]

theorem Agree.adoptEpoch (h : Agree id s s') (e : CoordinatorEpoch) :
    Agree id (s.adoptEpoch e) (s'.adoptEpoch e) where
  epoch := by rw [adoptEpoch_epoch, adoptEpoch_epoch, h.epoch]
  find := by rw [find_adoptEpoch, find_adoptEpoch, h.find]

theorem Alike.decided (h : Agree id s s') (d : Decision) :
    Alike id (decided (d, s)) (decided (d, s')) := ⟨rfl, h⟩

theorem Alike.issued (h : Agree id s s') (d : Decision) (t : Option DispatchTicket)
    (drawn : Option (AttemptId × DispatchId)) :
    Alike id (issued ⟨d, s, t, drawn⟩) (issued ⟨d, s', t, drawn⟩) := ⟨rfl, h⟩

/-- A check that both calls make alike. -/
theorem Alike.ite {β : Type} {answer : β → ExecutionEngine × Outcome} {c : Prop} [Decidable c]
    {x x' y y' : β} (hx : Alike id (answer x) (answer x')) (hy : Alike id (answer y) (answer y')) :
    Alike id (answer (if c then x else y)) (answer (if c then x' else y')) := by
  split
  · exact hx
  · exact hy

/-! ### The operations, branch by branch -/

theorem create_alike (h : Agree id s s') (amb : Ambient) (e : CoordinatorEpoch) :
    Alike id (decided (s.create amb id e)) (decided (s'.create amb id e)) := by
  have ha := h.adoptEpoch e
  simp only [create, h.epoch, ha.epoch, ha.find]
  exact .ite (.decided h _) (.ite (.decided ha _) (.decided (ha.store _) _))

theorem activate_alike (h : Agree id s s') (amb : Ambient) (e : CoordinatorEpoch) :
    Alike id (engine.step s ⟨.activate id e, amb⟩) (engine.step s' ⟨.activate id e, amb⟩) := by
  have ha := h.adoptEpoch e
  simp only [engine, step, activate, h.find]
  cases s'.find id with
  | none => exact ⟨rfl, h⟩
  | some r =>
      simp only [h.epoch]
      exact .ite (.decided h _) (.ite (.decided ha _) (.decided (ha.store _) _))

theorem dispatch_alike (h : Agree id s s') (amb : Ambient) (w : WorkerId) (b : WorkerBootId)
    (e : CoordinatorEpoch) :
    Alike id (engine.step s ⟨.dispatch id w b e, amb⟩)
      (engine.step s' ⟨.dispatch id w b e, amb⟩) := by
  have ha := h.adoptEpoch e
  simp only [engine, step, dispatch, h.find]
  cases s'.find id with
  | none => exact ⟨rfl, h⟩
  | some r =>
      simp only [h.epoch, ha.epoch]
      refine .ite (.issued h _ _ _) (.ite (.issued ha _ _ _) (.ite (.issued ha _ _ _) ?_))
      refine .ite (.issued ha _ _ _) (.ite (.issued ha _ _ _) (.ite (.issued ha _ _ _) ?_))
      refine .ite (.issued ha _ _ _) (.ite (.issued ha _ _ _) ?_)
      exact .ite (.issued (ha.store _) _ _ _) (.issued (ha.store _) _ _ _)

theorem validateStart_congr (hepoch : s.epoch = s'.epoch) (r : ExecutionRecord) (t : StartTicket) :
    s.validateStart r t = s'.validateStart r t := by
  simp only [validateStart, hepoch]

theorem markRunning_alike {t : StartTicket} (h : Agree t.executionId s s') :
    Alike t.executionId (decided (s.markRunning t)) (decided (s'.markRunning t)) := by
  simp only [markRunning, h.find]
  cases s'.find t.executionId with
  | none => exact .decided h _
  | some r =>
      simp only [validateStart_congr h.epoch]
      exact .ite (.decided h _) (.ite (.decided h _) (.decided (h.store _) _))

theorem validateTicket_congr (hepoch : s.epoch = s'.epoch) (r : ExecutionRecord)
    (t : CompletionTicket) : s.validateTicket r t = s'.validateTicket r t := by
  simp only [validateTicket, hepoch]

theorem complete_alike {t : CompletionTicket} (h : Agree t.executionId s s') (amb : Ambient) :
    Alike t.executionId (decided (s.complete amb t)) (decided (s'.complete amb t)) := by
  simp only [complete, h.find]
  cases s'.find t.executionId with
  | none => exact .decided h _
  | some r =>
      simp only [validateTicket_congr h.epoch]
      refine .ite (.decided h _) (.ite (.ite (.decided h _) (.decided h _)) ?_)
      refine .ite (.ite (.decided h _) (.decided h _)) (.ite (.decided h _) (.ite (.decided h _) ?_))
      exact .ite (.decided (h.store _) _) (.decided (h.store _) _)

theorem cancel_alike {req : ControlRequest} (h : Agree req.executionId s s') :
    Alike req.executionId (decided (s.cancel req)) (decided (s'.cancel req)) := by
  simp only [cancel, h.find]
  cases s'.find req.executionId with
  | none => exact .decided h _
  | some r =>
      simp only [h.epoch]
      refine .ite (.decided h _) (.ite (.decided h _) (.ite (.decided h _) (.ite (.decided h _) ?_)))
      exact .ite (.decided (h.store _) _) (.ite (.decided (h.store _) _) (.decided (h.store _) _))

theorem finalizeCancel_alike (h : Agree id s s') (e : CoordinatorEpoch) :
    Alike id (decided (s.finalizeCancel id e)) (decided (s'.finalizeCancel id e)) := by
  simp only [finalizeCancel, h.find]
  cases s'.find id with
  | none => exact .decided h _
  | some r =>
      simp only [h.epoch]
      exact .ite (.decided h _) (.ite (.decided h _) (.ite (.decided h _) (.decided (h.store _) _)))

theorem preempt_alike {req : ControlRequest} (h : Agree req.executionId s s') :
    Alike req.executionId (decided (s.preempt req)) (decided (s'.preempt req)) := by
  simp only [preempt, h.find]
  cases s'.find req.executionId with
  | none => exact .decided h _
  | some r =>
      simp only [h.epoch]
      refine .ite (.decided h _) (.ite (.decided h _) (.ite (.decided h _) (.ite (.decided h _) ?_)))
      exact .ite (.decided (h.store _) _) (.decided h _)

theorem acknowledgePreempt_alike (h : Agree id s s') (e : CoordinatorEpoch) :
    Alike id (decided (s.acknowledgePreempt id e)) (decided (s'.acknowledgePreempt id e)) := by
  simp only [acknowledgePreempt, h.find]
  cases s'.find id with
  | none => exact .decided h _
  | some r =>
      simp only [h.epoch]
      exact .ite (.decided h _) (.ite (.decided h _) (.decided (h.store _) _))

theorem markResumable_alike (h : Agree id s s') (e : CoordinatorEpoch) :
    Alike id (decided (s.markResumable id e)) (decided (s'.markResumable id e)) := by
  simp only [markResumable, h.find]
  cases s'.find id with
  | none => exact .decided h _
  | some r =>
      simp only [h.epoch]
      exact .ite (.decided h _) (.ite (.decided h _) (.decided (h.store _) _))

theorem resume_alike (h : Agree id s s') (amb : Ambient) (w : WorkerId) (b : WorkerBootId)
    (e : CoordinatorEpoch) (g : ResumeGeneration) :
    Alike id (issued (s.resume amb id w b e g)) (issued (s'.resume amb id w b e g)) := by
  simp only [resume, h.find]
  cases s'.find id with
  | none => exact .issued h _ _ _
  | some r =>
      simp only [h.epoch]
      refine .ite (.issued h _ _ _) (.ite (.issued h _ _ _) (.ite (.issued h _ _ _) ?_))
      exact .ite (.issued (h.store _) _ _ _) (.issued (h.store _) _ _ _)

theorem markWorkerLost_alike (h : Agree id s s') (w : WorkerId) (b : WorkerBootId)
    (e : CoordinatorEpoch) :
    Alike id (decided (s.markWorkerLost id w b e)) (decided (s'.markWorkerLost id w b e)) := by
  simp only [markWorkerLost, h.find]
  cases s'.find id with
  | none => exact .decided h _
  | some r =>
      simp only [h.epoch]
      refine .ite (.decided h _) (.ite (.decided h _) (.ite (.decided h _) ?_))
      refine .ite (.decided (h.store _) _) (.ite (.decided (h.store _) _) ?_)
      exact .ite (.decided (h.store _) _) (.ite (.decided (h.store _) _) (.decided h _))

theorem supersede_alike (h : Agree id s s') (e : CoordinatorEpoch) :
    Alike id (decided (s.supersede id e)) (decided (s'.supersede id e)) := by
  simp only [supersede, h.find]
  cases s'.find id with
  | none => exact .decided h _
  | some r =>
      simp only [h.epoch]
      exact .ite (.decided h _) (.ite (.decided h _) (.decided (h.store _) _))

theorem step_alike {c : Call} (htarget : c.op.target = some id) (h : Agree id s s') :
    Alike id (engine.step s c) (engine.step s' c) := by
  obtain ⟨op, amb⟩ := c
  cases op with
  | raiseEpoch e => cases htarget
  | create k e => cases htarget; exact create_alike h amb e
  | activate k e => cases htarget; exact activate_alike h amb e
  | dispatch k w b e => cases htarget; exact dispatch_alike h amb w b e
  | markRunning t => cases htarget; exact markRunning_alike h
  | complete t => cases htarget; exact complete_alike h amb
  | cancel req => cases htarget; exact cancel_alike h
  | finalizeCancel k e => cases htarget; exact finalizeCancel_alike h e
  | preempt req => cases htarget; exact preempt_alike h
  | acknowledgePreempt k e => cases htarget; exact acknowledgePreempt_alike h e
  | markResumable k e => cases htarget; exact markResumable_alike h e
  | resume k w b e g => cases htarget; exact resume_alike h amb w b e g
  | markWorkerLost k w b e => cases htarget; exact markWorkerLost_alike h w b e
  | supersede k e => cases htarget; exact supersede_alike h e

end

/-! ### The engine at one epoch -/

/-- The call is about an execution, and carries the epoch of the engine. -/
def Current (s : ExecutionEngine) (c : Call) : Prop :=
  c.op.target ≠ none ∧ c.op.epoch = s.epoch

theorem engine_cells : Cells engine (·.op.target) standing Current where
  named h := Option.ne_none_iff_exists'.1 h.1
  out_local htarget hlook := (step_alike htarget (agree_iff.1 hlook)).out
  next_local htarget hlook := agree_iff.2 (step_alike htarget (agree_iff.1 hlook)).agree
  frame h hne := agree_iff.2 ⟨epoch_next_of_le h.2.le, find_next_of_ne hne⟩
  keeps hi hj := ⟨hj.1, hj.2.trans (epoch_next_of_le hi.2.le).symm⟩
  ext {s t} h := by
    have hepoch : s.epoch = t.epoch := (agree_iff.1 (h .nil)).epoch
    have hrecords : s.records = t.records :=
      Finmap.ext_lookup fun id => (agree_iff.1 (h id)).find
    cases s
    cases t
    cases hepoch
    cases hrecords
    rfl

/-- Two calls about different executions, at the epoch of the engine, are
answered alike in either order and leave the same engine. Each of several
clients that keep to executions of their own gets the answers it would get
alone, however their calls are interleaved. -/
theorem independent (s : ExecutionEngine) :
    (∀ c d : Call, Current s c → Current s d → c.op.target ≠ d.op.target →
      engine.out (engine.next s c) d = engine.out s d ∧
      engine.out (engine.next s d) c = engine.out s c ∧
      engine.next (engine.next s c) d = engine.next (engine.next s d) c) ∧
    ∀ {χ : Type} [DecidableEq χ] (territory : χ → Set ExecutionId) (turns : List (χ × Call)),
      (∀ a b id, id ∈ territory a → id ∈ territory b → a = b) →
      (∀ x ∈ turns, Current s x.2 ∧ ∀ id, x.2.op.target = some id → id ∈ territory x.1) →
      ∀ a, own a (engine.served s turns) = engine.trace s (own a turns) := by
  refine ⟨fun c d hc hd hne => ?_, fun territory turns hdisjoint hturns a => ?_⟩
  · exact ⟨engine_cells.out_next hc hd hne, engine_cells.out_next hd hc (Ne.symm hne),
      engine_cells.commute hc hd hne⟩
  · exact engine_cells.own_served (hdisjoint _ _ _) (fun x hx => (hturns x hx).1)
      (fun x hx => (hturns x hx).2) a

end ExecutionFabric
