import ExecutionFabric.Library.StepMachine

/-!
Machines that are fed from a queue.

A step takes entries from the front of the queue and puts others at its end.
`Machine.collect` lists what the steps of a run contribute. Nothing gets lost
and nothing is made up on the way through the queue: what was handled, followed
by what still waits, is what was there and what was put in, in that order
(`Machine.queue_exact`).
-/

namespace StepMachine

variable {σ ι ο α : Type*} {M : Machine σ ι ο} {f : σ → ι → List α} {s : σ}

/-- What the steps of a run contribute, in order. -/
def Machine.collect (M : Machine σ ι ο) (f : σ → ι → List α) (s : σ) : List ι → List α
  | [] => []
  | i :: is => f s i ++ M.collect f (M.next s i) is

namespace Machine

variable {is : List ι} {i : ι}

theorem collect_append {js : List ι} :
    M.collect f s (is ++ js) = M.collect f s is ++ M.collect f (M.run s is) js := by
  induction is generalizing s with
  | nil => rfl
  | cons i is ih =>
      show f s i ++ M.collect f _ (is ++ js) = (f s i ++ _) ++ _
      rw [ih, List.append_assoc]
      rfl

theorem collect_snoc : M.collect f s (is ++ [i]) = M.collect f s is ++ f (M.run s is) i := by
  rw [collect_append]
  exact congrArg _ (List.append_nil _)

/-- A contribution was made by a step. -/
theorem exists_of_mem_collect {a : α} (ha : a ∈ M.collect f s is) :
    ∃ js i, js ++ [i] <+: is ∧ a ∈ f (M.run s js) i := by
  induction is generalizing s with
  | nil => cases ha
  | cons j is ih =>
      rcases List.mem_append.1 ha with ha | ha
      · exact ⟨[], j, List.cons_prefix_cons.2 ⟨rfl, List.nil_prefix⟩, ha⟩
      · obtain ⟨js, i, hjs, ha⟩ := ih ha
        exact ⟨j :: js, i, List.cons_prefix_cons.2 ⟨rfl, hjs⟩, ha⟩

/-- What goes through a queue comes out in the order in which it was put in. -/
theorem queue_exact (queue : σ → List α) (handled : ο → List α)
    (hstep : ∀ s i, handled (M.out s i) ++ queue (M.next s i) = queue s ++ f s i) (s : σ)
    (is : List ι) :
    (M.trace s is).flatMap (fun x => handled x.2) ++ queue (M.run s is) =
      queue s ++ M.collect f s is := by
  induction is generalizing s with
  | nil => exact (List.append_nil _).symm
  | cons i is ih =>
      show (handled (M.out s i) ++ (M.trace (M.next s i) is).flatMap (fun x => handled x.2)) ++
        queue (M.run (M.next s i) is) = queue s ++ (f s i ++ _)
      rw [List.append_assoc, ih, ← List.append_assoc, hstep, List.append_assoc]

end Machine

end StepMachine
