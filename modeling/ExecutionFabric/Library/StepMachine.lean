import Mathlib.Data.List.Induction
import Mathlib.Order.Basic
import Mathlib.Tactic.TypeStar

/-!
Deterministic machines that answer every input, and their finite runs.

A run is recorded by its history, the list of inputs with the outputs they
got, oldest first. `Runs M G s h t` says that the machine `M`, started in `s`,
answers with the history `h` and ends in `t`, and that every step of the run
met the guard `G`, a condition on the state before the step and the input. The
guard is part of the judgment because most temporal facts hold only of runs
whose steps avoid some input; a run without conditions is the case
`G = Always`.

The judgment grows at the end, which is the direction invariants are proved
in. `Runs.split` and `Runs.at_event` take a run apart at a point of its
history, and `Runs.trans` puts two runs together.

The inputs of a machine are often fed from a queue; `Machine.queue_prefix` is
what a queue promises, that nothing is handled before what is already in it.

Inputs are often made by two parties: one chooses what to do, the environment
fills in what is drawn or measured. `Steers` says that the first can reach a
goal in a given environment. A plan is built from `Steers.here` and
`Steers.step`; that there is none is shown by a trap, a property that every
step keeps and that excludes the goal.
-/

namespace StepMachine

/-- A machine: the state after one input, and the output it gives. -/
structure Machine (σ ι ο : Type*) where
  step : σ → ι → σ × ο

variable {σ ι ο : Type*}

namespace Machine

def next (M : Machine σ ι ο) (s : σ) (i : ι) : σ := (M.step s i).1

def out (M : Machine σ ι ο) (s : σ) (i : ι) : ο := (M.step s i).2

/-- The state after a list of inputs. -/
def run (M : Machine σ ι ο) (s : σ) : List ι → σ
  | [] => s
  | i :: is => M.run (M.next s i) is

/-- The history of a list of inputs. -/
def trace (M : Machine σ ι ο) (s : σ) : List ι → List (ι × ο)
  | [] => []
  | i :: is => (i, M.out s i) :: M.trace (M.next s i) is

/-- Every step of the run over a list of inputs meets the guard. -/
def Meets (M : Machine σ ι ο) (G : σ → ι → Prop) (s : σ) : List ι → Prop
  | [] => True
  | i :: is => G s i ∧ M.Meets G (M.next s i) is

end Machine

/-- The guard of a run without conditions. -/
def Always : σ → ι → Prop := fun _ _ => True

/-- `M`, started in `s`, reaches `t` with history `h`, every step meeting `G`. -/
inductive Runs (M : Machine σ ι ο) (G : σ → ι → Prop) (s : σ) : List (ι × ο) → σ → Prop
  | refl : Runs M G s [] s
  | snoc {h : List (ι × ο)} {t : σ} (run : Runs M G s h t) (i : ι) (hG : G t i) :
      Runs M G s (h ++ [(i, M.out t i)]) (M.next t i)

variable {M : Machine σ ι ο} {G : σ → ι → Prop} {s t u : σ} {h k : List (ι × ο)}

theorem Runs.one (i : ι) (hG : G s i) : Runs M G s [(i, M.out s i)] (M.next s i) :=
  .snoc .refl i hG

theorem Runs.trans (hst : Runs M G s h t) (htu : Runs M G t k u) : Runs M G s (h ++ k) u := by
  induction htu with
  | refl => simpa using hst
  | snoc _ i hG ih =>
      rw [← List.append_assoc]
      exact .snoc ih i hG

theorem Runs.cons (i : ι) (hG : G s i) (hrest : Runs M G (M.next s i) h t) :
    Runs M G s ((i, M.out s i) :: h) t := by
  simpa using (Runs.one i hG).trans hrest

/-- A guard may be weakened. -/
theorem Runs.weaken {G' : σ → ι → Prop} (hGG : ∀ s i, G s i → G' s i) (run : Runs M G s h t) :
    Runs M G' s h t := by
  induction run with
  | refl => exact .refl
  | snoc _ i hG ih => exact .snoc ih i (hGG _ _ hG)

theorem Runs.always (run : Runs M G s h t) : Runs M Always s h t :=
  run.weaken fun _ _ _ => trivial

/-- A run over a concatenated history passes through a state between the two. -/
theorem Runs.split (run : Runs M G s (h ++ k) u) : ∃ t, Runs M G s h t ∧ Runs M G t k u := by
  induction k using List.reverseRecOn generalizing u with
  | nil => exact ⟨u, by simpa using run, .refl⟩
  | append_singleton k e ih =>
      rw [← List.append_assoc] at run
      generalize hw : h ++ k ++ [e] = w at run
      cases run with
      | refl => simp at hw
      | snoc run' i hG =>
          obtain ⟨hk, he⟩ := List.append_inj' hw rfl
          subst hk
          obtain rfl : e = _ := by simpa using he
          obtain ⟨t, hst, htu⟩ := ih run'
          exact ⟨t, hst, .snoc htu i hG⟩

/-- An event of the history was answered in the state the prefix leads to. -/
theorem Runs.at_event {e : ι × ο} (run : Runs M G s (h ++ e :: k) u) :
    ∃ t, Runs M G s h t ∧ G t e.1 ∧ e.2 = M.out t e.1 ∧ Runs M G (M.next t e.1) k u := by
  rw [show h ++ e :: k = (h ++ [e]) ++ k by simp] at run
  obtain ⟨v, hsv, hvu⟩ := run.split
  generalize hw : h ++ [e] = w at hsv
  cases hsv with
  | refl => simp at hw
  | snoc hst i hG =>
      obtain ⟨rfl, he⟩ := List.append_inj' hw rfl
      obtain rfl : e = _ := by simpa using he
      exact ⟨_, hst, hG, rfl, hvu⟩

/-- Every event of a run is the answer of the machine to its input in some state. -/
theorem Runs.answered {e : ι × ο} (run : Runs M G s h t) (he : e ∈ h) : ∃ u, e.2 = M.out u e.1 := by
  obtain ⟨h₁, h₂, rfl⟩ := List.append_of_mem he
  obtain ⟨u, -, -, hout, -⟩ := run.at_event
  exact ⟨u, hout⟩

/-- What every guarded step preserves, a guarded run preserves. -/
theorem Runs.preserves {P : σ → Prop} (hstep : ∀ t i, G t i → P t → P (M.next t i))
    (run : Runs M G s h t) (hs : P s) : P t := by
  induction run with
  | refl => exact hs
  | snoc _ i hG ih => exact hstep _ i hG ih

/-- A preorder that every step climbs is climbed by a run. -/
theorem Runs.climbs {α : Type*} [Preorder α] {f : σ → α}
    (hstep : ∀ t i, G t i → f t ≤ f (M.next t i)) (run : Runs M G s h t) : f s ≤ f t := by
  induction run with
  | refl => exact le_rfl
  | snoc _ i hG ih => exact ih.trans (hstep _ i hG)

/-- What every step preserves holds at the end of every run. -/
theorem Machine.run_preserves {P : σ → Prop} (hstep : ∀ t i, P t → P (M.next t i)) (hs : P s)
    (is : List ι) : P (M.run s is) := by
  induction is generalizing s with
  | nil => exact hs
  | cons i is ih => exact ih (hstep s i hs)

/-- The run over a list of inputs is a run. -/
theorem runs_trace (M : Machine σ ι ο) {G : σ → ι → Prop} (s : σ) (is : List ι)
    (hG : M.Meets G s is) : Runs M G s (M.trace s is) (M.run s is) := by
  induction is generalizing s with
  | nil => exact .refl
  | cons i is ih => exact .cons i hG.1 (ih _ hG.2)

theorem meets_always (M : Machine σ ι ο) (s : σ) (is : List ι) : M.Meets Always s is := by
  induction is generalizing s with
  | nil => trivial
  | cons i is ih => exact ⟨trivial, ih _⟩

/-- Every list of inputs is a run without conditions. -/
theorem runs_always (M : Machine σ ι ο) (s : σ) (is : List ι) :
    Runs M Always s (M.trace s is) (M.run s is) :=
  runs_trace M s is (meets_always M s is)

namespace Machine

variable {is : List ι} {i : ι}

theorem run_snoc : M.run s (is ++ [i]) = M.next (M.run s is) i := by
  induction is generalizing s with
  | nil => rfl
  | cons j is ih => exact ih

theorem run_append {js : List ι} : M.run s (is ++ js) = M.run (M.run s is) js := by
  induction is generalizing s with
  | nil => rfl
  | cons j is ih => exact ih

theorem trace_append {js : List ι} :
    M.trace s (is ++ js) = M.trace s is ++ M.trace (M.run s is) js := by
  induction is generalizing s with
  | nil => rfl
  | cons j is ih => exact congrArg (_ :: ·) ih

theorem meets_snoc : M.Meets G s (is ++ [i]) ↔ M.Meets G s is ∧ G (M.run s is) i := by
  induction is generalizing s with
  | nil => simp [Meets, run]
  | cons j is ih =>
      show _ ∧ M.Meets G _ (is ++ [i]) ↔ (_ ∧ M.Meets G _ is) ∧ _
      rw [ih, and_assoc]
      rfl

/-- A run meets a guard when every step of it does. -/
theorem meets_iff :
    M.Meets G s is ↔ ∀ js i, js ++ [i] <+: is → G (M.run s js) i := by
  induction is using List.reverseRecOn with
  | nil => simp [Meets]
  | append_singleton is i ih =>
      rw [meets_snoc, ih]
      constructor
      · rintro ⟨hbefore, hlast⟩ js j hjs
        rcases List.prefix_concat_iff.1 hjs with heq | hjs
        · obtain ⟨rfl, hj⟩ := List.append_inj' heq rfl
          obtain rfl : j = i := by simpa using hj
          exact hlast
        · exact hbefore js j hjs
      · intro hall
        exact ⟨fun js j hjs => hall js j (hjs.trans (List.prefix_append is [i])),
          hall is i List.prefix_rfl⟩

theorem Meets.of_prefix {js : List ι} (h : M.Meets G s is) (hjs : js <+: is) : M.Meets G s js := by
  rw [meets_iff] at h ⊢
  exact fun ks i hks => h ks i (hks.trans hjs)

/-- A property that at every step of a run is the same as a guard. -/
theorem forall_iff_meets {P : σ → ι → Prop}
    (h : ∀ js i, js ++ [i] <+: is → (P (M.run s js) i ↔ G (M.run s js) i)) :
    (∀ js i, js ++ [i] <+: is → P (M.run s js) i) ↔ M.Meets G s is := by
  rw [meets_iff]
  exact forall_congr' fun js => forall_congr' fun i => forall_congr' fun hjs => h js i hjs

/-- Every event of a run is that of its last input up to there. -/
theorem exists_of_mem_trace {x : ι × ο} (hx : x ∈ M.trace s is) :
    ∃ js, js ++ [x.1] <+: is ∧ x.2 = M.out (M.run s js) x.1 := by
  induction is generalizing s with
  | nil => cases hx
  | cons j is ih =>
      rcases List.mem_cons.1 hx with rfl | hx
      · exact ⟨[], List.cons_prefix_cons.2 ⟨rfl, List.nil_prefix⟩, rfl⟩
      · obtain ⟨js, hjs, hout⟩ := ih hx
        exact ⟨j :: js, List.cons_prefix_cons.2 ⟨rfl, hjs⟩, hout⟩

@[simp] theorem map_fst_trace : (M.trace s is).map Prod.fst = is := by
  induction is generalizing s with
  | nil => rfl
  | cons j is ih => simp [trace, ih]

/-- Every event of a guarded run is the answer to an input that met the guard. -/
theorem Meets.event (h : M.Meets G s is) {x : ι × ο} (hx : x ∈ M.trace s is) :
    ∃ t, G t x.1 ∧ x.2 = M.out t x.1 := by
  induction is generalizing s with
  | nil => cases hx
  | cons j is ih =>
      rcases List.mem_cons.1 hx with rfl | hx
      · exact ⟨s, h.1, rfl⟩
      · exact ih h.2 hx

/-- A guard that is exact at every step is exact for runs: if, after guarded
steps, the next state has the property exactly when the next step meets the
guard, then all states of the run have it exactly when all steps meet the
guard. -/
theorem always_iff_meets {P : σ → Prop} (hs : P s)
    (hstep : ∀ js i, js ++ [i] <+: is → M.Meets G s js → P (M.run s js) →
      (P (M.next (M.run s js) i) ↔ G (M.run s js) i)) :
    (∀ js, js <+: is → P (M.run s js)) ↔ M.Meets G s is := by
  induction is using List.reverseRecOn with
  | nil => simpa [Meets, run] using hs
  | append_singleton is i ih =>
      have hbefore := ih fun js j hjs => hstep js j (hjs.trans (List.prefix_append is [i]))
      have hlast := hstep is i List.prefix_rfl
      rw [meets_snoc, ← hbefore]
      constructor
      · intro hall
        have hinit : ∀ js, js <+: is → P (M.run s js) := fun js hjs =>
          hall js (hjs.trans (List.prefix_append is [i]))
        refine ⟨hinit, (hlast (hbefore.1 hinit) (hinit is List.prefix_rfl)).1 ?_⟩
        rw [← run_snoc]
        exact hall _ List.prefix_rfl
      · rintro ⟨hinit, hG⟩ js hjs
        rcases List.prefix_concat_iff.1 hjs with rfl | hjs
        · rw [run_snoc]
          exact (hlast (hbefore.1 hinit) (hinit is List.prefix_rfl)).2 hG
        · exact hinit js hjs

end Machine

/-! ### Queues -/

/-- A machine that takes entries from the front of a queue, and puts new ones
at its end, handles what is in the queue before anything else, and in order. -/
theorem Machine.queue_prefix {α : Type*} (queue : σ → List α) (handled : ο → List α)
    (hstep : ∀ s i, queue s <+: handled (M.out s i) ++ queue (M.next s i)) (s : σ) (is : List ι) :
    queue s <+: (M.trace s is).flatMap (fun x => handled x.2) ++ queue (M.run s is) := by
  induction is generalizing s with
  | nil => exact List.prefix_rfl
  | cons i is ih =>
      refine (hstep s i).trans ?_
      show _ <+: (handled (M.out s i) ++ _) ++ _
      rw [List.append_assoc]
      exact List.prefix_append_right_inj _ |>.2 (ih _)

/-! ### Steering -/

section Steering

variable {κ ε : Type*} {input : κ → ε → ι} {P T : σ → Prop} {env : ℕ → ε}

/-- The inputs made of a list of controls in an environment. -/
def inputs (input : κ → ε → ι) (env : ℕ → ε) : List κ → List ι
  | [] => []
  | k :: ks => input k (env 0) :: inputs input (fun n => env (n + 1)) ks

/-- In the environment `env`, some controls lead from `s` to a state in `P`. -/
def Steers (M : Machine σ ι ο) (input : κ → ε → ι) (P : σ → Prop) (env : ℕ → ε) (s : σ) : Prop :=
  ∃ ks, P (M.run s (inputs input env ks))

theorem Steers.here (h : P s) : Steers M input P env s := ⟨[], h⟩

theorem Steers.step (k : κ)
    (h : Steers M input P (fun n => env (n + 1)) (M.next s (input k (env 0)))) :
    Steers M input P env s := by
  obtain ⟨ks, hks⟩ := h
  exact ⟨k :: ks, hks⟩

/-- Inside a trap there is no way to a goal outside it. Only inputs made of a
control have to keep the trap. -/
theorem not_steers_of_trap (hstep : ∀ t k e, T t → T (M.next t (input k e)))
    (hgoal : ∀ t, T t → ¬P t) (hs : T s) : ¬Steers M input P env s := by
  rintro ⟨ks, hP⟩
  induction ks generalizing s env with
  | nil => exact hgoal s hs hP
  | cons k ks ih => exact ih (hstep s k (env 0) hs) hP

end Steering

end StepMachine
