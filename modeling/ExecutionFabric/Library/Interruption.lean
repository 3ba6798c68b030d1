import Mathlib.Data.List.Basic
import Mathlib.Tactic.TypeStar

/-!
Work that is done in steps and may not be finished.

A procedure is a list of steps, each of which changes the state once and for
all. Whether a step happens is decided outside (`Fate`): it is performed, or it
fails, which the procedure notices and reports, or the process stops before
it. In both latter cases the state stays as the steps before left it, so what
has to be shown of an interrupted procedure is a matter of its prefixes:
`carryOut_append` goes past a part that is performed, `carryOut_cut` says that
nothing comes after a part that is not.
-/

namespace Interruption

inductive Fate
  | performed | failed | stopped
  deriving DecidableEq

variable {σ : Type*}

/-- Carry the steps out one after the other: the state they lead to, and
whether the procedure reports success, if it ends. -/
def carryOut : List (σ → σ) → (ℕ → Fate) → σ → σ × Option Bool
  | [], _, s => (s, some true)
  | step :: steps, fate, s =>
    match fate 0 with
    | .performed => carryOut steps (fun n => fate (n + 1)) (step s)
    | .failed => (s, some false)
    | .stopped => (s, none)

variable {xs ys : List (σ → σ)} {fate : ℕ → Fate} {s : σ}

theorem carryOut_append (h : ∀ i < xs.length, fate i = .performed) :
    carryOut (xs ++ ys) fate s
      = carryOut ys (fun n => fate (n + xs.length)) (xs.foldl (fun s step => step s) s) := by
  induction xs generalizing fate s with
  | nil => rfl
  | cons x xs ih =>
      have hrest : ∀ i < xs.length, fate (i + 1) = .performed := fun i hi =>
        h (i + 1) (Nat.succ_lt_succ hi)
      rw [List.cons_append, carryOut, h 0 (Nat.zero_lt_succ _)]
      exact ih hrest

/-- If a step of the first part is not performed, the second is not reached. -/
theorem carryOut_cut {i : ℕ} (hi : i < xs.length) (h : fate i ≠ .performed) :
    carryOut (xs ++ ys) fate s = carryOut xs fate s := by
  induction xs generalizing fate s i with
  | nil => exact absurd hi (Nat.not_lt_zero i)
  | cons x xs ih =>
      rw [List.cons_append, carryOut, carryOut]
      cases hfate : fate 0 with
      | failed => rfl
      | stopped => rfl
      | performed =>
          cases i with
          | zero => exact absurd hfate h
          | succ i => exact ih (Nat.lt_of_succ_lt_succ hi) h

/-- What every step preserves, the procedure preserves, wherever it ends. -/
theorem carryOut_preserves {P : σ → Prop} (hstep : ∀ x ∈ xs, ∀ s, P s → P (x s)) (hs : P s) :
    P (carryOut xs fate s).1 := by
  induction xs generalizing fate s with
  | nil => exact hs
  | cons x xs ih =>
      rw [carryOut]
      cases fate 0 with
      | failed => exact hs
      | stopped => exact hs
      | performed =>
          exact ih (fun y hy => hstep y (List.mem_cons_of_mem _ hy))
            (hstep x List.mem_cons_self s hs)

end Interruption
