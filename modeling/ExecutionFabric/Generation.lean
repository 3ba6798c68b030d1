import Mathlib.Algebra.Group.Nat.Defs
import Mathlib.Order.Basic
import Mathlib.Order.Lattice
import Mathlib.Order.MinMax

/-!
Generation counters.

`Gen Tag` is the 64-bit counter of one authority domain. Zero means that no
generation has been established. A counter only moves by `next`, which
saturates at the largest value and never wraps; the order is that of the
values. `Counts` is a counter together with values that were taken from it.
-/

namespace ExecutionFabric

structure Gen (Tag : Type) where
  value : UInt64

namespace Gen

variable {Tag : Type}

/-- `std::numeric_limits<std::uint64_t>::max()`. -/
def maxValue : UInt64 := 0xFFFFFFFFFFFFFFFF

instance : Inhabited (Gen Tag) := ⟨⟨0⟩⟩

def isSet (g : Gen Tag) : Bool := g.value != 0

def next (g : Gen Tag) : Gen Tag := if g.value = maxValue then g else ⟨g.value + 1⟩

theorem toNat_injective : Function.Injective fun g : Gen Tag => g.value.toNat := by
  rintro ⟨a⟩ ⟨b⟩ h
  exact congrArg Gen.mk (UInt64.toNat_inj.1 h)

instance : LinearOrder (Gen Tag) := LinearOrder.lift' (fun g => g.value.toNat) toNat_injective

theorem toNat_next (g : Gen Tag) :
    g.next.value.toNat = min (g.value.toNat + 1) (2 ^ 64 - 1) := by
  have hlt := g.value.toNat_lt
  unfold next
  split
  · rename_i h
    have hmax : g.value.toNat = 2 ^ 64 - 1 := by
      rw [h]
      rfl
    omega
  · rename_i h
    have hne : g.value.toNat ≠ 2 ^ 64 - 1 := fun hn => h (UInt64.toNat_inj.1 hn)
    rw [UInt64.toNat_add]
    simp only [UInt64.reduceToNat]
    omega

theorem isSet_iff {g : Gen Tag} : g.isSet = true ↔ 0 < g.value.toNat := by
  simp only [isSet, bne_iff_ne, ne_eq, Nat.pos_iff_ne_zero]
  exact not_congr UInt64.toNat_inj.symm

@[simp] theorem isSet_next (g : Gen Tag) : g.next.isSet = true := by
  rw [isSet_iff, toNat_next]
  omega

/-- Only a saturated counter stands still. -/
theorem next_eq_self_iff {g : Gen Tag} : g.next = g ↔ g.value = maxValue := by
  refine ⟨fun h => ?_, fun h => by simp [next, h]⟩
  have hlt := g.value.toNat_lt
  have hnat := g.toNat_next
  rw [h] at hnat
  refine UInt64.toNat_inj.1 ?_
  simp only [maxValue, UInt64.reduceToNat]
  omega

theorem le_iff {a b : Gen Tag} : a ≤ b ↔ a.value.toNat ≤ b.value.toNat := Iff.rfl

theorem lt_iff {a b : Gen Tag} : a < b ↔ a.value.toNat < b.value.toNat := Iff.rfl

theorem le_next (g : Gen Tag) : g ≤ g.next := by
  have hlt := g.value.toNat_lt
  rw [le_iff, toNat_next]
  omega

/-! ### Taking values from a counter -/

/-- The counter stands at `g` after at most `n` moves, and `gs` are values it
went through, in the order in which it did. -/
structure Counts (n : ℕ) (g : Gen Tag) (gs : List (Gen Tag)) : Prop where
  few : g.value.toNat ≤ n
  taken : ∀ x ∈ gs, x ≤ g
  ascending : gs.Pairwise (· < ·)

variable {n m : ℕ} {g : Gen Tag} {gs : List (Gen Tag)}

theorem Counts.nil (h : g.value.toNat ≤ n) : Counts n g [] := ⟨h, nofun, .nil⟩

theorem Counts.mono (h : Counts n g gs) (hnm : n ≤ m) : Counts m g gs :=
  ⟨h.few.trans hnm, h.taken, h.ascending⟩

/-- As long as it is not saturated, the next value is a new one. -/
theorem Counts.push (h : Counts n g gs) (hn : n < 2 ^ 64 - 1) :
    Counts (n + 1) g.next (gs ++ [g.next]) where
  few := by
    have hfew := h.few
    rw [toNat_next]
    omega
  taken := by
    intro x hx
    rcases List.mem_append.1 hx with hx | hx
    · exact (h.taken x hx).trans g.le_next
    · exact (List.mem_singleton.1 hx).le
  ascending := by
    have hnew : ∀ x ∈ gs, x < g.next := fun x hx => by
      have hfew := h.few
      have hle := le_iff.1 (h.taken x hx)
      rw [lt_iff, toNat_next]
      omega
    rw [List.pairwise_append]
    exact ⟨h.ascending, List.pairwise_singleton _ _, by simpa using hnew⟩

end Gen

inductive ExecutionGenTag
inductive AttemptGenTag
inductive DispatchGenTag
inductive OwnershipGenTag
inductive FenceGenTag
inductive CancellationGenTag
inductive PreemptionGenTag
inductive ResumeGenTag
inductive CompletionGenTag
inductive CommitGenTag
inductive CoordinatorEpochTag

abbrev ExecutionGeneration := Gen ExecutionGenTag
abbrev AttemptGeneration := Gen AttemptGenTag
abbrev DispatchGeneration := Gen DispatchGenTag
abbrev OwnershipGeneration := Gen OwnershipGenTag
abbrev FenceGeneration := Gen FenceGenTag
abbrev CancellationGeneration := Gen CancellationGenTag
abbrev PreemptionGeneration := Gen PreemptionGenTag
abbrev ResumeGeneration := Gen ResumeGenTag
abbrev CompletionGeneration := Gen CompletionGenTag
abbrev CommitGeneration := Gen CommitGenTag
abbrev CoordinatorEpoch := Gen CoordinatorEpochTag

end ExecutionFabric
