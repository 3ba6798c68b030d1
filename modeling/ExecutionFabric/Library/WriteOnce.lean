import ExecutionFabric.Library.StepMachine
import Mathlib.Logic.Function.Basic

/-!
Banks of write-once registers.

A bank maps each key to nothing or to the one value that was written to it.
`Writes m ws m'` says that the writes `ws`, in order, lead from `m` to `m'`,
each of them to a register that was still empty. This is the abstract form of
"at most one outcome per key, and an outcome never changes": a run of writes
has no key twice (`Writes.nodup`), never loses a value (`Writes.keeps`), and
its final bank holds exactly what was there and what was written
(`Writes.get_iff`).

A machine refines a bank when each of its steps, read through an abstraction
of the state and a label of the event, is either no write or one legal write
(`writes_of_runs`).
-/

namespace WriteOnce

open StepMachine

variable {κ δ : Type*} [DecidableEq κ]

/-- The bank after one write. -/
def write (m : κ → Option δ) (w : κ × δ) : κ → Option δ := Function.update m w.1 (some w.2)

@[simp] theorem write_self (m : κ → Option δ) (k : κ) (d : δ) : write m (k, d) k = some d := by
  simp [write]

theorem write_of_ne (m : κ → Option δ) {k k' : κ} (d : δ) (hk : k' ≠ k) :
    write m (k, d) k' = m k' := by
  simp [write, hk]

inductive Writes (m : κ → Option δ) : List (κ × δ) → (κ → Option δ) → Prop
  | nil : Writes m [] m
  | snoc {ws : List (κ × δ)} {m' : κ → Option δ} (run : Writes m ws m') (w : κ × δ)
      (hempty : m' w.1 = none) : Writes m (ws ++ [w]) (write m' w)

variable {m m' : κ → Option δ} {ws : List (κ × δ)}

theorem Writes.get_iff (run : Writes m ws m') (k : κ) (d : δ) :
    m' k = some d ↔ m k = some d ∨ (k, d) ∈ ws := by
  induction run with
  | nil => simp
  | @snoc ws m₁ run w hempty ih =>
      obtain ⟨k', d'⟩ := w
      by_cases hk : k = k'
      · subst hk
        have hnot : ¬(m k = some d ∨ (k, d) ∈ ws) := by
          rw [← ih, hempty]
          simp
        simp only [not_or] at hnot
        simp [hnot.1, hnot.2, eq_comm]
      · simp [write_of_ne _ _ hk, ih, hk]

/-- A value that was there stays there. -/
theorem Writes.keeps (run : Writes m ws m') {k : κ} {d : δ} (hk : m k = some d) :
    m' k = some d :=
  (run.get_iff k d).2 (.inl hk)

/-- No key is written twice. -/
theorem Writes.nodup (run : Writes m ws m') : (ws.map Prod.fst).Nodup := by
  induction run with
  | nil => simp
  | @snoc ws m₁ run w hempty ih =>
      rw [List.map_append, List.nodup_append]
      refine ⟨ih, by simp, ?_⟩
      intro k hk k' hk' heq
      obtain ⟨⟨k, d⟩, hmem, rfl⟩ := List.mem_map.1 hk
      obtain rfl : k' = w.1 := by simpa using hk'
      have hkw : k = w.1 := heq
      have hset := (run.get_iff k d).2 (.inr hmem)
      rw [hkw, hempty] at hset
      cases hset

/-- Two writes to one key are the same write. -/
theorem Writes.unique (run : Writes m ws m') {k : κ} {d d' : δ} (hd : (k, d) ∈ ws)
    (hd' : (k, d') ∈ ws) : d = d' := by
  have h := (run.get_iff k d).2 (.inr hd)
  rw [(run.get_iff k d').2 (.inr hd')] at h
  exact (Option.some.inj h).symm

/-- A step that writes nothing, or one value to an empty register. -/
def StepWrites (m : κ → Option δ) (w : Option (κ × δ)) (m' : κ → Option δ) : Prop :=
  match w with
  | none => m' = m
  | some w => m w.1 = none ∧ m' = write m w

/-- A machine whose every step is at most one legal write runs as a bank does. -/
theorem writes_of_runs {σ ι ο : Type*} {M : Machine σ ι ο} {G : σ → ι → Prop}
    (bank : σ → κ → Option δ) (label : ι × ο → Option (κ × δ)) {P : σ → Prop}
    (hP : ∀ t i, G t i → P t → P (M.next t i))
    (hstep : ∀ t i, G t i → P t →
      StepWrites (bank t) (label (i, M.out t i)) (bank (M.next t i)))
    {s t : σ} {h : List (ι × ο)} (hs : P s) (run : Runs M G s h t) :
    Writes (bank s) (h.filterMap label) (bank t) := by
  induction run with
  | refl => exact .nil
  | @snoc h t run i hG ih =>
      have hone := hstep t i hG (run.preserves hP hs)
      rw [List.filterMap_append, List.filterMap_cons, List.filterMap_nil]
      cases hl : label (i, M.out t i) with
      | none =>
          rw [hl] at hone
          simpa [show bank (M.next t i) = bank t from hone] using ih
      | some w =>
          rw [hl] at hone
          rw [hone.2]
          exact .snoc ih w hone.1

end WriteOnce
