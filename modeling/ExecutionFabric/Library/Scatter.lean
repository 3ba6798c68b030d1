import Mathlib.Data.List.Basic

/-!
Many writers, and one list.

Each writer writes one place of the list, or none, and what it writes depends on the
place only. Then a place has in the end what belongs there, if somebody wrote it, and
is as it was otherwise (`getElem?_writes`); who wrote first does not matter.
-/

namespace Scatter

variable {ι α : Type*}

def write (place : ι → Option ℕ) (value : ℕ → α) (xs : List α) (t : ι) : List α :=
  match place t with
  | none => xs
  | some k => xs.set k (value k)

/-- One after the other. -/
def writes (place : ι → Option ℕ) (value : ℕ → α) (ts : List ι) (xs : List α) : List α :=
  ts.foldl (write place value) xs

variable {place : ι → Option ℕ} {value : ℕ → α} {ts : List ι} {xs : List α}

@[simp] theorem length_write (t : ι) : (write place value xs t).length = xs.length := by
  unfold write
  split
  · rfl
  · exact List.length_set

theorem getElem?_write (t : ι) (k : ℕ) :
    (write place value xs t)[k]? =
      if place t = some k then xs[k]?.map (fun _ => value k) else xs[k]? := by
  unfold write
  cases hplace : place t with
  | none => simp
  | some j =>
      by_cases hj : j = k
      · subst hj
        rw [if_pos rfl, List.getElem?_set_self']
        rfl
      · simp [List.getElem?_set_ne hj, hj]

theorem getElem?_writes (k : ℕ) :
    (writes place value ts xs)[k]? =
      if ∃ t ∈ ts, place t = some k then xs[k]?.map (fun _ => value k) else xs[k]? := by
  induction ts generalizing xs with
  | nil => simp [writes]
  | cons t ts ih =>
      have hrest : (writes place value ts (write place value xs t))[k]? = _ := ih
      rw [writes] at hrest
      rw [writes, List.foldl_cons, hrest, getElem?_write]
      by_cases hplace : place t = some k
      · have hwritten : ∃ u ∈ t :: ts, place u = some k := ⟨t, List.mem_cons_self, hplace⟩
        rw [if_pos hplace, if_pos hwritten, Option.map_map]
        exact ite_self _
      · simp [hplace]

/-- Where every place is written, all of them have what belongs there. -/
theorem writes_all (h : ∀ k < xs.length, ∃ t ∈ ts, place t = some k) :
    writes place value ts xs = (List.range xs.length).map value := by
  apply List.ext_getElem?
  intro k
  rw [getElem?_writes]
  by_cases hk : k < xs.length
  · rw [if_pos (h k hk)]
    simp [hk]
  · simp [hk]

section

variable {f : List α → ι → Option (List α)}

/-- Writers that may fail, and do not. -/
theorem foldlM_eq_writes {n : ℕ}
    (h : ∀ t ∈ ts, ∀ xs : List α, xs.length = n → f xs t = some (write place value xs t))
    (hlength : xs.length = n) : ts.foldlM f xs = some (writes place value ts xs) := by
  induction ts generalizing xs with
  | nil => rfl
  | cons t ts ih =>
      rw [List.foldlM_cons, h t List.mem_cons_self xs hlength]
      exact ih (fun u hu => h u (List.mem_cons_of_mem t hu)) ((length_write t).trans hlength)

/-- Writers that write nothing. -/
theorem foldlM_eq_self (h : ∀ t ∈ ts, f xs t = some xs) : ts.foldlM f xs = some xs := by
  induction ts with
  | nil => rfl
  | cons t ts ih =>
      rw [List.foldlM_cons, h t List.mem_cons_self]
      exact ih fun u hu => h u (List.mem_cons_of_mem t hu)

/-- One that always fails. -/
theorem foldlM_eq_none {t : ι} (ht : t ∈ ts) (h : ∀ xs, f xs t = none) :
    ts.foldlM f xs = none := by
  induction ts generalizing xs with
  | nil => cases ht
  | cons u ts ih =>
      rw [List.foldlM_cons]
      rcases List.mem_cons.1 ht with rfl | ht
      · rw [h xs]
        rfl
      · cases hstep : f xs u with
        | none => rfl
        | some ys => exact ih ht

end

end Scatter
