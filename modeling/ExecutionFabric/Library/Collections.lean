import Mathlib.Data.Finset.Sort
import Mathlib.Data.List.Sort
import Mathlib.Data.Multiset.Fold

/-!
Loops over a vector, and sorted key lists.

`updateFirst` and `updateAll` are the two loops that change elements of a
vector in place: with and without a `break` after the first match. What the
loops do not touch is described by a projection: a function that the update
leaves alone on every element is left alone on the whole vector
(`map_updateFirst`, `map_updateAll`).

A running maximum is bounded by what bounds its start and all it has seen
(`fold_max_le_iff`). A search by a key finds the element that has it, where keys
are unique (`find?_of_nodup`).
`sortKeys` lists a finite set of keys in increasing order. It is
`Finset.sort` computed by insertion, so that it also reduces in the kernel.
-/

namespace Collections

variable {α β : Type*}

/-- `for (auto& x : xs) { if (p(x)) { x = f(x); break; } }`. -/
def updateFirst (p : α → Bool) (f : α → α) : List α → List α
  | [] => []
  | x :: xs => if p x then f x :: xs else x :: updateFirst p f xs

/-- `for (auto& x : xs) { if (p(x)) { x = f(x); } }`. -/
def updateAll (p : α → Bool) (f : α → α) (xs : List α) : List α :=
  xs.map fun x => if p x then f x else x

section

variable {p : α → Bool} {f : α → α} {xs : List α}

theorem map_updateFirst {g : α → β} (hg : ∀ x, p x = true → g (f x) = g x) :
    (updateFirst p f xs).map g = xs.map g := by
  induction xs with
  | nil => rfl
  | cons x xs ih =>
      simp only [updateFirst]
      split
      · rename_i hp
        simp [hg x hp]
      · simp [ih]

theorem map_updateAll {g : α → β} (hg : ∀ x, p x = true → g (f x) = g x) :
    (updateAll p f xs).map g = xs.map g := by
  simp only [updateAll, List.map_map]
  refine List.map_congr_left fun x _ => ?_
  simp only [Function.comp]
  split
  · rename_i hp
    exact hg x hp
  · rfl

/-- If something matches, a match is what changes. -/
theorem exists_mem_updateFirst (h : ∃ x ∈ xs, p x = true) :
    ∃ x ∈ xs, p x = true ∧ f x ∈ updateFirst p f xs := by
  induction xs with
  | nil => simp at h
  | cons x xs ih =>
      simp only [updateFirst]
      by_cases hp : p x = true
      · exact ⟨x, by simp, hp, by simp [hp]⟩
      · obtain ⟨z, hz, hpz⟩ := h
        have hne : z ∈ xs := by
          rcases List.mem_cons.1 hz with rfl | hz
          · exact absurd hpz hp
          · exact hz
        obtain ⟨y, hy, hpy, hmem⟩ := ih ⟨z, hne, hpz⟩
        exact ⟨y, by simp [hy], hpy, by simp [hp, hmem]⟩

/-- Where no two elements agree on `g`, a search by `g` finds what it looks for. -/
theorem find?_of_nodup [DecidableEq β] {g : α → β} (hg : (xs.map g).Nodup) {x : α}
    (hx : x ∈ xs) : xs.find? (fun y => g y = g x) = some x := by
  induction xs with
  | nil => cases hx
  | cons y ys ih =>
      obtain ⟨hy, hys⟩ := List.nodup_cons.1 hg
      rcases List.mem_cons.1 hx with rfl | hx
      · simp
      · have hne : g y ≠ g x := fun heq => hy (heq ▸ List.mem_map_of_mem hx)
        simp [hne, ih hys hx]

/-- The loop with a `break` changes nothing when the first match is left as it is. -/
theorem updateFirst_eq_self_iff :
    updateFirst p f xs = xs ↔ ∀ x, xs.find? p = some x → f x = x := by
  induction xs with
  | nil => simp [updateFirst]
  | cons x xs ih =>
      by_cases hp : p x = true
      · simp [updateFirst, hp]
      · simp [updateFirst, hp, ih]

theorem updateAll_of_none (h : ∀ x ∈ xs, p x = false) : updateAll p f xs = xs := by
  refine (List.map_congr_left fun x hx => ?_).trans (List.map_id xs)
  simp [h x hx]

/-- A search that the updates do not interfere with. -/
theorem find?_updateAll {q : α → Bool} (hq : ∀ x, q (f x) = q x) :
    (updateAll p f xs).find? q = (xs.find? q).map fun x => if p x then f x else x := by
  rw [updateAll, List.find?_map]
  congr 2
  funext x
  simp only [Function.comp]
  split
  · exact hq x
  · rfl

/-- The loop with a `break` changes what a search for the same thing finds. -/
theorem find?_updateFirst (hp : ∀ x, p (f x) = p x) :
    (updateFirst p f xs).find? p = (xs.find? p).map f := by
  induction xs with
  | nil => rfl
  | cons x xs ih =>
      by_cases hpx : p x = true
      · simp [updateFirst, hpx, hp]
      · simp [updateFirst, hpx, ih]

theorem mem_updateFirst {y : α} (h : y ∈ updateFirst p f xs) :
    y ∈ xs ∨ ∃ x ∈ xs, p x = true ∧ y = f x := by
  induction xs with
  | nil => cases h
  | cons x xs ih =>
      simp only [updateFirst] at h
      split at h
      · rename_i hp
        rcases List.mem_cons.1 h with rfl | h
        · exact .inr ⟨x, by simp, hp, rfl⟩
        · exact .inl (by simp [h])
      · rcases List.mem_cons.1 h with rfl | h
        · exact .inl (by simp)
        · rcases ih h with h | ⟨z, hz, hp, rfl⟩
          · exact .inl (by simp [h])
          · exact .inr ⟨z, by simp [hz], hp, rfl⟩

theorem mem_updateAll {y : α} (h : y ∈ updateAll p f xs) :
    ∃ x ∈ xs, (p x = true ∧ y = f x) ∨ (p x = false ∧ y = x) := by
  obtain ⟨x, hx, rfl⟩ := List.mem_map.1 h
  refine ⟨x, hx, ?_⟩
  cases hp : p x <;> simp

/-- Where at most one element matches, the `break` makes no difference. -/
theorem updateFirst_eq_updateAll {g : α → β} (hg : (xs.map g).Nodup)
    (hp : ∀ x y, p x = true → p y = true → g x = g y) : updateFirst p f xs = updateAll p f xs := by
  induction xs with
  | nil => rfl
  | cons x xs ih =>
      obtain ⟨hx, hxs⟩ := List.nodup_cons.1 hg
      cases hpx : p x with
      | true =>
          have hnone : ∀ y ∈ xs, p y = false := by
            intro y hy
            by_contra hpy
            apply hx
            rw [hp x y hpx (by simpa using hpy)]
            exact List.mem_map_of_mem hy
          have hrest := updateAll_of_none (f := f) hnone
          simp only [updateAll] at hrest ⊢
          simp [updateFirst, hpx, hrest]
      | false =>
          have hrest := ih hxs
          simp only [updateAll] at hrest ⊢
          simp [updateFirst, hpx, hrest]

/-- Of the elements that a relation wants changed, the loop with a `break`
changes one: it does all that is asked for when there are no more. -/
theorem forall₂_updateFirst {P : α → α → Prop} (hkeep : ∀ x, p x = false → P x x)
    (hchange : ∀ x, p x = true → ¬P x x) :
    List.Forall₂ P xs (updateFirst p f xs) ↔
      (xs.filter p).length ≤ 1 ∧ ∀ x ∈ xs, p x = true → P x (f x) := by
  have hsame : ∀ ys : List α, List.Forall₂ P ys ys ↔ ys.filter p = [] := by
    intro ys
    rw [List.forall₂_same, List.filter_eq_nil_iff]
    refine forall₂_congr fun y _ => ⟨fun hP hp => hchange y hp hP, fun hp => hkeep y ?_⟩
    simpa using hp
  induction xs with
  | nil => simp [updateFirst]
  | cons x xs ih =>
      cases hp : p x with
      | true =>
          simp only [updateFirst, hp, if_true, List.forall₂_cons, hsame, List.filter_cons,
            List.length_cons, List.forall_mem_cons, forall_const]
          constructor
          · rintro ⟨hx, hnone⟩
            refine ⟨by simp [hnone], hx, fun y hy hpy => ?_⟩
            have hmem : y ∈ xs.filter p := List.mem_filter.2 ⟨hy, hpy⟩
            rw [hnone] at hmem
            cases hmem
          · rintro ⟨hlength, hx, -⟩
            exact ⟨hx, List.length_eq_zero_iff.1 (by omega)⟩
      | false =>
          simp [updateFirst, hp, ih, hkeep x hp]

end

/-- A list has a related one exactly if each of its elements has a related one. -/
theorem forall₂_exists_iff {R : α → β → Prop} {xs : List α} :
    (∃ ys, List.Forall₂ R xs ys) ↔ ∀ x ∈ xs, ∃ y, R x y := by
  induction xs with
  | nil => exact iff_of_true ⟨[], .nil⟩ (List.forall_mem_nil _)
  | cons x xs ih =>
      rw [List.forall_mem_cons, ← ih]
      constructor
      · rintro ⟨ys, hys⟩
        obtain ⟨y, ys, hy, hrest, -⟩ := List.forall₂_cons_left_iff.1 hys
        exact ⟨⟨y, hy⟩, ys, hrest⟩
      · rintro ⟨⟨y, hy⟩, ys, hrest⟩
        exact ⟨y :: ys, .cons hy hrest⟩

section

variable [LinearOrder α]

theorem fold_max_le_iff {b c : α} {m : Multiset α} :
    m.fold max b ≤ c ↔ b ≤ c ∧ ∀ a ∈ m, a ≤ c := by
  induction m using Multiset.induction with
  | empty => simp
  | cons a m ih =>
      rw [Multiset.fold_cons_left, max_le_iff, ih, Multiset.forall_mem_cons]
      exact and_left_comm

theorem le_fold_max (b : α) (m : Multiset α) : b ≤ m.fold max b := (fold_max_le_iff.1 le_rfl).1

theorem le_fold_max_of_mem (b : α) {a : α} {m : Multiset α} (ha : a ∈ m) : a ≤ m.fold max b :=
  (fold_max_le_iff.1 le_rfl).2 a ha

def sortKeys (s : Finset α) : List α :=
  Quot.liftOn s.val (List.insertionSort (· ≤ ·)) fun a b hab =>
    (((List.perm_insertionSort _ a).trans hab).trans
      (List.perm_insertionSort _ b).symm).eq_of_pairwise (fun _ _ _ _ => le_antisymm)
        (List.pairwise_insertionSort _ a) (List.pairwise_insertionSort _ b)

theorem coe_sortKeys (s : Finset α) : (sortKeys s : Multiset α) = s.val := by
  obtain ⟨⟨l⟩, hl⟩ := s
  exact Quot.sound (List.perm_insertionSort _ l)

@[simp] theorem mem_sortKeys {s : Finset α} {a : α} : a ∈ sortKeys s ↔ a ∈ s := by
  rw [← Multiset.mem_coe, coe_sortKeys, Finset.mem_val]

theorem nodup_sortKeys (s : Finset α) : (sortKeys s).Nodup := by
  rw [← Multiset.coe_nodup, coe_sortKeys]
  exact s.nodup

end

end Collections
