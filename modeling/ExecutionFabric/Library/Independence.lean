import ExecutionFabric.Library.StepMachine

/-!
Machines whose state falls apart into cells.

An input names a cell, a key, and what the machine does with the input depends
on that cell alone and changes no other. Then inputs that name different cells
commute (`Cells.commute`), and clients that name disjoint sets of cells do not
notice one another: of the answers to everything that was served, each gets the
ones it would get alone (`Cells.own_served`).

What a cell looks like may include what all cells share, as long as no input
changes it. `Fits` is the condition under which inputs do not: a guard that the
inputs under it keep for each other.
-/

namespace StepMachine

variable {σ ι ο κ α : Type*}

/-- The machine works on the cells that `look` shows, under the guard `Fits`. -/
structure Cells (M : Machine σ ι ο) (key : ι → Option κ) (look : σ → κ → α)
    (Fits : σ → ι → Prop) : Prop where
  named : ∀ {s i}, Fits s i → ∃ k, key i = some k
  out_local : ∀ {s t i k}, key i = some k → look s k = look t k → M.out s i = M.out t i
  next_local : ∀ {s t i k}, key i = some k → look s k = look t k →
    look (M.next s i) k = look (M.next t i) k
  frame : ∀ {s i k}, Fits s i → key i ≠ some k → look (M.next s i) k = look s k
  keeps : ∀ {s i j}, Fits s i → Fits s j → Fits (M.next s i) j
  ext : ∀ {s t}, (∀ k, look s k = look t k) → s = t

section

variable {M : Machine σ ι ο} {key : ι → Option κ} {look : σ → κ → α} {Fits : σ → ι → Prop}

/-- An input gets the same answer after one that names another cell. -/
theorem Cells.out_next (h : Cells M key look Fits) {s : σ} {i j : ι} (hi : Fits s i)
    (hj : Fits s j) (hne : key i ≠ key j) : M.out (M.next s i) j = M.out s j := by
  obtain ⟨k, hk⟩ := h.named hj
  exact h.out_local hk (h.frame hi fun hik => hne (hik.trans hk.symm))

/-- Inputs that name different cells commute. -/
theorem Cells.commute (h : Cells M key look Fits) {s : σ} {i j : ι} (hi : Fits s i)
    (hj : Fits s j) (hne : key i ≠ key j) : M.next (M.next s i) j = M.next (M.next s j) i := by
  have hij := h.keeps hi hj
  have hji := h.keeps hj hi
  refine h.ext fun k => ?_
  by_cases hik : key i = some k
  · have hjk : key j ≠ some k := fun heq => hne (hik.trans heq.symm)
    calc look (M.next (M.next s i) j) k = look (M.next s i) k := h.frame hij hjk
      _ = look (M.next (M.next s j) i) k := h.next_local hik (h.frame hj hjk).symm
  · have hrest : look (M.next (M.next s j) i) k = look (M.next s j) k := h.frame hji hik
    rw [hrest]
    by_cases hjk : key j = some k
    · exact h.next_local hjk (h.frame hi hik)
    · rw [h.frame hij hjk, h.frame hi hik, h.frame hj hjk]

end

/-! ### Clients -/

section

variable {χ : Type*} [DecidableEq χ]

/-- What in the list is the client's, in its order. -/
def own {β : Type*} (c : χ) (l : List (χ × β)) : List β :=
  l.filterMap fun x => if x.1 = c then some x.2 else none

theorem own_cons_self {β : Type*} (c : χ) (b : β) (l : List (χ × β)) :
    own c ((c, b) :: l) = b :: own c l := by
  simp [own]

theorem own_cons_of_ne {β : Type*} {c d : χ} (h : d ≠ c) (b : β) (l : List (χ × β)) :
    own c ((d, b) :: l) = own c l := by
  simp [own, h]

/-- The inputs of all clients, in the order they are served, with their answers. -/
def Machine.served (M : Machine σ ι ο) (s : σ) : List (χ × ι) → List (χ × ι × ο)
  | [] => []
  | (c, i) :: turns => (c, i, M.out s i) :: M.served (M.next s i) turns

variable {M : Machine σ ι ο} {key : ι → Option κ} {look : σ → κ → α} {Fits : σ → ι → Prop}

/-- The run of all clients and the run of one agree on the cells of that one. -/
theorem Cells.own_served_of_agree (h : Cells M key look Fits) {territory : χ → Set κ}
    (hdisjoint : ∀ {c d k}, k ∈ territory c → k ∈ territory d → c = d) {c : χ} {s t : σ}
    {turns : List (χ × ι)} (hs : ∀ x ∈ turns, Fits s x.2) (ht : ∀ i ∈ own c turns, Fits t i)
    (hwithin : ∀ x ∈ turns, ∀ k, key x.2 = some k → k ∈ territory x.1)
    (hagree : ∀ k ∈ territory c, look s k = look t k) :
    own c (M.served s turns) = M.trace t (own c turns) := by
  induction turns generalizing s t with
  | nil => rfl
  | cons x turns ih =>
      obtain ⟨d, i⟩ := x
      have hi : Fits s i := hs _ List.mem_cons_self
      have hrest : ∀ y ∈ turns, Fits (M.next s i) y.2 := fun y hy =>
        h.keeps hi (hs y (List.mem_cons_of_mem _ hy))
      have hwithin' : ∀ y ∈ turns, ∀ k, key y.2 = some k → k ∈ territory y.1 := fun y hy =>
        hwithin y (List.mem_cons_of_mem _ hy)
      obtain ⟨k, hk⟩ := h.named hi
      have hmine : k ∈ territory d := hwithin _ List.mem_cons_self k hk
      by_cases hd : d = c
      · subst hd
        rw [own_cons_self] at ht ⊢
        have hi' : Fits t i := ht i List.mem_cons_self
        have hout := h.out_local hk (hagree k hmine)
        have hagree' : ∀ l ∈ territory d, look (M.next s i) l = look (M.next t i) l := by
          intro l hl
          by_cases hkl : key i = some l
          · exact h.next_local hkl (hagree l hl)
          · rw [h.frame hi hkl, h.frame hi' hkl, hagree l hl]
        rw [Machine.served, own_cons_self, Machine.trace, hout]
        refine congrArg _ (ih hrest (fun j hj => ?_) hwithin' hagree')
        exact h.keeps hi' (ht j (List.mem_cons_of_mem _ hj))
      · rw [own_cons_of_ne hd] at ht ⊢
        rw [Machine.served, own_cons_of_ne hd]
        refine ih hrest ht hwithin' fun l hl => ?_
        have hkl : key i ≠ some l := fun heq => by
          obtain rfl := Option.some.inj (hk.symm.trans heq)
          exact hd (hdisjoint hmine hl)
        rw [h.frame hi hkl, hagree l hl]

/-- Each client gets the answers it would get alone. -/
theorem Cells.own_served (h : Cells M key look Fits) {territory : χ → Set κ}
    (hdisjoint : ∀ {c d k}, k ∈ territory c → k ∈ territory d → c = d) {s : σ}
    {turns : List (χ × ι)} (hs : ∀ x ∈ turns, Fits s x.2)
    (hwithin : ∀ x ∈ turns, ∀ k, key x.2 = some k → k ∈ territory x.1) (c : χ) :
    own c (M.served s turns) = M.trace s (own c turns) := by
  refine h.own_served_of_agree hdisjoint hs (fun i hi => ?_) hwithin fun _ _ => rfl
  obtain ⟨x, hx, hmine⟩ := List.mem_filterMap.1 hi
  split at hmine
  · exact Option.some.inj hmine ▸ hs x hx
  · cases hmine

end

end StepMachine
