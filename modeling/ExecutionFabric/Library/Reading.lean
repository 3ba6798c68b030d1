import Mathlib.Data.List.Basic
import Mathlib.Data.Nat.Bitwise
import Mathlib.Tactic.TypeStar

/-!
Reading back what was written.

A reader takes a state apart into a value and the state behind it, or fails.
What a state still has to offer is a list (`Feed.rest`), and a reader consumes
a prefix of it. `Reads p bs a` says that `p` consumes exactly `bs` and gives
`a`, whatever follows; it composes along `++`, so that a decoder is shown to
invert an encoder field by field and never by looking at positions. In the
other direction, `bind_eq_ok` and `passes_eq_ok` take a reader that succeeded
apart into what it did, and `Took` names what it consumed. `Delimits` adds to
`Reads` that the reader fails when it is given less. A list is written in
`Pieces`, one for each element.

Numbers are written byte by byte, lowest first.
-/

namespace Reading

/-! ### Little-endian numbers -/

/-- The lowest `n` bytes of `v`, lowest first. -/
def leBytes : ℕ → ℕ → List UInt8
  | 0, _ => []
  | n + 1, v => v.toUInt8 :: leBytes n (v >>> 8)

/-- The number that the bytes spell, lowest first. -/
def leValue : List UInt8 → ℕ
  | [] => 0
  | b :: bs => b.toNat ||| leValue bs <<< 8

@[simp] theorem length_leBytes (n v : ℕ) : (leBytes n v).length = n := by
  induction n generalizing v with
  | zero => rfl
  | succ n ih => simp [leBytes, ih]

theorem getElem_leBytes {n v k : ℕ} (hk : k < (leBytes n v).length) :
    (leBytes n v)[k] = (v >>> (8 * k)).toUInt8 := by
  induction n generalizing v k with
  | zero => exact absurd hk (Nat.not_lt_zero k)
  | succ n ih =>
      cases k with
      | zero => rfl
      | succ k =>
          have hrest : k < (leBytes n (v >>> 8)).length := Nat.succ_lt_succ_iff.1 hk
          calc (leBytes (n + 1) v)[k + 1] = (leBytes n (v >>> 8))[k] := rfl
            _ = (v >>> 8 >>> (8 * k)).toUInt8 := ih hrest
            _ = _ := by rw [← Nat.shiftRight_add, Nat.mul_succ, Nat.add_comm 8]

theorem leValue_cons (b : UInt8) (bs : List UInt8) :
    leValue (b :: bs) = leValue bs * 2 ^ 8 + b.toNat := by
  have hlow : b.toNat < 2 ^ 8 := b.toNat_lt
  rw [leValue, Nat.or_comm, ← Nat.shiftLeft_add_eq_or_of_lt hlow, Nat.shiftLeft_eq]

theorem leValue_leBytes {n v : ℕ} (h : v < 2 ^ (8 * n)) : leValue (leBytes n v) = v := by
  induction n generalizing v with
  | zero =>
      obtain rfl : v = 0 := by simpa using h
      rfl
  | succ n ih =>
      have hshift : v >>> 8 = v / 2 ^ 8 := Nat.shiftRight_eq_div_pow v 8
      have hrest : v >>> 8 < 2 ^ (8 * n) := by
        rw [hshift, Nat.div_lt_iff_lt_mul (by decide), ← Nat.pow_add]
        exact h.trans_eq (by rw [Nat.mul_succ])
      rw [leBytes, leValue_cons, ih hrest, hshift, UInt8.toNat_ofNat']
      omega

theorem leValue_lt (bs : List UInt8) : leValue bs < 2 ^ (8 * bs.length) := by
  induction bs with
  | nil => decide
  | cons b bs ih =>
      have hlow : b.toNat < 2 ^ 8 := b.toNat_lt
      rw [leValue_cons, List.length_cons, Nat.mul_add_one, Nat.pow_add 2 (8 * bs.length) 8]
      calc leValue bs * 2 ^ 8 + b.toNat < leValue bs * 2 ^ 8 + 2 ^ 8 := Nat.add_lt_add_left hlow _
        _ = (leValue bs + 1) * 2 ^ 8 := (Nat.succ_mul _ _).symm
        _ ≤ 2 ^ (8 * bs.length) * 2 ^ 8 := Nat.mul_le_mul_right _ ih

theorem leBytes_leValue (bs : List UInt8) : leBytes bs.length (leValue bs) = bs := by
  induction bs with
  | nil => rfl
  | cons b bs ih =>
      have hlow : b.toNat < 2 ^ 8 := b.toNat_lt
      have hhead : (leValue (b :: bs)).toUInt8 = b := by
        rw [← UInt8.toNat_inj, UInt8.toNat_ofNat', leValue_cons]
        omega
      have hrest : leValue (b :: bs) >>> 8 = leValue bs := by
        rw [Nat.shiftRight_eq_div_pow, leValue_cons]
        omega
      rw [List.length_cons, leBytes, hhead, hrest, ih]

/-! ### Feeds -/

/-- A state that offers a list to its readers, as long as it is live. -/
class Feed (σ : Type*) (β : outParam (Type*)) where
  live : σ → Prop
  rest : σ → List β
  skip : ℕ → σ → σ
  live_skip : ∀ {s} n, live s → live (skip n s)
  rest_skip : ∀ s n, rest (skip n s) = (rest s).drop n
  skip_zero : ∀ s, skip 0 s = s
  skip_skip : ∀ s m n, skip n (skip m s) = skip (m + n) s

section

open Feed

variable {σ β ε : Type} [Feed σ β]

/-- The reader consumes exactly `bs` and gives `a`. -/
def Reads {α : Type} (p : StateT σ (Except ε) α) (bs : List β) (a : α) : Prop :=
  ∀ s tail, live s → rest s = bs ++ tail → p s = .ok (a, skip bs.length s)

variable {α γ : Type} {p : StateT σ (Except ε) α} {bs cs : List β} {a : α} {b : γ}

theorem Reads.pure (a : α) : Reads (Pure.pure a : StateT σ (Except ε) α) [] a := by
  intro s tail _ _
  rw [List.length_nil, skip_zero]
  rfl

theorem Reads.bind {f : α → StateT σ (Except ε) γ} (hp : Reads p bs a) (hf : Reads (f a) cs b) :
    Reads (p >>= f) (bs ++ cs) b := by
  intro s tail hlive hrest
  have hfirst := hp s (cs ++ tail) hlive (by rw [hrest, List.append_assoc])
  have hnext : rest (skip bs.length s) = cs ++ tail := by
    rw [rest_skip, hrest, List.append_assoc, List.drop_left]
  have hsecond := hf _ tail (live_skip _ hlive) hnext
  rw [skip_skip, ← List.length_append] at hsecond
  calc (p >>= f) s = (p s >>= fun x => f x.1 x.2) := rfl
    _ = f a (skip bs.length s) := by rw [hfirst]; rfl
    _ = _ := hsecond

theorem Reads.map {f : α → γ} (hp : Reads p bs a) : Reads (f <$> p) bs (f a) := by
  intro s tail hlive hrest
  have hfirst := hp s tail hlive hrest
  calc (f <$> p) s = (p s >>= fun x => Except.ok (f x.1, x.2)) := rfl
    _ = _ := by rw [hfirst]; rfl

/-- Only the last value of a sequence is worked on. -/
theorem Reads.last {f : α → γ} (hp : Reads p bs a) :
    Reads (p >>= fun x => Pure.pure (f x)) bs (f a) := by
  rw [← List.append_nil bs]
  exact hp.bind (.pure (f a))

/-- What follows a look at the state may depend on it. -/
theorem Reads.observe {f : σ → StateT σ (Except ε) γ}
    (h : ∀ s tail, live s → rest s = bs ++ tail → Reads (f s) bs b) :
    Reads (get >>= f) bs b :=
  fun s tail hlive hrest => h s tail hlive hrest s tail hlive hrest

/-- Give up with `e` if the condition holds. -/
def failIf (bad : Prop) [Decidable bad] (e : ε) : StateT σ (Except ε) Unit :=
  if bad then throw e else Pure.pure ()

theorem Reads.passes {bad : Prop} [Decidable bad] {e : ε} {f : StateT σ (Except ε) γ}
    (hgood : ¬bad) (hf : Reads f bs b) : Reads (failIf bad e >>= fun _ => f) bs b := by
  rw [failIf, if_neg hgood]
  exact (Reads.pure ()).bind hf

/-- Apply a reader `n` times. -/
def readMany (p : StateT σ (Except ε) α) : ℕ → StateT σ (Except ε) (List α)
  | 0 => Pure.pure []
  | n + 1 => do
    let a ← p
    let rest ← readMany p n
    Pure.pure (a :: rest)

/-- A list made of pieces, one after the other, that `W` relates to elements. -/
inductive Pieces (W : List β → α → Prop) : List β → List α → Prop
  | nil : Pieces W [] []
  | cons {bs cs : List β} {a : α} {as : List α} (head : W bs a) (tail : Pieces W cs as) :
      Pieces W (bs ++ cs) (a :: as)

theorem pieces_flatMap {W : List β → α → Prop} {write : α → List β} {as : List α}
    (h : ∀ a ∈ as, W (write a) a) : Pieces W (as.flatMap write) as := by
  induction as with
  | nil => exact .nil
  | cons a as ih =>
      rw [List.flatMap_cons]
      exact .cons (h a List.mem_cons_self) (ih fun x hx => h x (List.mem_cons_of_mem _ hx))

/-- If no piece is a proper prefix of another, no row of as many pieces is. -/
theorem Pieces.prefix_free {W : List β → α → Prop} {V : List β → γ → Prop}
    (hfree : ∀ {xs ys ps qs : List β} {a : α} {c : γ}, W xs a → V ys c → xs ++ ps = ys ++ qs →
      xs = ys)
    {xs ys ps qs : List β} {as : List α} {cs : List γ} (hxs : Pieces W xs as)
    (hys : Pieces V ys cs) (hcount : as.length = cs.length) (heq : xs ++ ps = ys ++ qs) :
    xs = ys := by
  induction hxs generalizing ys cs with
  | nil =>
      cases hys with
      | nil => rfl
      | cons => cases hcount
  | cons head tail ih =>
      cases hys with
      | nil => cases hcount
      | cons head' tail' =>
          simp only [List.append_assoc] at heq
          obtain rfl := hfree head head' heq
          rw [ih tail' (Nat.succ.inj hcount) (List.append_cancel_left heq)]

/-- And if a piece is of one element, a row of as many pieces is of the same ones. -/
theorem Pieces.unique {W : List β → α → Prop}
    (hfree : ∀ {xs ys ps qs : List β} {a c : α}, W xs a → W ys c → xs ++ ps = ys ++ qs → xs = ys)
    (hsame : ∀ {xs : List β} {a c : α}, W xs a → W xs c → a = c)
    (ps qs : List β) {xs ys : List β} {as cs : List α} (hxs : Pieces W xs as)
    (hys : Pieces W ys cs) (hcount : as.length = cs.length) (heq : xs ++ ps = ys ++ qs) : as = cs := by
  induction hxs generalizing ys cs with
  | nil =>
      cases hys with
      | nil => rfl
      | cons => cases hcount
  | cons head tail ih =>
      cases hys with
      | nil => cases hcount
      | cons head' tail' =>
          simp only [List.append_assoc] at heq
          obtain rfl := hfree head head' heq
          rw [hsame head head', ih tail' (Nat.succ.inj hcount) (List.append_cancel_left heq)]

theorem Reads.pieces {W : List β → α → Prop} {as : List α}
    (h : ∀ bs, ∀ a ∈ as, W bs a → Reads p bs a) (hbs : Pieces W bs as) :
    Reads (readMany p as.length) bs as := by
  induction hbs with
  | nil => exact .pure []
  | cons head tail ih =>
      have hrest := ih fun bs x hx => h bs x (List.mem_cons_of_mem _ hx)
      exact (h _ _ List.mem_cons_self head).bind hrest.last

end

/-! ### What was read -/

section

variable {σ ε α γ : Type} {p : StateT σ (Except ε) α} {s t : σ}

/-- A sequence succeeds when both of its parts do. -/
theorem bind_eq_ok {f : α → StateT σ (Except ε) γ} {b : γ} :
    (p >>= f) s = .ok (b, t) ↔ ∃ a u, p s = .ok (a, u) ∧ f a u = .ok (b, t) := by
  show (p s >>= fun x => f x.1 x.2) = .ok (b, t) ↔ _
  cases hp : p s with
  | error e => simp [bind, Except.bind]
  | ok x => simp [bind, Except.bind, Prod.ext_iff, and_assoc]

theorem eq_ok_of_toOption {x : Except ε α} {a : α} (h : x.toOption = some a) : x = .ok a := by
  cases x with
  | error e => cases h
  | ok b => exact congrArg _ (Option.some.inj h)

theorem failIf_eq_ok {bad : Prop} [Decidable bad] {e : ε} :
    (failIf bad e : StateT σ (Except ε) Unit) s = .ok ((), t) ↔ ¬bad ∧ s = t := by
  unfold failIf
  split
  · rename_i hbad
    exact iff_of_false nofun fun h => h.1 hbad
  · rename_i hgood
    show Except.ok ((), s) = .ok ((), t) ↔ _
    simp [hgood]

/-- What comes after a check succeeds, and the check did not apply. -/
theorem passes_eq_ok {bad : Prop} [Decidable bad] {e : ε} {f : StateT σ (Except ε) γ} {b : γ} :
    (failIf bad e >>= fun _ => f) s = .ok (b, t) ↔ ¬bad ∧ f s = .ok (b, t) := by
  rw [bind_eq_ok]
  constructor
  · rintro ⟨⟨⟩, u, hcheck, hrest⟩
    obtain ⟨hgood, rfl⟩ := failIf_eq_ok.1 hcheck
    exact ⟨hgood, hrest⟩
  · rintro ⟨hgood, hrest⟩
    exact ⟨(), s, failIf_eq_ok.2 ⟨hgood, rfl⟩, hrest⟩

/-- A look at the state leaves it where it is. -/
theorem observe_eq_ok {f : σ → StateT σ (Except ε) γ} {b : γ} :
    (get >>= f) s = .ok (b, t) ↔ f s s = .ok (b, t) := Iff.rfl

end

section

open Feed

variable {σ β ε α γ : Type} [Feed σ β] {p : StateT σ (Except ε) α} {bs : List β} {s t : σ}

/-- Between the two states, `bs` was consumed. -/
def Took (bs : List β) (s t : σ) : Prop := rest s = bs ++ rest t

theorem Took.refl (s : σ) : Took [] s s := rfl

theorem Took.trans {cs : List β} {u : σ} (hst : Took bs s t) (htu : Took cs t u) :
    Took (bs ++ cs) s u := by
  rw [Took, hst, htu, List.append_assoc]

theorem Took.length_le (h : Took bs s t) : bs.length ≤ (rest s).length := by
  rw [h, List.length_append]
  exact Nat.le_add_right _ _

theorem map_eq_ok {f : α → γ} {b : γ} : (f <$> p) s = .ok (b, t) ↔ ∃ a, p s = .ok (a, t) ∧ f a = b := by
  show (p s >>= fun x => Except.ok (f x.1, x.2)) = .ok (b, t) ↔ _
  cases hp : p s with
  | error e => simp [bind, Except.bind]
  | ok x => simp [bind, Except.bind, Prod.ext_iff, and_comm]

/-- A reader that was applied `n` times took `n` pieces. -/
theorem took_many {W : List β → α → Prop} {n : ℕ} {as : List α}
    (h : ∀ {s t a}, p s = .ok (a, t) → ∃ bs, W bs a ∧ Took bs s t)
    (hread : readMany p n s = .ok (as, t)) :
    as.length = n ∧ ∃ bs, Pieces W bs as ∧ Took bs s t := by
  induction n generalizing s as with
  | zero =>
      obtain ⟨rfl, rfl⟩ := Prod.mk.inj (Except.ok.inj hread)
      exact ⟨rfl, [], .nil, .refl s⟩
  | succ n ih =>
      obtain ⟨a, u, hhead, hread⟩ := bind_eq_ok.1 hread
      obtain ⟨rest, v, hrest, hread⟩ := bind_eq_ok.1 hread
      obtain ⟨rfl, rfl⟩ := Prod.mk.inj (Except.ok.inj hread)
      obtain ⟨bs, hW, hbs⟩ := h hhead
      obtain ⟨hlength, cs, hpieces, hcs⟩ := ih hrest
      exact ⟨congrArg (· + 1) hlength, _, .cons hW hpieces, hbs.trans hcs⟩

end

/-! ### Readers that fail on less -/

section

open Feed

variable {σ β ε : Type} [Feed σ β] {α γ : Type} {p : StateT σ (Except ε) α} {bs cs : List β}
  {a : α} {b : γ}

/-- The reader reads `bs`, and fails when only a proper part of it is there. -/
structure Delimits (p : StateT σ (Except ε) α) (bs : List β) (a : α) : Prop where
  reads : Reads p bs a
  starves : ∀ s, live s → rest s <+: bs → rest s ≠ bs → ∃ e, p s = .error e

/-- It is enough that the reader takes no fewer than it reads here. -/
theorem Reads.delimits (hread : Reads p bs a)
    (hneeds : ∀ {s t x}, p s = .ok (x, t) → bs.length ≤ (rest s).length) : Delimits p bs a where
  reads := hread
  starves s _ hpart hne := by
    cases hp : p s with
    | error e => exact ⟨e, rfl⟩
    | ok r => exact absurd (hpart.eq_of_length_le (hneeds hp)) hne

theorem Delimits.pure (a : α) : Delimits (Pure.pure a : StateT σ (Except ε) α) [] a :=
  (Reads.pure a).delimits fun _ => Nat.zero_le _

/-- What comes first of `bs ++ cs` ends before `bs` does, or reaches into `cs`. -/
theorem cut_append {xs : List β} (h : xs <+: bs ++ cs) :
    (xs <+: bs ∧ xs ≠ bs) ∨ ∃ ds, xs = bs ++ ds ∧ ds <+: cs := by
  by_cases hcut : xs <+: bs ∧ xs ≠ bs
  · exact .inl hcut
  · obtain ⟨more, hmore⟩ := h
    refine .inr ?_
    obtain ⟨ds, hbs, -⟩ | ⟨ds, hxs, hcs⟩ := List.append_eq_append_iff.1 hmore
    · have hwhole : xs = bs := not_not.1 fun hne => hcut ⟨⟨ds, hbs.symm⟩, hne⟩
      exact ⟨[], by rw [hwhole, List.append_nil], List.nil_prefix⟩
    · exact ⟨ds, hxs, more, hcs.symm⟩

theorem Delimits.bind {f : α → StateT σ (Except ε) γ} (hp : Delimits p bs a)
    (hf : Delimits (f a) cs b) : Delimits (p >>= f) (bs ++ cs) b where
  reads := hp.reads.bind hf.reads
  starves s hlive hpart hne := by
    have hbind : (p >>= f) s = (p s >>= fun x => f x.1 x.2) := rfl
    obtain ⟨hcut, hcutne⟩ | ⟨ds, hs, hds⟩ := cut_append hpart
    · obtain ⟨e, he⟩ := hp.starves s hlive hcut hcutne
      exact ⟨e, by rw [hbind, he]; rfl⟩
    · have hfirst := hp.reads s ds hlive hs
      have hnext : rest (skip bs.length s) = ds := by rw [rest_skip, hs, List.drop_left]
      have hshort : ds ≠ cs := fun heq => hne (by rw [hs, heq])
      rw [← hnext] at hds hshort
      obtain ⟨e, he⟩ := hf.starves _ (live_skip bs.length hlive) hds hshort
      exact ⟨e, by rw [hbind, hfirst]; exact he⟩

/-- Only the last value of a sequence is worked on. -/
theorem Delimits.last {f : α → γ} (hp : Delimits p bs a) :
    Delimits (p >>= fun x => Pure.pure (f x)) bs (f a) := by
  rw [← List.append_nil bs]
  exact hp.bind (.pure (f a))

theorem Delimits.map {f : α → γ} (hp : Delimits p bs a) : Delimits (f <$> p) bs (f a) where
  reads := hp.reads.map
  starves s hlive hpart hne := by
    have hmap : (f <$> p) s = (p s >>= fun x => Except.ok (f x.1, x.2)) := rfl
    obtain ⟨e, he⟩ := hp.starves s hlive hpart hne
    exact ⟨e, by rw [hmap, he]; rfl⟩

theorem Delimits.passes {bad : Prop} [Decidable bad] {e : ε} {f : StateT σ (Except ε) γ}
    (hgood : ¬bad) (hf : Delimits f bs b) : Delimits (failIf bad e >>= fun _ => f) bs b := by
  rw [failIf, if_neg hgood]
  exact (Delimits.pure ()).bind hf

end

end Reading
