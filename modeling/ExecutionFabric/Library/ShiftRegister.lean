import Mathlib.Logic.Function.Iterate
import Mathlib.Tactic.TypeStar

/-!
Shift registers with feedback.

A register of `w` bits moves down one bit at a time; when the bit that drops
out is set, a polynomial is added. The step is linear, and it can be undone
when the top bit of the polynomial is set.

A register absorbs symbols of `m` bits: each is added to its low bits and
shifted through. As long as all symbols together fit the register, absorbing
them one by one is the same as adding the word they spell and shifting that
through (`absorbAll_eq`), so nothing of them is lost. Hence two inputs of equal
length that differ within one such window leave different registers, whatever
comes before and after it (`absorbAll_burst`). Nor does it matter how wide the
symbols are: their bits may as well be absorbed one at a time
(`absorbAll_eq_bits`).
-/

namespace ShiftRegister

variable {w m : ℕ} (P : BitVec w)

/-- One step of the register with polynomial `P`. -/
def shift (c : BitVec w) : BitVec w := if c.getLsbD 0 then P ^^^ (c >>> 1) else c >>> 1

theorem shift_xor (a b : BitVec w) : shift P (a ^^^ b) = shift P a ^^^ shift P b := by
  have hcancel : ∀ x y : BitVec w, x ^^^ y = P ^^^ x ^^^ (P ^^^ y) := fun x y => by
    rw [BitVec.xor_comm P x, BitVec.xor_assoc, ← BitVec.xor_assoc P P y, BitVec.xor_self,
      BitVec.zero_xor]
  simp only [shift, BitVec.getLsbD_xor, BitVec.ushiftRight_xor_distrib]
  cases a.getLsbD 0 <;> cases b.getLsbD 0
  · rfl
  · simp only [Bool.false_xor, Bool.false_eq_true, if_true, if_false]
    rw [← BitVec.xor_assoc, BitVec.xor_comm P, BitVec.xor_assoc]
  · simp only [Bool.xor_false, Bool.false_eq_true, if_true, if_false]
    rw [BitVec.xor_assoc]
  · simp only [Bool.xor_self, Bool.false_eq_true, if_true, if_false]
    exact hcancel _ _

/-- The step can be undone. -/
theorem shift_injective (hP : P.getLsbD (w - 1) = true) : Function.Injective (shift P) := by
  have hkernel : ∀ x, shift P x = 0 → x = 0 := by
    intro x hx
    cases hlow : x.getLsbD 0 with
    | true =>
        -- the top bit is that of the polynomial
        rw [shift, if_pos hlow] at hx
        have htop := congrArg (·.getLsbD (w - 1)) hx
        have hover : x.getLsbD (1 + (w - 1)) = false := BitVec.getLsbD_of_ge x _ (by omega)
        simp [hP, hover] at htop
    | false =>
        rw [shift, if_neg (by simp [hlow])] at hx
        refine BitVec.eq_of_getLsbD_eq fun i _ => ?_
        cases i with
        | zero => simpa using hlow
        | succ i =>
            have hbit := congrArg (·.getLsbD i) hx
            simpa [Nat.add_comm] using hbit
  intro a b hab
  have hzero := hkernel (a ^^^ b) (by rw [shift_xor, hab, BitVec.xor_self]; rfl)
  exact BitVec.xor_eq_zero_iff.1 hzero

theorem shifts_xor (n : ℕ) (a b : BitVec w) :
    (shift P)^[n] (a ^^^ b) = (shift P)^[n] a ^^^ (shift P)^[n] b := by
  induction n generalizing a b with
  | zero => rfl
  | succ n ih => rw [Function.iterate_succ_apply, shift_xor, ih]; rfl

/-- What was moved up without loss moves down again. -/
theorem shifts_shiftLeft (n : ℕ) {y : BitVec w} (hy : ∀ i, w - n ≤ i → y.getLsbD i = false) :
    (shift P)^[n] (y <<< n) = y := by
  induction n with
  | zero => simp
  | succ n ih =>
      have hone : shift P (y <<< n <<< 1) = y <<< n := by
        rw [shift, if_neg (by simp)]
        refine BitVec.eq_of_getLsbD_eq fun i hi => ?_
        simp only [BitVec.getLsbD_ushiftRight, BitVec.getLsbD_shiftLeft]
        by_cases hlast : 1 + i < w
        · simp [hi, hlast]
        · -- the bit that moved out was clear
          have hclear := hy (i - n) (by omega)
          simp [hlast, hclear]
      rw [BitVec.shiftLeft_add, Function.iterate_succ_apply, hone]
      exact ih fun i hi => hy i (by omega)

/-- Shifting a register through, its low part by itself. -/
theorem shifts_split {low x : BitVec w} (h : x = low ^^^ (x >>> m) <<< m) :
    (shift P)^[m] x = (shift P)^[m] low ^^^ (x >>> m) := by
  have hhigh : ∀ i, w - m ≤ i → (x >>> m).getLsbD i = false := fun i hi => by
    rw [BitVec.getLsbD_ushiftRight]
    exact BitVec.getLsbD_of_ge x _ (by omega)
  calc (shift P)^[m] x = (shift P)^[m] (low ^^^ (x >>> m) <<< m) := congrArg _ h
    _ = _ := by rw [shifts_xor, shifts_shiftLeft P m hhigh]

/-! ### Absorbing symbols -/

/-- Add a symbol to the low bits and shift it through. -/
def absorb (c : BitVec w) (b : BitVec m) : BitVec w := (shift P)^[m] (c ^^^ b.setWidth w)

def absorbAll (c : BitVec w) (bs : List (BitVec m)) : BitVec w := bs.foldl (absorb P) c

/-- The word that the symbols spell, lowest first. -/
def word (w : ℕ) : List (BitVec m) → BitVec w
  | [] => 0
  | b :: bs => b.setWidth w ^^^ word w bs <<< m

theorem word_high {bs : List (BitVec m)} {i : ℕ} (hi : m * bs.length ≤ i) :
    (word w bs).getLsbD i = false := by
  induction bs generalizing i with
  | nil => simp [word]
  | cons b bs ih =>
      rw [List.length_cons, Nat.mul_succ] at hi
      have hrest := @ih (i - m) (by omega)
      have hhead : b.getLsbD i = false := BitVec.getLsbD_of_ge b i (by omega)
      simp [word, BitVec.getLsbD_setWidth, BitVec.getLsbD_shiftLeft, hrest, hhead]

/-- A word that fits is spelled in one way. -/
theorem word_injective {bs cs : List (BitVec m)} (hlength : bs.length = cs.length)
    (hfits : m * bs.length ≤ w) (h : word w bs = word w cs) : bs = cs := by
  induction bs generalizing cs with
  | nil => exact (List.length_eq_zero_iff.1 hlength.symm).symm
  | cons b bs ih =>
      cases cs with
      | nil => cases hlength
      | cons c cs =>
          rw [List.length_cons, Nat.mul_succ] at hfits
          have hlength' := Nat.succ.inj hlength
          have hbits : ∀ i, (word w (b :: bs)).getLsbD i = (word w (c :: cs)).getLsbD i :=
            fun i => congrArg (·.getLsbD i) h
          simp only [word, BitVec.getLsbD_xor, BitVec.getLsbD_setWidth,
            BitVec.getLsbD_shiftLeft] at hbits
          have hhead : b = c := BitVec.eq_of_getLsbD_eq fun i hi => by
            simpa [hi, show i < w by omega] using hbits i
          subst hhead
          refine congrArg _ (ih hlength' (by omega) (BitVec.eq_of_getLsbD_eq fun i hi => ?_))
          by_cases hlow : i + m < w
          · have hover : ¬i + m < m := by omega
            simpa [hlow, hover] using hbits (i + m)
          · rw [word_high (by omega), word_high (by rw [← hlength']; omega)]

theorem absorbAll_eq {bs : List (BitVec m)} (c : BitVec w) (hfits : m * bs.length ≤ w) :
    absorbAll P c bs = (shift P)^[m * bs.length] (c ^^^ word w bs) := by
  induction bs generalizing c with
  | nil => simp [absorbAll, word]
  | cons b bs ih =>
      rw [List.length_cons, Nat.mul_succ] at hfits
      have hrest : (shift P)^[m] (word w bs <<< m) = word w bs :=
        shifts_shiftLeft P m fun i hi => word_high (by omega)
      calc absorbAll P c (b :: bs) = absorbAll P (absorb P c b) bs := rfl
        _ = (shift P)^[m * bs.length] (absorb P c b ^^^ word w bs) := ih _ (by omega)
        _ = (shift P)^[m * bs.length] ((shift P)^[m]
              (c ^^^ b.setWidth w ^^^ word w bs <<< m)) := by
            rw [shifts_xor P m _ (word w bs <<< m), hrest]
            rfl
        _ = _ := by
            rw [← Function.iterate_add_apply, BitVec.xor_assoc]
            rfl

/-! ### Bit by bit -/

/-- The bits of a symbol, lowest first, as symbols of one bit. -/
def bits (b : BitVec m) : List (BitVec 1) := (List.range m).map fun i => BitVec.ofBool (b.getLsbD i)

@[simp] theorem length_bits (b : BitVec m) : (bits b).length = m := by simp [bits]

theorem getLsbD_word (bs : List (BitVec 1)) {i : ℕ} (hi : i < w) :
    (word w bs).getLsbD i = (bs.getD i 0).getLsbD 0 := by
  induction bs generalizing i with
  | nil => simp [word]
  | cons b bs ih =>
      cases i with
      | zero => simp [word, hi]
      | succ i =>
          have hrest := ih (Nat.lt_of_succ_lt hi)
          simpa [word, hi, Nat.lt_of_succ_lt hi] using hrest

theorem word_bits (b : BitVec m) : word w (bits b) = b.setWidth w := by
  refine BitVec.eq_of_getLsbD_eq fun i hi => ?_
  rw [getLsbD_word _ hi, BitVec.getLsbD_setWidth, bits, List.getD_eq_getElem?_getD,
    List.getElem?_map]
  by_cases hin : i < m
  · simp [hin, hi]
  · have hout := Nat.not_lt.1 hin
    simp [hout]

/-- To absorb a symbol is to absorb its bits. -/
theorem absorb_eq_bits (hm : m ≤ w) (c : BitVec w) (b : BitVec m) :
    absorb P c b = absorbAll P c (bits b) := by
  have hfits : 1 * (bits b).length ≤ w := by rwa [length_bits, Nat.one_mul]
  rw [absorbAll_eq P c hfits, word_bits, length_bits, Nat.one_mul, absorb]

theorem absorbAll_eq_bits (hm : m ≤ w) (c : BitVec w) (bs : List (BitVec m)) :
    absorbAll P c bs = absorbAll P c (bs.flatMap bits) := by
  induction bs generalizing c with
  | nil => rfl
  | cons b bs ih =>
      calc absorbAll P c (b :: bs) = absorbAll P (absorb P c b) bs := rfl
        _ = absorbAll P (absorbAll P c (bits b)) (bs.flatMap bits) := by
            rw [ih, absorb_eq_bits P hm]
        _ = _ := List.foldl_append.symm

variable {P}

theorem absorbAll_append (c : BitVec w) (bs cs : List (BitVec m)) :
    absorbAll P c (bs ++ cs) = absorbAll P (absorbAll P c bs) cs := List.foldl_append

/-- Absorbing given symbols can be undone. -/
theorem absorbAll_injective (hP : P.getLsbD (w - 1) = true) (bs : List (BitVec m)) :
    Function.Injective fun c => absorbAll P c bs := by
  induction bs with
  | nil => exact fun _ _ h => h
  | cons b bs ih =>
      intro c d h
      have hstep := (shift_injective P hP).iterate m (ih h)
      exact BitVec.xor_left_inj _ |>.1 hstep

/-- Inputs that differ within a window that fits the register leave different
registers. -/
theorem absorbAll_burst (hP : P.getLsbD (w - 1) = true) (c : BitVec w)
    {before us vs after : List (BitVec m)} (hlength : us.length = vs.length)
    (hfits : m * us.length ≤ w) (hne : us ≠ vs) :
    absorbAll P c (before ++ us ++ after) ≠ absorbAll P c (before ++ vs ++ after) := by
  intro h
  simp only [absorbAll_append] at h
  have hwindow := absorbAll_injective hP after h
  generalize absorbAll P c before = d at hwindow
  have hfits' : m * vs.length ≤ w := hlength ▸ hfits
  rw [absorbAll_eq P d hfits, absorbAll_eq P d hfits', hlength] at hwindow
  have hwords := (shift_injective P hP).iterate _ hwindow
  exact hne (word_injective hlength hfits (BitVec.xor_right_inj _ |>.1 hwords))

/-! ### Windows -/

/-- The lists are equally long, and agree but for `n` places from `k` on. -/
structure DiffersWithin {α : Type*} (k n : ℕ) (xs ys : List α) : Prop where
  length : xs.length = ys.length
  outside : ∀ i, i < k ∨ k + n ≤ i → xs[i]? = ys[i]?

namespace DiffersWithin

variable {α β : Type*} {k n : ℕ} {xs ys : List α}

theorem map (f : α → β) (h : DiffersWithin k n xs ys) :
    DiffersWithin k n (xs.map f) (ys.map f) where
  length := by simp [h.length]
  outside i hi := by simp [h.outside i hi]

theorem of_append {before us vs after : List α} (hlength : us.length = vs.length)
    (hn : us.length ≤ n) :
    DiffersWithin before.length n (before ++ us ++ after) (before ++ vs ++ after) where
  length := by simp [hlength]
  outside i hi := by
    rcases hi with hi | hi
    · simp [List.getElem?_append_left hi]
    · have hfar : (before ++ us).length = (before ++ vs).length := by simp [hlength]
      have hout : (before ++ us).length ≤ i := by
        rw [List.length_append]
        omega
      rw [List.getElem?_append_right hout, List.getElem?_append_right (hfar ▸ hout), hfar]

/-- A list is what is before, in and after a window. -/
theorem split (xs : List α) (k n : ℕ) :
    xs = xs.take k ++ (xs.drop k).take n ++ xs.drop (k + n) := by
  rw [List.append_assoc, ← List.drop_drop, List.take_append_drop, List.take_append_drop]

/-- A window is overwritten. -/
theorem overwrite {us : List α} (hus : us.length ≤ n) (hk : k + us.length ≤ xs.length) :
    DiffersWithin k n xs (xs.take k ++ us ++ xs.drop (k + us.length)) := by
  have hwindow : ((xs.drop k).take us.length).length = us.length := by
    rw [List.length_take, List.length_drop]
    omega
  have hbefore : (xs.take k).length = k := by
    rw [List.length_take]
    omega
  have hfits : ((xs.drop k).take us.length).length ≤ n := by rwa [hwindow]
  have hdiffers := @of_append α n (xs.take k) _ us (xs.drop (k + us.length)) hwindow hfits
  rwa [hbefore, ← split xs k us.length] at hdiffers

theorem take (j : ℕ) (h : DiffersWithin k n xs ys) : DiffersWithin k n (xs.take j) (ys.take j) where
  length := by simp [h.length]
  outside i hi := by
    rw [List.getElem?_take, List.getElem?_take, h.outside i hi]

theorem take_eq {j : ℕ} (h : DiffersWithin k n xs ys) (hj : j ≤ k) : xs.take j = ys.take j := by
  refine List.ext_getElem? fun i => ?_
  by_cases hi : i < j
  · simp [hi, h.outside i (.inl (Nat.lt_of_lt_of_le hi hj))]
  · have hout := Nat.not_lt.1 hi
    rw [List.getElem?_take_eq_none hout, List.getElem?_take_eq_none hout]

theorem drop_eq {j : ℕ} (h : DiffersWithin k n xs ys) (hj : k + n ≤ j) : xs.drop j = ys.drop j := by
  refine List.ext_getElem? fun i => ?_
  rw [List.getElem?_drop, List.getElem?_drop,
    h.outside _ (.inr (Nat.le_trans hj (Nat.le_add_right j i)))]

theorem drop {j : ℕ} (h : DiffersWithin k n xs ys) (hj : j ≤ k) :
    DiffersWithin (k - j) n (xs.drop j) (ys.drop j) where
  length := by simp [h.length]
  outside i hi := by
    rw [List.getElem?_drop, List.getElem?_drop]
    exact h.outside _ (by omega)

/-- A window may be taken wider. -/
theorem widen {m : ℕ} (h : DiffersWithin k n xs ys) (hnm : n ≤ m) : DiffersWithin k m xs ys where
  length := h.length
  outside i hi := h.outside i (by omega)

end DiffersWithin

theorem absorbAll_ne {xs ys : List (BitVec m)} {k n : ℕ} (hP : P.getLsbD (w - 1) = true)
    (c : BitVec w) (h : DiffersWithin k n xs ys) (hfits : m * n ≤ w) (hne : xs ≠ ys) :
    absorbAll P c xs ≠ absorbAll P c ys := by
  have hx := DiffersWithin.split xs k n
  have hy := DiffersWithin.split ys k n
  rw [← h.take_eq (Nat.le_refl k), ← h.drop_eq (Nat.le_refl (k + n))] at hy
  rw [hx, hy]
  refine absorbAll_burst hP c ?_ ?_ fun heq => hne ?_
  · simp [h.length]
  · exact Nat.le_trans (Nat.mul_le_mul_left m (List.length_take_le n _)) hfits
  · rw [hx, hy, heq]

end ShiftRegister
