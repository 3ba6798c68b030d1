import ExecutionFabric.Identity
import ExecutionFabric.Library.Collections

/-!
Identifiers read back from their texts.

`Uuid::parse` goes over a string once. It skips hyphens, wherever they stand,
and puts every other character, which has to be a hexadecimal digit, into its
half of a byte. The array is written at an index computed from the number of
digits so far; a store past its end is a fault here, and the check against a
33rd digit is what prevents it.

The invariant of the loop is that the array holds what the digits so far spell
if all that are missing are zeros. So it says the same before the first digit,
in the middle of a byte and at the end (`parseLoop_eq`).
-/

namespace ExecutionFabric

/-- An ASCII character. -/
def ascii (c : Char) : UInt8 := c.toNat.toUInt8

namespace Uuid

/-- A store into the array; `none` is a store past its end. -/
def store (b : List.Vector UInt8 16) (i : ℕ) (v : UInt8) : Option (List.Vector UInt8 16) :=
  if h : i < 16 then some (b.set ⟨i, h⟩ v) else none

/-- The value of a digit. -/
def digitValue? (c : UInt8) : Option UInt8 :=
  if ascii '0' ≤ c ∧ c ≤ ascii '9' then some (c - ascii '0')
  else if ascii 'a' ≤ c ∧ c ≤ ascii 'f' then some (c - ascii 'a' + 10)
  else if ascii 'A' ≤ c ∧ c ≤ ascii 'F' then some (c - ascii 'A' + 10)
  else none

/-- The loop of `parse`, after `n` digits. -/
def parseLoop (b : List.Vector UInt8 16) (n : ℕ) : ByteString → Option (Option Uuid)
  | [] => some (if n ≠ 32 then none else some ⟨b⟩)
  | c :: s =>
    if c = ascii '-' then parseLoop b n s
    else
      match digitValue? c with
      | none => some none
      | some v =>
        if 32 ≤ n then some none
        else do
          let half := if n % 2 = 0 then v <<< 4 else b.toList.getD (n / 2) 0 ||| (v &&& 0x0F)
          let b ← store b (n / 2) half
          parseLoop b (n + 1) s

/-- `Uuid::parse`; the outer `none` is a fault. -/
def parse (s : ByteString) : Option (Option Uuid) := parseLoop (List.Vector.replicate 16 0) 0 s

/-! ### Digits -/

/-- The string without its hyphens. -/
def digits (s : ByteString) : ByteString := s.filter (· ≠ ascii '-')

def upperDigit (n : UInt8) : UInt8 :=
  (text "0123456789ABCDEF").getD n.toNat 0

/-- The character is the hexadecimal digit of that value, in either case. -/
def Digit (c v : UInt8) : Prop := v < 16 ∧ (c = hexDigit v ∨ c = upperDigit v)

/-- The bytes that the digits spell, two digits a byte. -/
def spelled (vs : List UInt8) : List.Vector UInt8 16 :=
  List.Vector.ofFn fun i => vs.getD (2 * i) 0 * 16 + vs.getD (2 * i + 1) 0

theorem toUInt8_toNat (b : UInt8) : b.toNat.toUInt8 = b := UInt8.ofNat_toNat

theorem digitValue?_eq_some {c v : UInt8} : digitValue? c = some v ↔ Digit c v := by
  constructor
  · intro h
    have hdigit : ∀ n < 256, ∀ x ∈ digitValue? n.toUInt8,
        x < 16 ∧ (n.toUInt8 = hexDigit x ∨ n.toUInt8 = upperDigit x) := by decide +kernel
    have hc := hdigit c.toNat c.toNat_lt
    rw [toUInt8_toNat] at hc
    exact hc v h
  · rintro ⟨hv, hc⟩
    have hvalue : ∀ n < 16, digitValue? (hexDigit n.toUInt8) = some n.toUInt8 ∧
        digitValue? (upperDigit n.toUInt8) = some n.toUInt8 := by decide +kernel
    have hboth := hvalue v.toNat hv
    rw [toUInt8_toNat] at hboth
    rcases hc with rfl | rfl
    · exact hboth.1
    · exact hboth.2

/-- The two halves of a byte do not overlap. -/
theorem halves (x : UInt8) {v : UInt8} (hv : v < 16) :
    v <<< 4 = v * 16 ∧ x * 16 ||| (v &&& 0x0F) = x * 16 + v := by
  -- only the low half of `x` is left in the product
  have hlow : ∀ n < 256, n.toUInt8 * 16 = (n.toUInt8 &&& 0x0F) * 16 ∧
      (n.toUInt8 &&& 0x0F).toNat < 16 := by decide +kernel
  have hall : ∀ n < 16, ∀ m < 16, m.toUInt8 <<< (4 : UInt8) = m.toUInt8 * 16 ∧
      n.toUInt8 * 16 ||| (m.toUInt8 &&& 0x0F) = n.toUInt8 * 16 + m.toUInt8 := by decide +kernel
  have hx := hlow x.toNat x.toNat_lt
  rw [toUInt8_toNat] at hx
  have hxv := hall _ hx.2 v.toNat hv
  rwa [toUInt8_toNat, toUInt8_toNat, ← hx.1] at hxv

theorem getD_snoc (vs : List UInt8) (v : UInt8) (j : ℕ) :
    (vs ++ [v]).getD j 0 = if j = vs.length then v else vs.getD j 0 := by
  simp only [List.getD_eq_getElem?_getD]
  rcases lt_trichotomy j vs.length with hlt | rfl | hgt
  · rw [List.getElem?_append_left hlt, if_neg hlt.ne]
  · simp
  · have hend : (vs ++ [v]).length ≤ j := by
      rw [List.length_append]
      exact hgt
    rw [List.getElem?_eq_none hend, if_neg hgt.ne', List.getElem?_eq_none hgt.le]

theorem getElem_spelled (vs : List UInt8) {k : ℕ} (hk : k < 16) :
    (spelled vs).toList.getD k 0 = vs.getD (2 * k) 0 * 16 + vs.getD (2 * k + 1) 0 := by
  rw [spelled, List.Vector.toList_ofFn, List.getD_eq_getElem?_getD, List.getElem?_ofFn, dif_pos hk]
  rfl

theorem getD_length (vs : List UInt8) {j : ℕ} (hj : vs.length ≤ j) : vs.getD j 0 = 0 := by
  rw [List.getD_eq_getElem?_getD, List.getElem?_eq_none hj, Option.getD_none]

/-- The next digit is put into its half of a byte, and spells as much there. -/
theorem store_spelled {vs : List UInt8} {v : UInt8} (hroom : vs.length < 32) (hv : v < 16) :
    store (spelled vs) (vs.length / 2)
      (if vs.length % 2 = 0 then v <<< 4
        else (spelled vs).toList.getD (vs.length / 2) 0 ||| (v &&& 0x0F)) =
      some (spelled (vs ++ [v])) := by
  have hin : vs.length / 2 < 16 := by omega
  have hhalf : (if vs.length % 2 = 0 then v <<< 4
      else (spelled vs).toList.getD (vs.length / 2) 0 ||| (v &&& 0x0F)) =
      (vs ++ [v]).getD (2 * (vs.length / 2)) 0 * 16
        + (vs ++ [v]).getD (2 * (vs.length / 2) + 1) 0 := by
    rw [getElem_spelled vs hin, getD_snoc, getD_snoc]
    split
    · -- the high half; there is no digit for the low one yet
      rename_i heven
      rw [if_pos (by omega), if_neg (by omega), getD_length vs (by omega), UInt8.add_zero]
      exact (halves 0 hv).1
    · rename_i hodd
      rw [if_neg (by omega), if_pos (by omega), getD_length vs (j := 2 * _ + 1) (by omega),
        UInt8.add_zero]
      exact (halves _ hv).2
  rw [store, dif_pos hin, hhalf]
  refine congrArg some (List.Vector.ext fun i => ?_)
  rw [List.Vector.get_set_eq_if, spelled, List.Vector.get_ofFn, spelled, List.Vector.get_ofFn]
  split
  · rename_i hi
    rw [← hi]
  · rename_i hi
    have hother : (i : ℕ) ≠ vs.length / 2 := fun h => hi (Fin.ext h.symm)
    rw [getD_snoc, getD_snoc, if_neg (by omega), if_neg (by omega)]

/-! ### The loop -/

theorem digits_cons (c : UInt8) (s : ByteString) :
    digits (c :: s) = if c = ascii '-' then digits s else c :: digits s := by
  by_cases hc : c = ascii '-' <;> simp [digits, hc]

/-- The digits of `s`, put behind those with the values `vs`, are 32, and they
spell `u`. -/
def Completes (vs : List UInt8) (s : ByteString) (u : Uuid) : Prop :=
  ∃ ws, List.Forall₂ Digit (digits s) ws ∧ (vs ++ ws).length = 32 ∧ u.bytes = spelled (vs ++ ws)

theorem completes_nil {vs : List UInt8} {u : Uuid} :
    Completes vs [] u ↔ vs.length = 32 ∧ u.bytes = spelled vs := by
  constructor
  · rintro ⟨ws, hws, hlength, hu⟩
    obtain rfl := List.forall₂_nil_left_iff.1 hws
    rw [List.append_nil] at hlength hu
    exact ⟨hlength, hu⟩
  · rintro ⟨hlength, hu⟩
    refine ⟨[], .nil, ?_, ?_⟩ <;> rwa [List.append_nil]

theorem completes_cons {vs : List UInt8} {c v : UInt8} {s : ByteString} {u : Uuid}
    (hc : c ≠ ascii '-') (hv : digitValue? c = some v) :
    Completes vs (c :: s) u ↔ Completes (vs ++ [v]) s u := by
  unfold Completes
  rw [digits_cons, if_neg hc]
  constructor
  · rintro ⟨ws, hws, hlength, hu⟩
    obtain ⟨w, ws, hw, hrest, rfl⟩ := List.forall₂_cons_left_iff.1 hws
    obtain rfl : w = v := Option.some.inj ((digitValue?_eq_some.2 hw).symm.trans hv)
    exact ⟨ws, hrest, by rwa [← List.append_cons], by rwa [← List.append_cons]⟩
  · rintro ⟨ws, hws, hlength, hu⟩
    rw [← List.append_cons] at hlength hu
    exact ⟨v :: ws, .cons (digitValue?_eq_some.1 hv) hws, hlength, hu⟩

/-- From the array that the digits so far spell, the loop runs without a fault,
and gives what the rest completes them to. -/
theorem parseLoop_eq {vs : List UInt8} (hroom : vs.length ≤ 32) (s : ByteString) :
    ∃ result, parseLoop (spelled vs) vs.length s = some result ∧
      ∀ u, result = some u ↔ Completes vs s u := by
  induction s generalizing vs with
  | nil =>
      refine ⟨_, rfl, fun u => ?_⟩
      rw [completes_nil]
      by_cases hfull : vs.length = 32
      · rw [if_neg (not_not.2 hfull), and_iff_right hfull, Option.some.injEq, eq_comm]
        exact ⟨congrArg bytes, fun hu => by cases u; exact congrArg mk hu⟩
      · rw [if_pos hfull]
        exact iff_of_false nofun fun h => hfull h.1
  | cons c s ih =>
      by_cases hc : c = ascii '-'
      · have hloop : parseLoop (spelled vs) vs.length (c :: s) =
            parseLoop (spelled vs) vs.length s := if_pos hc
        have hskip : ∀ u, Completes vs (c :: s) u ↔ Completes vs s u := fun u => by
          unfold Completes
          rw [digits_cons, if_pos hc]
        simp only [hloop, hskip]
        exact ih hroom
      · rw [parseLoop, if_neg hc]
        cases hv : digitValue? c with
        | none =>
            refine ⟨none, rfl, fun u => iff_of_false nofun ?_⟩
            rintro ⟨ws, hws, -⟩
            rw [digits_cons, if_neg hc] at hws
            obtain ⟨w, ws, hw, -⟩ := List.forall₂_cons_left_iff.1 hws
            exact nomatch hv.symm.trans (digitValue?_eq_some.2 hw)
        | some v =>
            have hcons : ∀ u, Completes vs (c :: s) u ↔ Completes (vs ++ [v]) s u := fun u =>
              completes_cons hc hv
            simp only [hcons]
            by_cases hfull : 32 ≤ vs.length
            · -- one digit too many
              rw [if_pos hfull]
              refine ⟨none, rfl, fun u => iff_of_false nofun ?_⟩
              rintro ⟨ws, -, hlength, -⟩
              rw [List.length_append, List.length_append, List.length_singleton] at hlength
              omega
            · have hstore := store_spelled (Nat.not_le.1 hfull) (digitValue?_eq_some.1 hv).1
              have hnext : (vs ++ [v]).length = vs.length + 1 := List.length_append
              have hrest := @ih (vs ++ [v]) (by omega)
              rw [hnext] at hrest
              rw [if_neg hfull]
              rw [hstore]
              exact hrest

/-! ### What is accepted -/

/-- The digits of `s` are 32, and they spell `u`. -/
def Spells (s : ByteString) (u : Uuid) : Prop :=
  ∃ ws, List.Forall₂ Digit (digits s) ws ∧ ws.length = 32 ∧ u.bytes = spelled ws

/-- Something is spelled exactly by 32 digits. -/
theorem exists_spells_iff {s : ByteString} :
    (∃ u, Spells s u) ↔ (digits s).length = 32 ∧ ∀ c ∈ digits s, ∃ v, Digit c v := by
  rw [← Collections.forall₂_exists_iff]
  constructor
  · rintro ⟨u, ws, hws, hlength, -⟩
    exact ⟨hws.length_eq.trans hlength, ws, hws⟩
  · rintro ⟨hlength, ws, hws⟩
    exact ⟨⟨spelled ws⟩, ws, hws, hws.length_eq.symm.trans hlength, rfl⟩

theorem parse_eq (s : ByteString) :
    ∃ result, parse s = some result ∧ ∀ u, result = some u ↔ Spells s u :=
  have hroom : ([] : List UInt8).length ≤ 32 := Nat.zero_le 32
  parseLoop_eq hroom s

/-! ### Back from the text -/

/-- The two values that a byte is written as. -/
def halvesOf (b : UInt8) : List UInt8 := [b >>> 4, b &&& 0x0F]

theorem halvesOf_small (b : UInt8) : b >>> 4 < 16 ∧ b &&& 0x0F < 16 ∧
    (b >>> 4) * 16 + (b &&& 0x0F) = b := by
  have hall : ∀ n < 256, n.toUInt8 >>> (4 : UInt8) < 16 ∧ n.toUInt8 &&& 0x0F < 16 ∧
      (n.toUInt8 >>> (4 : UInt8)) * 16 + (n.toUInt8 &&& 0x0F) = n.toUInt8 := by decide +kernel
  have hb := hall b.toNat b.toNat_lt
  rwa [toUInt8_toNat] at hb

theorem getD_halves (bs : List UInt8) (k : ℕ) :
    (bs.flatMap halvesOf).getD (2 * k) 0 = bs.getD k 0 >>> 4 ∧
      (bs.flatMap halvesOf).getD (2 * k + 1) 0 = bs.getD k 0 &&& 0x0F := by
  induction bs generalizing k with
  | nil => simp
  | cons b bs ih =>
      cases k with
      | zero => exact ⟨rfl, rfl⟩
      | succ k => exact ih k

theorem spelled_halves (b : List.Vector UInt8 16) : b = spelled (b.toList.flatMap halvesOf) := by
  refine List.Vector.ext fun i => ?_
  obtain ⟨hhigh, hlow⟩ := getD_halves b.toList i
  have hget : b.toList.getD i 0 = b.get i := by
    rw [List.getD_eq_getElem _ _ (by rw [b.toList_length]; exact i.isLt)]
    rfl
  rw [spelled, List.Vector.get_ofFn, hhigh, hlow, hget]
  exact (halvesOf_small _).2.2.symm

/-- The text has hyphens, and two digits for each byte. -/
theorem digits_toText (u : Uuid) :
    digits u.toText = (u.bytes.toList.flatMap halvesOf).map hexDigit := by
  have hdigit : ∀ v < 16, hexDigit v ≠ ascii '-' := fun v hv heq => by
    have hnone : digitValue? (ascii '-') = none := by decide +kernel
    rw [← heq, digitValue?_eq_some.2 ⟨hv, .inl rfl⟩] at hnone
    cases hnone
  have hpair : ∀ x : UInt8 × ℕ, digits ((if x.2 = 4 ∨ x.2 = 6 ∨ x.2 = 8 ∨ x.2 = 10 then text "-"
      else []) ++ [hexDigit (x.1 >>> 4), hexDigit (x.1 &&& 0x0F)]) =
      (halvesOf x.1).map hexDigit := fun x => by
    have hhyphen : digits (text "-") = [] := by decide +kernel
    have hhigh := hdigit _ (halvesOf_small x.1).1
    have hlow := hdigit _ (halvesOf_small x.1).2.1
    rw [digits, List.filter_append, apply_ite (List.filter _), ← digits, hhyphen]
    simp [halvesOf, hhigh, hlow]
  have hbytes : u.bytes.toList = u.bytes.toList.zipIdx.map Prod.fst := (List.zipIdx_map_fst 0 _).symm
  rw [toText, digits, List.filter_flatMap, List.map_flatMap]
  conv_rhs => rw [hbytes, List.flatMap_map]
  exact List.flatMap_congr fun x _ => hpair x

theorem spells_toText (u : Uuid) : Spells u.toText u := by
  refine ⟨u.bytes.toList.flatMap halvesOf, ?_, ?_, spelled_halves u.bytes⟩
  · rw [digits_toText, List.forall₂_map_left_iff, List.forall₂_same]
    intro v hv
    obtain ⟨b, -, hb⟩ := List.mem_flatMap.1 hv
    obtain ⟨hhigh, hlow, -⟩ := halvesOf_small b
    rcases List.mem_pair.1 hb with rfl | rfl
    · exact ⟨hhigh, .inl rfl⟩
    · exact ⟨hlow, .inl rfl⟩
  · simp [halvesOf]

end Uuid

/-- `parse` never writes past the array. It gives the identifier that the
characters other than hyphens spell, if these are 32 hexadecimal digits, and
nothing otherwise; a text is read back as what it was made of. -/
theorem uuid_parse_spells :
    (∀ s, ∃ result, Uuid.parse s = some result ∧
      (result ≠ none ↔ (Uuid.digits s).length = 32 ∧ ∀ c ∈ Uuid.digits s, ∃ v, Uuid.Digit c v) ∧
      ∀ u, result = some u ↔ Uuid.Spells s u) ∧
    (∀ u : Uuid, Uuid.parse u.toText = some (some u)) ∧
    Function.Injective Uuid.toText := by
  have hback : ∀ u : Uuid, Uuid.parse u.toText = some (some u) := fun u => by
    obtain ⟨result, hparse, hresult⟩ := Uuid.parse_eq u.toText
    rw [hparse, (hresult u).2 (Uuid.spells_toText u)]
  refine ⟨fun s => ?_, hback, fun u v huv => ?_⟩
  · obtain ⟨result, hparse, hresult⟩ := Uuid.parse_eq s
    refine ⟨result, hparse, ?_, hresult⟩
    rw [Option.ne_none_iff_exists']
    simp only [hresult]
    exact Uuid.exists_spells_iff
  · have hsame := (hback u).symm.trans ((congrArg Uuid.parse huv).trans (hback v))
    exact Option.some.inj (Option.some.inj hsame)

end ExecutionFabric
