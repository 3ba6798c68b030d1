import Mathlib.Data.Nat.NthRoot.Defs
import ExecutionFabric.Library.Reading

/-!
The secure hash algorithm SHA-256, as the standard FIPS 180-4 has it.

A message is padded with a one bit, zeros, and its length in bits, so that it
can be parsed into blocks of 64 bytes. Each block is expanded into the 64 words
of its message schedule, and the hash value is taken through 64 rounds for it.
The constants are what the standard says they are, bits of square roots and
cube roots of the first primes.
-/

namespace SecureHash

open Reading

abbrev Word := BitVec 32

/-! ### Functions and constants -/

def ch (x y z : Word) : Word := (x &&& y) ^^^ (~~~x &&& z)

def maj (x y z : Word) : Word := (x &&& y) ^^^ (x &&& z) ^^^ (y &&& z)

/-- `Σ₀`. -/
def bigSigma0 (x : Word) : Word := x.rotateRight 2 ^^^ x.rotateRight 13 ^^^ x.rotateRight 22

/-- `Σ₁`. -/
def bigSigma1 (x : Word) : Word := x.rotateRight 6 ^^^ x.rotateRight 11 ^^^ x.rotateRight 25

/-- `σ₀`. -/
def smallSigma0 (x : Word) : Word := x.rotateRight 7 ^^^ x.rotateRight 18 ^^^ x >>> 3

/-- `σ₁`. -/
def smallSigma1 (x : Word) : Word := x.rotateRight 17 ^^^ x.rotateRight 19 ^^^ x >>> 10

/-- The first 64 prime numbers. -/
def primes : List ℕ :=
  [2, 3, 5, 7, 11, 13, 17, 19, 23, 29, 31, 37, 41, 43, 47, 53, 59, 61, 67, 71, 73, 79, 83, 89, 97,
   101, 103, 107, 109, 113, 127, 131, 137, 139, 149, 151, 157, 163, 167, 173, 179, 181, 191, 193,
   197, 199, 211, 223, 227, 229, 233, 239, 241, 251, 257, 263, 269, 271, 277, 281, 283, 293, 307,
   311]

/-- The first 32 bits of the fractional part of the `n`th root of `p`. -/
def rootBits (n p : ℕ) : Word := BitVec.ofNat 32 (Nat.nthRoot n (p * 2 ^ (32 * n)))

/-- `K_t`. -/
def constant (t : ℕ) : Word := rootBits 3 (primes.getD t 0)

/-- A hash value, and the working variables. -/
structure Words where
  a : Word
  b : Word
  c : Word
  d : Word
  e : Word
  f : Word
  g : Word
  h : Word

/-- `H⁽⁰⁾`. -/
def initial : Words where
  a := rootBits 2 2
  b := rootBits 2 3
  c := rootBits 2 5
  d := rootBits 2 7
  e := rootBits 2 11
  f := rootBits 2 13
  g := rootBits 2 17
  h := rootBits 2 19

/-! ### Preprocessing -/

/-- The lowest `n` bytes of `v`, highest first. -/
def beBytes (n v : ℕ) : List UInt8 := (leBytes n v).reverse

/-- The number that the bytes spell, highest first. -/
def beValue (bs : List UInt8) : ℕ := leValue bs.reverse

@[simp] theorem length_beBytes (n v : ℕ) : (beBytes n v).length = n := by
  rw [beBytes, List.length_reverse, length_leBytes]

theorem beBytes_inj {n v w : ℕ} (hv : v < 2 ^ (8 * n)) (hw : w < 2 ^ (8 * n)) :
    beBytes n v = beBytes n w ↔ v = w := by
  refine ⟨fun h => ?_, congrArg _⟩
  have hvalue := congrArg leValue (List.reverse_injective h)
  rwa [leValue_leBytes hv, leValue_leBytes hw] at hvalue

/-- The number of zero bytes behind the byte that begins the padding. -/
def zeros (length : ℕ) : ℕ := (119 - length % 64) % 64

/-- It is the least that leaves room for eight bytes in the last block. -/
theorem zeros_least (length : ℕ) :
    (length + 1 + zeros length) % 64 = 56 ∧
      ∀ k, (length + 1 + k) % 64 = 56 → zeros length ≤ k := by
  unfold zeros
  constructor
  · omega
  · intro k hk
    omega

/-- The padding of a message of `length` bytes. -/
def padding (length : ℕ) : List UInt8 :=
  0x80 :: (List.replicate (zeros length) 0 ++ beBytes 8 (8 * length))

/-- The blocks of `n` elements. -/
def parse {α : Type*} (n : ℕ) (l : List α) : List (List α) :=
  (List.range (l.length / n)).map fun i => (l.drop (n * i)).take n

/-! ### Computation -/

/-- The `j`th word of a block. -/
def word (block : List UInt8) (j : ℕ) : Word :=
  BitVec.ofNat 32 (beValue ((block.drop (4 * j)).take 4))

/-- The message schedule `W_t` of a block with the words `M`. -/
def schedule (M : ℕ → Word) : ℕ → Word
  | t + 16 => smallSigma1 (schedule M (t + 14)) + schedule M (t + 9)
      + smallSigma0 (schedule M (t + 1)) + schedule M t
  | t => M t

def round (k w : Word) (v : Words) : Words :=
  let t1 := v.h + bigSigma1 v.e + ch v.e v.f v.g + k + w
  let t2 := bigSigma0 v.a + maj v.a v.b v.c
  { a := t1 + t2, b := v.a, c := v.b, d := v.c, e := v.d + t1, f := v.e, g := v.f, h := v.g }

def Words.add (v w : Words) : Words where
  a := v.a + w.a
  b := v.b + w.b
  c := v.c + w.c
  d := v.d + w.d
  e := v.e + w.e
  f := v.f + w.f
  g := v.g + w.g
  h := v.h + w.h

/-- The rounds of one block, each with its constant and its word of the schedule. -/
def rounds (v : Words) (kws : List (Word × Word)) : Words :=
  kws.foldl (fun v kw => round kw.1 kw.2 v) v

/-- The constants, with the message schedule of a block. -/
def keys (K : ℕ → Word) (block : List UInt8) : List (Word × Word) :=
  (List.range 64).map fun t => (K t, schedule (word block) t)

/-- The next hash value, with the constants `K`. -/
def compress (K : ℕ → Word) (H : Words) (block : List UInt8) : Words :=
  H.add (rounds H (keys K block))

def Words.bytes (v : Words) : List UInt8 :=
  [v.a, v.b, v.c, v.d, v.e, v.f, v.g, v.h].flatMap fun x => beBytes 4 x.toNat

/-- The hash values `H⁽⁰⁾`, `H⁽¹⁾`, … of a message. -/
def values (m : List UInt8) : List Words :=
  (parse 64 (m ++ padding m.length)).scanl (compress constant) initial

/-- The message digest. -/
def digest (m : List UInt8) : List UInt8 :=
  ((parse 64 (m ++ padding m.length)).foldl (compress constant) initial).bytes

/-! ### Blocks -/

theorem parse_cons {α : Type*} {n : ℕ} (hn : 0 < n) {b : List α} (hb : b.length = n) (l : List α) :
    parse n (b ++ l) = b :: parse n l := by
  have hcount : (b ++ l).length / n = l.length / n + 1 := by
    rw [List.length_append, hb, Nat.add_comm, Nat.add_div_right _ hn]
  have hhead : ((b ++ l).drop (n * 0)).take n = b := by
    rw [Nat.mul_zero, List.drop_zero, List.take_left' hb]
  have htail : ∀ i, (b ++ l).drop (n * (i + 1)) = l.drop (n * i) := fun i => by
    rw [Nat.mul_succ, Nat.add_comm, ← List.drop_drop, List.drop_left' hb]
  simp only [parse, hcount, List.range_succ_eq_map, List.map_cons, List.map_map, hhead,
    Function.comp_def, htail]

/-- Parsing gives the blocks back. -/
theorem parse_flatten {α : Type*} {n : ℕ} (hn : 0 < n) {bs : List (List α)}
    (h : ∀ b ∈ bs, b.length = n) : parse n bs.flatten = bs := by
  induction bs with
  | nil => simp [parse]
  | cons b bs ih =>
      rw [List.flatten_cons, parse_cons hn (h b List.mem_cons_self),
        ih fun x hx => h x (List.mem_cons_of_mem _ hx)]

theorem length_padded (m : List UInt8) : 64 ∣ (m ++ padding m.length).length := by
  have hzeros := (zeros_least m.length).1
  simp only [List.length_append, padding, List.length_cons, List.length_replicate, length_beBytes]
  omega

/-- Padding that begins with a mark can be taken off. -/
theorem append_mark_inj {α : Type*} {a z : α} (hne : a ≠ z) {xs ys : List α} {k l : ℕ}
    (h : xs ++ a :: List.replicate k z = ys ++ a :: List.replicate l z) : xs = ys := by
  have hlast : ∀ (ws : List α) (n : ℕ),
      ws ++ a :: List.replicate (n + 1) z = ws ++ a :: List.replicate n z ++ [z] := fun ws n => by
    rw [List.replicate_succ', List.append_assoc]
    rfl
  induction k generalizing l with
  | zero =>
      cases l with
      | zero => exact (List.append_inj' h rfl).1
      | succ l =>
          rw [hlast] at h
          exact absurd (List.cons.inj (List.append_inj' h rfl).2).1 hne
  | succ k ih =>
      rw [hlast] at h
      cases l with
      | zero => exact absurd (List.cons.inj (List.append_inj' h rfl).2).1.symm hne
      | succ l =>
          rw [hlast] at h
          exact ih (List.append_inj' h rfl).1

/-! ### A round can be taken back -/

theorem round_injective (k w : Word) : Function.Injective (round k w) := by
  rintro ⟨a, b, c, d, e, f, g, h⟩ ⟨a', b', c', d', e', f', g', h'⟩ heq
  simp only [round, Words.mk.injEq] at heq
  obtain ⟨hsum, rfl, rfl, rfl, hlast, rfl, rfl, rfl⟩ := heq
  have ht1 := (BitVec.add_left_inj _).1 hsum
  rw [ht1, BitVec.add_left_inj] at hlast
  simp only [BitVec.add_left_inj] at ht1
  rw [ht1, hlast]

theorem constant_of_round {k k' w : Word} {v : Words} (h : round k w v = round k' w v) : k = k' := by
  have hfirst := congrArg Words.a h
  simpa [round] using hfirst

theorem rounds_injective (kws : List (Word × Word)) :
    Function.Injective (rounds · kws) := by
  induction kws with
  | nil => exact Function.injective_id
  | cons kw kws ih => exact ih.comp (round_injective kw.1 kw.2)

/-- Rounds that are the same but for one constant never lead to the same. -/
theorem rounds_ne {xs ys : List (Word × Word)} {k k' w : Word} (h : k ≠ k') (v : Words) :
    rounds v (xs ++ (k, w) :: ys) ≠ rounds v (xs ++ (k', w) :: ys) := by
  intro heq
  simp only [rounds, List.foldl_append, List.foldl_cons] at heq
  exact h (constant_of_round (rounds_injective ys heq))

theorem Words.bytes_injective : Function.Injective Words.bytes := by
  rintro ⟨a, b, c, d, e, f, g, h⟩ ⟨a', b', c', d', e', f', g', h'⟩ heq
  have hword : ∀ {x y : Word} {xs ys : List UInt8}, beBytes 4 x.toNat ++ xs = beBytes 4 y.toNat ++ ys →
      x = y ∧ xs = ys := fun {x y xs ys} hxy => by
    obtain ⟨hfirst, hrest⟩ := List.append_inj hxy (by simp)
    exact ⟨BitVec.eq_of_toNat_eq ((beBytes_inj x.isLt y.isLt).1 hfirst), hrest⟩
  simp only [Words.bytes, List.flatMap_cons] at heq
  obtain ⟨h₁, heq⟩ := hword heq
  obtain ⟨h₂, heq⟩ := hword heq
  obtain ⟨h₃, heq⟩ := hword heq
  obtain ⟨h₄, heq⟩ := hword heq
  obtain ⟨h₅, heq⟩ := hword heq
  obtain ⟨h₆, heq⟩ := hword heq
  obtain ⟨h₇, heq⟩ := hword heq
  obtain ⟨h₈, -⟩ := hword heq
  rw [h₁, h₂, h₃, h₄, h₅, h₆, h₇, h₈]

theorem Words.add_injective (H : Words) : Function.Injective H.add := by
  rintro ⟨a, b, c, d, e, f, g, h⟩ ⟨a', b', c', d', e', f', g', h'⟩ heq
  simpa [Words.add] using heq

/-- One wrong constant spoils the compression of every block. -/
theorem compress_ne {K K' : ℕ → Word} {t : ℕ} (ht : t < 64) (hne : K t ≠ K' t)
    (hsame : ∀ i < 64, i ≠ t → K i = K' i) (H : Words) (block : List UInt8) :
    compress K H block ≠ compress K' H block := by
  intro heq
  obtain ⟨xs, ys, hsplit⟩ := List.append_of_mem (List.mem_range.2 ht)
  have hnodup : (xs ++ t :: ys).Nodup := hsplit ▸ List.nodup_range
  have hkeys : ∀ zs : List ℕ, (∀ i ∈ zs, i ∈ List.range 64 ∧ i ≠ t) →
      zs.map (fun i => (K i, schedule (word block) i)) =
        zs.map (fun i => (K' i, schedule (word block) i)) := fun zs hzs =>
    List.map_congr_left fun i hi => by
      rw [hsame i (List.mem_range.1 (hzs i hi).1) (hzs i hi).2]
  have hrounds := Words.add_injective H heq
  simp only [keys, hsplit, List.map_append, List.map_cons] at hrounds
  rw [hkeys xs fun i hi => ⟨?_, ?_⟩, hkeys ys fun i hi => ⟨?_, ?_⟩] at hrounds
  · exact rounds_ne hne H hrounds
  · exact hsplit ▸ List.mem_append_right _ (List.mem_cons_of_mem _ hi)
  · rintro rfl
    exact (List.nodup_cons.1 (List.nodup_append.1 hnodup).2.1).1 hi
  · exact hsplit ▸ List.mem_append_left _ hi
  · rintro rfl
    exact (List.nodup_append.1 hnodup).2.2 i hi i List.mem_cons_self rfl

end SecureHash
