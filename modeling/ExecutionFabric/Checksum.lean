import ExecutionFabric.Identity
import ExecutionFabric.Library.ShiftRegister

/-!
`Crc64`: the checksum of stored records and wire frames, driven by a table of
256 entries.

The table holds eight steps of a shift register for each byte, so that a turn
of the loop absorbs a byte into the register (`turn_eq_absorb`), with the same
result as if its bits were divided by the polynomial one after the other
(`updates_eq_divide`). As the
register has eight bytes and its steps can be undone, the checksum tells apart
any two strings that differ within eight consecutive bytes (`compute_ne`).
-/

namespace ExecutionFabric.Crc64

/-- The reflected polynomial of ECMA-182. -/
def polynomial : UInt64 := 0xC96C5795D7870F42

/-- Entry `i` of `table_`. -/
def table (i : UInt64) : UInt64 :=
  (fun c : UInt64 => if c &&& 1 != 0 then polynomial ^^^ (c >>> 1) else c >>> 1)^[8] i

def update (state : UInt64) (data : ByteString) : UInt64 :=
  data.foldl (fun state b => table ((state ^^^ b.toUInt64) &&& 0xFF) ^^^ (state >>> 8)) state

/-- The checksum of a byte string, from the seed `~0`. -/
def compute (data : ByteString) : UInt64 := update (~~~0) data

/-! ### Bursts -/

open ShiftRegister

/-- A step of the loop that fills the table is a step of the register. -/
theorem shift_polynomial (c : UInt64) :
    (if c &&& 1 != 0 then polynomial ^^^ (c >>> 1) else c >>> 1).toBitVec
      = shift polynomial.toBitVec c.toBitVec := by
  have hlow : (c &&& 1 != 0) = c.toBitVec.getLsbD 0 := by
    rw [Bool.eq_iff_iff, bne_iff_ne, ne_eq, ← UInt64.toNat_inj]
    simp [Nat.and_one_is_mod, BitVec.getLsbD]
  rw [hlow, shift]
  split <;> simp

theorem table_toBitVec (i : UInt64) :
    (table i).toBitVec = (shift polynomial.toBitVec)^[8] i.toBitVec :=
  Function.Semiconj.iterate_right (f := UInt64.toBitVec) shift_polynomial 8 i

/-- A register is its low byte and what is above it. -/
theorem split_byte (x : BitVec 64) : x = (x &&& 0xFF#64) ^^^ (x >>> 8) <<< 8 := by
  refine BitVec.eq_of_getLsbD_eq fun i hi => ?_
  have hmask : (0xFF#64).getLsbD i = decide (i < 8) := by
    rw [BitVec.getLsbD_ofNat, show 0xFF = 2 ^ 8 - 1 by rfl, Nat.testBit_two_pow_sub_one]
    simp [hi]
  rw [BitVec.getLsbD_xor, BitVec.getLsbD_and, hmask, BitVec.getLsbD_shiftLeft,
    BitVec.getLsbD_ushiftRight]
  by_cases hlow : i < 8
  · simp [hlow]
  · have hback : 8 + (i - 8) = i := by omega
    simp [hlow, hi, hback]

/-- A turn of the loop of `update` absorbs its byte. -/
theorem turn_eq_absorb (state : UInt64) (b : UInt8) :
    (table ((state ^^^ b.toUInt64) &&& 0xFF) ^^^ (state >>> 8)).toBitVec
      = absorb polynomial.toBitVec state.toBitVec b.toBitVec := by
  let x := state.toBitVec ^^^ b.toBitVec.setWidth 64
  have hhigh : x >>> 8 = state.toBitVec >>> 8 := by
    refine BitVec.eq_of_getLsbD_eq fun i _ => ?_
    simp [x]
  have hturn := shifts_split polynomial.toBitVec (split_byte x)
  rw [absorb, hturn, hhigh, UInt64.toBitVec_xor, table_toBitVec]
  simp [x]

theorem update_toBitVec (state : UInt64) (data : ByteString) :
    (update state data).toBitVec
      = absorbAll polynomial.toBitVec state.toBitVec (data.map UInt8.toBitVec) := by
  induction data generalizing state with
  | nil => rfl
  | cons b data ih =>
      rw [update, List.foldl_cons, List.map_cons, absorbAll, List.foldl_cons, ← turn_eq_absorb]
      exact ih _

/-- Strings of equal length that differ within eight consecutive bytes only, and
differ, have different checksums. -/
theorem compute_ne {xs ys : ByteString} {k : ℕ} (h : DiffersWithin k 8 xs ys) (hne : xs ≠ ys) :
    compute xs ≠ compute ys := by
  intro heq
  have hbytes : xs.map UInt8.toBitVec ≠ ys.map UInt8.toBitVec := fun heq =>
    hne (List.map_injective_iff.2 (fun _ _ => UInt8.toBitVec_inj.1) heq)
  have htop : polynomial.toBitVec.getLsbD (64 - 1) = true := by decide
  refine absorbAll_ne htop (~~~0 : UInt64).toBitVec (h.map UInt8.toBitVec) (by decide) hbytes ?_
  rw [← update_toBitVec, ← update_toBitVec]
  exact congrArg UInt64.toBitVec heq

/-! ### Bit by bit -/

/-- One bit of the division: it is added to the lowest bit of the state, which
is shifted out, and the polynomial is added if what was shifted out is 1. -/
def feed (state : UInt64) (bit : Bool) : UInt64 :=
  let c := state ^^^ bit.toUInt64
  if c &&& 1 = 1 then (c >>> 1) ^^^ polynomial else c >>> 1

/-- The bits of a byte, lowest first. -/
def bits (b : UInt8) : List Bool := (List.range 8).map b.toNat.testBit

/-- The bytes are processed bit by bit, without a table. -/
def divide (state : UInt64) (data : ByteString) : UInt64 := (data.flatMap bits).foldl feed state

theorem feed_toBitVec (state : UInt64) (bit : Bool) :
    (feed state bit).toBitVec = absorb polynomial.toBitVec state.toBitVec (BitVec.ofBool bit) := by
  have hbit : (state ^^^ bit.toUInt64).toBitVec
      = state.toBitVec ^^^ (BitVec.ofBool bit).setWidth 64 := by
    cases bit <;> rfl
  have hstep := shift_polynomial (state ^^^ bit.toUInt64)
  rw [hbit] at hstep
  rw [feed, absorb, Function.iterate_one, ← hstep]
  refine congrArg UInt64.toBitVec ?_
  generalize state ^^^ bit.toUInt64 = c
  have hlow : c &&& 1 = 1 ↔ (c &&& 1 != 0) = true := by
    rw [bne_iff_ne, ne_eq, ← UInt64.toNat_inj, ← UInt64.toNat_inj]
    simp [Nat.and_one_is_mod]
  by_cases hone : c &&& 1 = 1
  · rw [if_pos hone, if_pos (hlow.1 hone), UInt64.xor_comm]
  · rw [if_neg hone, if_neg (mt hlow.2 hone)]

theorem bits_toBitVec (b : UInt8) :
    (bits b).map BitVec.ofBool = ShiftRegister.bits b.toBitVec := by
  rw [bits, ShiftRegister.bits, List.map_map]
  rfl

theorem divide_toBitVec (state : UInt64) (data : ByteString) :
    (divide state data).toBitVec
      = absorbAll polynomial.toBitVec state.toBitVec (data.map UInt8.toBitVec) := by
  have hfeeds : ∀ (bs : List Bool) (c : UInt64), (bs.foldl feed c).toBitVec =
      absorbAll polynomial.toBitVec c.toBitVec (bs.map BitVec.ofBool) := by
    intro bs
    induction bs with
    | nil => exact fun c => rfl
    | cons b bs ih =>
        intro c
        rw [List.foldl_cons, ih, feed_toBitVec]
        rfl
  rw [divide, hfeeds, absorbAll_eq_bits _ (by decide) _ (data.map UInt8.toBitVec),
    List.map_flatMap, List.flatMap_map]
  simp only [bits_toBitVec]

/-- However the bytes are split into calls of `update`, the table leads to the
state that the division bit by bit leads to. -/
theorem updates_eq_divide (seed : UInt64) (parts : List ByteString) :
    parts.foldl update seed = divide seed parts.flatten := by
  have hone : ∀ state data, update state data = divide state data := fun state data => by
    rw [← UInt64.toBitVec_inj, update_toBitVec, divide_toBitVec]
  induction parts generalizing seed with
  | nil => rfl
  | cons data parts ih =>
      calc (data :: parts).foldl update seed = parts.foldl update (update seed data) := rfl
        _ = divide (divide seed data) parts.flatten := by rw [ih, hone]
        _ = _ := by rw [List.flatten_cons, divide, divide, divide, List.flatMap_append,
            List.foldl_append]

end ExecutionFabric.Crc64
