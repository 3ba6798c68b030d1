import Mathlib.Data.Vector.Basic
import Mathlib.Data.List.Lex
import Mathlib.Data.Nat.Bitwise

/-!
Identities: the 128-bit `Uuid`, the typed wrappers `Id Tag` around it, and the
byte strings that texts and payloads are made of.

A `std::string` and a `std::vector<uint8_t>` are both a list of bytes here. An
identifier is its sixteen bytes; the domains are kept apart by a phantom tag,
as the C++ template does it.

Random identifiers are built from two values of the thread-local generator.
The generator itself is environment, so these two values are an argument; what
the code does with them is not, and it makes a random identifier non-nil
(`Uuid.isZero_random`).
-/

namespace ExecutionFabric

abbrev ByteString := List UInt8

/-- The bytes of an ASCII literal of the source. -/
def text (s : String) : ByteString := s.toList.map fun c => c.toNat.toUInt8

/-- `std::to_string` of an unsigned number. -/
def decimal (n : ℕ) : ByteString := text (toString n)

/-- The byte `v >> (8 * k)`. -/
def byteOf (v : UInt64) (k : ℕ) : UInt8 := (v >>> (8 * k).toUInt64).toUInt8

structure Uuid where
  bytes : List.Vector UInt8 16

/-- The two values one call of `Uuid::random` takes from the generator. -/
structure RandomWords where
  first : UInt64
  second : UInt64
  deriving DecidableEq

namespace Uuid

def nil : Uuid := ⟨List.Vector.replicate 16 0⟩

def isZero (u : Uuid) : Bool := u.bytes.toList.all (· == 0)

theorem toNats_injective : Function.Injective fun u : Uuid => u.bytes.toList.map UInt8.toNat := by
  rintro ⟨a⟩ ⟨b⟩ h
  have hlist : a.toList = b.toList :=
    List.map_injective_iff.2 (fun _ _ hab => UInt8.toNat_inj.1 hab) h
  exact congrArg Uuid.mk (List.Vector.toList_injective hlist)

/-- `std::array` compares its bytes lexicographically. -/
instance : LinearOrder Uuid :=
  LinearOrder.lift' (fun u => u.bytes.toList.map UInt8.toNat) toNats_injective

/-- The eight bytes of one generator value, lowest first. -/
def wordBytes (v : UInt64) : List UInt8 := (List.range 8).map (byteOf v)

def random (w : RandomWords) : Uuid where
  bytes := ⟨((wordBytes w.first ++ wordBytes w.second)
      |>.modify 6 fun b => (b &&& 0x0F) ||| 0x40)   -- version 4
      |>.modify 8 fun b => (b &&& 0x3F) ||| 0x80,   -- variant 10
    by simp [wordBytes]⟩

def hexDigit (n : UInt8) : UInt8 :=
  (text "0123456789abcdef").getD n.toNat 0

/-- `Uuid::to_string`: hexadecimal digits, hyphens before bytes 4, 6, 8, 10. -/
def toText (u : Uuid) : ByteString :=
  u.bytes.toList.zipIdx.flatMap fun (b, i) =>
    (if i = 4 ∨ i = 6 ∨ i = 8 ∨ i = 10 then text "-" else []) ++
      [hexDigit (b >>> 4), hexDigit (b &&& 0x0F)]

theorem version_ne_zero (b : UInt8) : (b &&& 0x0F) ||| 0x40 ≠ 0 := by
  intro h
  have hle : (0x40 : UInt8).toNat ≤ ((b &&& 0x0F) ||| 0x40).toNat := by
    rw [UInt8.toNat_or]
    exact Nat.right_le_or
  rw [h] at hle
  exact absurd hle (by decide)

/-- A random identifier carries its version bits, so it is never nil. -/
@[simp] theorem isZero_random (w : RandomWords) : (random w).isZero = false := by
  have hne := version_ne_zero (byteOf w.first 6)
  simp [isZero, random, wordBytes, List.range, List.range.loop, List.modify, hne]

end Uuid

/-- An identifier of one authority domain. -/
structure Id (Tag : Type) where
  value : Uuid

namespace Id

variable {Tag : Type}

theorem value_injective : Function.Injective (value : Id Tag → Uuid) := by
  rintro ⟨a⟩ ⟨b⟩ h
  exact congrArg Id.mk h

instance : LinearOrder (Id Tag) := LinearOrder.lift' value value_injective

def isNil (i : Id Tag) : Bool := i.value.isZero

def nil : Id Tag := ⟨Uuid.nil⟩

def random (w : RandomWords) : Id Tag := ⟨Uuid.random w⟩

def toText (i : Id Tag) : ByteString := i.value.toText

@[simp] theorem isNil_random (w : RandomWords) : (random w : Id Tag).isNil = false :=
  Uuid.isZero_random w

end Id

inductive ExecutionIdTag
inductive AttemptIdTag
inductive WorkerIdTag
inductive WorkerBootIdTag
inductive DispatchIdTag

abbrev ExecutionId := Id ExecutionIdTag
abbrev AttemptId := Id AttemptIdTag
abbrev WorkerId := Id WorkerIdTag
abbrev WorkerBootId := Id WorkerBootIdTag
abbrev DispatchId := Id DispatchIdTag

end ExecutionFabric
