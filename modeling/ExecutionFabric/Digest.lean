import ExecutionFabric.Record
import Mathlib.Logic.Function.Iterate

/-!
`Sha256`: the fingerprint of a result payload.

The hash is computed as the source computes it: bytes are collected in a
buffer of 64, a full buffer is transformed, and the last one is padded. The
length that the padding carries is that of the blocks transformed so far.
-/

namespace ExecutionFabric

namespace Sha256

/-- `h_[8]`, and the working variables of `transform`. -/
structure Words where
  a : UInt32
  b : UInt32
  c : UInt32
  d : UInt32
  e : UInt32
  f : UInt32
  g : UInt32
  h : UInt32

/-- The constants `K`. -/
def K : List UInt32 :=
  [0x428a2f98, 0x71374491, 0xb5c0fbcf, 0xe9b5dba5, 0x3956c25b, 0x59f111f1, 0x923f82a4, 0xab1c5ed5,
   0xd807aa98, 0x12835b01, 0x243185be, 0x550c7dc3, 0x72be5d74, 0x80deb1fe, 0x9bdc06a7, 0xc19bf174,
   0xe49b69c1, 0xefbe4786, 0x0fc19dc6, 0x240ca1cc, 0x2de92c6f, 0x4a7484aa, 0x5cb0a9dc, 0x76f988da,
   0x983e5152, 0xa831c66c, 0xb00327c8, 0xbf597fc7, 0xc6e00bf3, 0xd5a79147, 0x06ca6351, 0x14292967,
   0x27b70a85, 0x2e1b2138, 0x4d2c6dfc, 0x53380d13, 0x650a7354, 0x766a0abb, 0x81c2c92e, 0x92722c85,
   0xa2bfe8a1, 0xa81a664b, 0xc24b8b70, 0xc76c51a3, 0xd192e819, 0xd6990624, 0xf40e3585, 0x106aa070,
   0x19a4c116, 0x1e376c08, 0x2748774c, 0x34b0bcb5, 0x391c0cb3, 0x4ed8aa4a, 0x5b9cca4f, 0x682e6ff3,
   0x748f82ee, 0x78a5636f, 0x84c87814, 0x8cc70208, 0x90befffa, 0xa4506ceb, 0xbef9a3f7, 0xc67178f2]

def rotr (x n : UInt32) : UInt32 := (x >>> n) ||| (x <<< (32 - n))

/-- The big-endian word at `i`. -/
def word (p : ByteString) (i : ℕ) : UInt32 :=
  let byte (k : ℕ) : UInt32 := (p.getD (i * 4 + k) 0).toUInt32
  (byte 0 <<< 24) ||| (byte 1 <<< 16) ||| (byte 2 <<< 8) ||| byte 3

/-- One round of the message schedule: the next word. -/
def extend (w : List UInt32) : List UInt32 :=
  let i := w.length
  let x := w.getD (i - 15) 0
  let y := w.getD (i - 2) 0
  let s0 := rotr x 7 ^^^ rotr x 18 ^^^ (x >>> 3)
  let s1 := rotr y 17 ^^^ rotr y 19 ^^^ (y >>> 10)
  w ++ [w.getD (i - 16) 0 + s0 + w.getD (i - 7) 0 + s1]

/-- The 64 words of a block. -/
def schedule (p : ByteString) : List UInt32 := extend^[48] ((List.range 16).map (word p))

/-- One round of the compression, with its constant and its word. -/
def round (v : Words) (kw : UInt32 × UInt32) : Words :=
  let S1 := rotr v.e 6 ^^^ rotr v.e 11 ^^^ rotr v.e 25
  let ch := (v.e &&& v.f) ^^^ (~~~v.e &&& v.g)
  let t1 := v.h + S1 + ch + kw.1 + kw.2
  let S0 := rotr v.a 2 ^^^ rotr v.a 13 ^^^ rotr v.a 22
  let maj := (v.a &&& v.b) ^^^ (v.a &&& v.c) ^^^ (v.b &&& v.c)
  let t2 := S0 + maj
  { a := t1 + t2, b := v.a, c := v.b, d := v.c, e := v.d + t1, f := v.e, g := v.f, h := v.g }

/-- The hash state. `buf` is the used part of `buf_`. -/
structure State where
  h : Words := ⟨0x6a09e667, 0xbb67ae85, 0x3c6ef372, 0xa54ff53a, 0x510e527f, 0x9b05688c, 0x1f83d9ab,
    0x5be0cd19⟩
  buf : ByteString := []
  totalLen : UInt64 := 0

/-- `transform`, on a block of 64 bytes. -/
def State.transform (s : State) (block : ByteString) : State :=
  let v := (K.zip (schedule block)).foldl round s.h
  { s with
    h := ⟨s.h.a + v.a, s.h.b + v.b, s.h.c + v.c, s.h.d + v.d, s.h.e + v.e, s.h.f + v.f,
      s.h.g + v.g, s.h.h + v.h⟩
    totalLen := s.totalLen + 64 }

/-- The loop body of `update`. -/
def State.push (s : State) (b : UInt8) : State :=
  let buf := s.buf ++ [b]
  if buf.length = 64 then { s.transform buf with buf := [] } else { s with buf }

def State.update (s : State) (data : ByteString) : State := data.foldl push s

/-- The big-endian bytes of a word. -/
def wordBytes (v : UInt32) : List UInt8 :=
  [(v >>> 24).toUInt8, (v >>> 16).toUInt8, (v >>> 8).toUInt8, v.toUInt8]

def Words.bytes (v : Words) : List.Vector UInt8 32 :=
  ⟨[v.a, v.b, v.c, v.d, v.e, v.f, v.g, v.h].flatMap wordBytes, rfl⟩

/-- The big-endian bytes of the length in bits. -/
def lengthBytes (bitlen : UInt64) : ByteString :=
  (List.range 8).map fun i => (bitlen >>> (8 * (7 - i)).toUInt64).toUInt8

/-- Pad with zeros up to `n` bytes. -/
def padTo (n : ℕ) (buf : ByteString) : ByteString := buf ++ List.replicate (n - buf.length) 0

/-- `final`. -/
def State.final (s : State) : List.Vector UInt8 32 :=
  let bitlen := s.totalLen * 8
  let buf := s.buf ++ [0x80]
  let s := if 56 < buf.length then { s.transform (padTo 64 buf) with buf := [] }
    else { s with buf }
  (s.transform (padTo 56 s.buf ++ lengthBytes bitlen)).h.bytes

def digest (data : ByteString) : List.Vector UInt8 32 := (State.update {} data).final

end Sha256

/-- `ResultDigest::of`. -/
def ResultDigest.of (data : ByteString) : ResultDigest := ⟨Sha256.digest data⟩

/-- `ResultDigest::of_buffer`. -/
def ResultDigest.ofBuffer (data : ByteString) : ResultDigest := ⟨Sha256.digest data⟩

end ExecutionFabric
