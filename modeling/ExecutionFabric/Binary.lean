import ExecutionFabric.Identity
import ExecutionFabric.Generation
import ExecutionFabric.Library.Reading

/-!
The binary codec.

A `ByteWriter` is the bytes it has appended. A `ByteReader` is a buffer with a
position and a sticky flag; a read gives nothing, and leaves the position
alone, unless the bytes it asks for are there. The flag is cleared by the two
length limits only, not by a read past the end.

Decoders are sequences of reads, each with the text that is reported when it
fails. A failed decoder gives up its reader, as every caller in the source
does.
-/

namespace ExecutionFabric

open Reading

namespace ByteWriter

def u8 (v : UInt8) : ByteString := [v]

def u32 (v : UInt32) : ByteString := leBytes 4 v.toNat

def u64 (v : UInt64) : ByteString := leBytes 8 v.toNat

def bytes {n : ℕ} (v : List.Vector UInt8 n) : ByteString := v.toList

def string (s : ByteString) : ByteString := u32 s.length.toUInt32 ++ s

def boolByte (b : Bool) : ByteString := u8 (if b then 1 else 0)

/-- The sixteen bytes of an identifier. -/
def id {Tag : Type} (i : Id Tag) : ByteString := bytes i.value.bytes

def gen {Tag : Type} (g : Gen Tag) : ByteString := u64 g.value

/-- A presence flag, and the value if there is one. -/
def option {α : Type} (write : α → ByteString) (a : Option α) : ByteString :=
  boolByte a.isSome ++ (a.map write).getD []

@[simp] theorem length_u32 (v : UInt32) : (u32 v).length = 4 := length_leBytes _ _

@[simp] theorem length_u64 (v : UInt64) : (u64 v).length = 8 := length_leBytes _ _

@[simp] theorem length_bytes {n : ℕ} (v : List.Vector UInt8 n) : (bytes v).length = n :=
  v.toList_length

@[simp] theorem length_id {Tag : Type} (i : Id Tag) : (id i).length = 16 := length_bytes _

@[simp] theorem length_gen {Tag : Type} (g : Gen Tag) : (gen g).length = 8 := length_u64 _

theorem u32_injective : Function.Injective u32 := by
  intro v w h
  rw [← UInt32.toNat_inj, ← leValue_leBytes (n := 4) v.toNat_lt, ← leValue_leBytes (n := 4) w.toNat_lt]
  exact congrArg leValue h

theorem u64_injective : Function.Injective u64 := by
  intro v w h
  rw [← UInt64.toNat_inj, ← leValue_leBytes (n := 8) v.toNat_lt, ← leValue_leBytes (n := 8) w.toNat_lt]
  exact congrArg leValue h

end ByteWriter

structure ByteReader where
  data : ByteString
  pos : ℕ := 0
  ok : Bool := true

namespace ByteReader

/-- `kMaxString`. -/
def maxString : ℕ := 2 ^ 20

/-- `kMaxVector`. -/
def maxVector : ℕ := 2 ^ 24

def remaining (r : ByteReader) : ℕ := r.data.length - r.pos

def need (r : ByteReader) (n : ℕ) : Bool := r.ok && decide (n ≤ r.remaining)

def fail (r : ByteReader) : ByteReader := { r with ok := false }

def advance (n : ℕ) (r : ByteReader) : ByteReader := { r with pos := r.pos + n }

/-- What is still to be read. -/
def rest (r : ByteReader) : ByteString := r.data.drop r.pos

theorem length_rest (r : ByteReader) : r.rest.length = r.remaining := List.length_drop

theorem length_window {r : ByteReader} {n : ℕ} (h : r.need n = true) :
    (r.rest.take n).length = n := by
  rw [need, Bool.and_eq_true, decide_eq_true_eq] at h
  rw [List.length_take, length_rest, min_eq_left h.2]

def u8 (r : ByteReader) : Option UInt8 × ByteReader :=
  if r.need 1 then (some (r.rest.headD 0), r.advance 1) else (none, r)

def u16 (r : ByteReader) : Option UInt16 × ByteReader :=
  if r.need 2 then (some (leValue (r.rest.take 2)).toUInt16, r.advance 2) else (none, r)

def u32 (r : ByteReader) : Option UInt32 × ByteReader :=
  if r.need 4 then (some (leValue (r.rest.take 4)).toUInt32, r.advance 4) else (none, r)

def u64 (r : ByteReader) : Option UInt64 × ByteReader :=
  if r.need 8 then (some (leValue (r.rest.take 8)).toUInt64, r.advance 8) else (none, r)

/-- Into an array of known size. -/
def bytes (n : ℕ) (r : ByteReader) : Option (List.Vector UInt8 n) × ByteReader :=
  if h : r.need n = true then (some ⟨r.rest.take n, length_window h⟩, r.advance n) else (none, r)

/-- Into a vector. -/
def vector (n : ℕ) (r : ByteReader) : Option ByteString × ByteReader :=
  if maxVector < n then (none, r.fail)
  else if r.need n then (some (r.rest.take n), r.advance n)
  else (none, r)

def string (r : ByteReader) : Option ByteString × ByteReader :=
  match r.u32 with
  | (none, r) => (none, r)
  | (some n, r) =>
    if maxString < n.toNat then (none, r.fail)
    else if r.need n.toNat then (some (r.rest.take n.toNat), r.advance n.toNat)
    else (none, r)

def skip (n : ℕ) (r : ByteReader) : Option Unit × ByteReader :=
  if r.need n then (some (), r.advance n) else (none, r)

def boolByte (r : ByteReader) : Option Bool × ByteReader :=
  match r.u8 with
  | (none, r) => (none, r)
  | (some b, r) => (some (b != 0), r)

instance : Feed ByteReader UInt8 where
  live r := r.ok = true
  rest := rest
  skip := advance
  live_skip _ h := h
  rest_skip _ _ := (List.drop_drop).symm
  skip_zero _ := rfl
  skip_skip r m n := congrArg (fun p => { r with pos := p }) (Nat.add_assoc r.pos m n)

end ByteReader

/-! ### Decoders -/

abbrev Decoder := StateT ByteReader (Except ByteString)

namespace Decoder

/-- One read, with the text that is reported when it fails. -/
def read {α : Type} (m : ByteReader → Option α × ByteReader) (error : String) : Decoder α :=
  fun r => match m r with
    | (some a, r) => .ok (a, r)
    | (none, _) => .error (text error)

def id {Tag : Type} (error : String) : Decoder (Id Tag) :=
  (fun v => ⟨⟨v⟩⟩) <$> read (ByteReader.bytes 16) error

def gen {Tag : Type} (error : String) : Decoder (Gen Tag) := Gen.mk <$> read ByteReader.u64 error

/-- A presence flag, and the value if the flag is set. -/
def option {α : Type} (error : String) (p : Decoder α) : Decoder (Option α) := do
  let present ← read ByteReader.boolByte error
  if present then some <$> p else pure none

/-- An enumeration, checked to be in range. -/
def enum {α : Type} (ofCode? : UInt8 → Option α) (truncated invalid : String) : Decoder α := do
  let c ← read ByteReader.u8 truncated
  match ofCode? c with
  | some a => pure a
  | none => throw (text invalid)

end Decoder

/-! ### Every read inverts its write -/

section

variable {α : Type} {error : String}

theorem reads_of {m : ByteReader → Option α × ByteReader} {bs : ByteString} {a : α}
    (h : ∀ r tail, r.ok = true → r.rest = bs ++ tail → m r = (some a, r.advance bs.length)) :
    Reads (Decoder.read m error) bs a := by
  intro r tail hlive hrest
  simp only [Decoder.read, h r tail hlive hrest]
  rfl

theorem need_of_rest {r : ByteReader} {bs tail : ByteString} (hok : r.ok = true)
    (hrest : r.rest = bs ++ tail) : r.need bs.length = true := by
  have hle : bs.length ≤ r.remaining := by
    rw [← r.length_rest, hrest, List.length_append]
    exact Nat.le_add_right _ _
  simp [ByteReader.need, hok, hle]

theorem take_of_rest {r : ByteReader} {bs tail : ByteString} (hrest : r.rest = bs ++ tail) :
    r.rest.take bs.length = bs := by rw [hrest, List.take_left]

theorem u8_of_rest {r : ByteReader} {v : UInt8} {tail : ByteString} (hok : r.ok = true)
    (hrest : r.rest = ByteWriter.u8 v ++ tail) : r.u8 = (some v, r.advance 1) := by
  have hneed : r.need 1 = true := need_of_rest hok hrest
  rw [ByteReader.u8, if_pos hneed, hrest]
  rfl

theorem u32_of_rest {r : ByteReader} {v : UInt32} {tail : ByteString} (hok : r.ok = true)
    (hrest : r.rest = ByteWriter.u32 v ++ tail) : r.u32 = (some v, r.advance 4) := by
  have hlength : (ByteWriter.u32 v).length = 4 := length_leBytes _ _
  have hneed := need_of_rest hok hrest
  have htake := take_of_rest hrest
  rw [hlength] at hneed htake
  have hvalue : leValue (ByteWriter.u32 v) = v.toNat := leValue_leBytes v.toNat_lt
  rw [ByteReader.u32, if_pos hneed, htake, hvalue]
  simp

theorem u64_of_rest {r : ByteReader} {v : UInt64} {tail : ByteString} (hok : r.ok = true)
    (hrest : r.rest = ByteWriter.u64 v ++ tail) : r.u64 = (some v, r.advance 8) := by
  have hlength : (ByteWriter.u64 v).length = 8 := length_leBytes _ _
  have hneed := need_of_rest hok hrest
  have htake := take_of_rest hrest
  rw [hlength] at hneed htake
  have hvalue : leValue (ByteWriter.u64 v) = v.toNat := leValue_leBytes v.toNat_lt
  rw [ByteReader.u64, if_pos hneed, htake, hvalue]
  simp

theorem reads_u8 (v : UInt8) :
    Reads (Decoder.read ByteReader.u8 error) (ByteWriter.u8 v) v :=
  reads_of fun _ _ hok hrest => u8_of_rest hok hrest

theorem reads_u32 (v : UInt32) :
    Reads (Decoder.read ByteReader.u32 error) (ByteWriter.u32 v) v :=
  reads_of fun _ _ hok hrest => (u32_of_rest hok hrest).trans (by simp [ByteWriter.u32])

theorem reads_u64 (v : UInt64) :
    Reads (Decoder.read ByteReader.u64 error) (ByteWriter.u64 v) v :=
  reads_of fun _ _ hok hrest => (u64_of_rest hok hrest).trans (by simp [ByteWriter.u64])

theorem reads_bytes {n : ℕ} (v : List.Vector UInt8 n) :
    Reads (Decoder.read (ByteReader.bytes n) error) (ByteWriter.bytes v) v := by
  refine reads_of fun r tail hok hrest => ?_
  have hlength : (ByteWriter.bytes v).length = n := v.toList_length
  have hneed := need_of_rest hok hrest
  have htake := take_of_rest hrest
  rw [hlength] at hneed htake ⊢
  rw [ByteReader.bytes, dif_pos hneed]
  refine Prod.ext (congrArg some (List.Vector.toList_injective ?_)) rfl
  exact htake

theorem toNat_size {n : ℕ} (h : n ≤ ByteReader.maxString) : n.toUInt32.toNat = n :=
  UInt32.toNat_ofNat_of_lt' (lt_of_le_of_lt h (by decide))

theorem reads_string {s : ByteString} (hsize : s.length ≤ ByteReader.maxString) :
    Reads (Decoder.read ByteReader.string error) (ByteWriter.string s) s := by
  refine reads_of fun r tail hok hrest => ?_
  have hsmall := toNat_size hsize
  rw [ByteWriter.string, List.append_assoc] at hrest
  have hcount := u32_of_rest hok hrest
  have hbody : (r.advance 4).rest = s ++ tail := by
    have hskip : (r.advance 4).rest = r.rest.drop 4 := (List.drop_drop).symm
    rw [hskip, hrest]
    exact List.drop_left' (length_leBytes _ _)
  have hneed := need_of_rest (r := r.advance 4) hok hbody
  simp only [ByteReader.string, hcount, hsmall, if_neg (Nat.not_lt.2 hsize), hneed, if_true,
    take_of_rest hbody]
  simp [ByteReader.advance, ByteWriter.string, ByteWriter.u32, Nat.add_assoc]

theorem reads_boolByte (b : Bool) :
    Reads (Decoder.read ByteReader.boolByte error) (ByteWriter.boolByte b) b := by
  refine reads_of fun r tail hok hrest => ?_
  rw [ByteReader.boolByte, u8_of_rest hok hrest]
  cases b <;> rfl

theorem reads_id {Tag : Type} (i : Id Tag) : Reads (Decoder.id error) (ByteWriter.id i) i :=
  (reads_bytes i.value.bytes).map

theorem reads_gen {Tag : Type} (g : Gen Tag) : Reads (Decoder.gen error) (ByteWriter.gen g) g :=
  (reads_u64 g.value).map

theorem reads_enum {ofCode? : UInt8 → Option α} {truncated invalid : String} {c : UInt8} {a : α}
    (hcode : ofCode? c = some a) :
    Reads (Decoder.enum ofCode? truncated invalid) (ByteWriter.u8 c) a := by
  rw [← List.append_nil (ByteWriter.u8 c)]
  refine (reads_u8 c).bind ?_
  rw [hcode]
  exact .pure a

/-- A decoder leaves what is behind the bytes it reads. -/
theorem reads_front {p : Decoder α} {bs : ByteString} {a : α} (h : Reads p bs a)
    (tail : ByteString) :
    ∃ r : ByteReader, p { data := bs ++ tail } = .ok (a, r) ∧ r.ok = true ∧
      r.remaining = tail.length := by
  refine ⟨_, h _ tail rfl rfl, rfl, ?_⟩
  show (bs ++ tail).length - (0 + bs.length) = tail.length
  rw [List.length_append]
  omega

theorem reads_whole {p : Decoder α} {bs : ByteString} {a : α} (h : Reads p bs a) :
    ∃ r : ByteReader, p { data := bs } = .ok (a, r) ∧ r.ok = true ∧ r.remaining = 0 := by
  have hfront := reads_front h []
  rwa [List.append_nil] at hfront

end

/-! ### What a read took -/

/-- The bytes of an optional value. Every flag but zero reads as set. -/
inductive Presence {α : Type} (W : ByteString → α → Prop) : ByteString → Option α → Prop
  | absent : Presence W (ByteWriter.u8 0) none
  | present {flag : UInt8} {bs : ByteString} {a : α} (hflag : flag ≠ 0) (h : W bs a) :
      Presence W (ByteWriter.u8 flag ++ bs) (some a)

section

variable {α : Type} {error : String} {s t : ByteReader}

theorem presence_option {W : ByteString → α → Prop} {write : α → ByteString} {a : Option α}
    (h : ∀ x, a = some x → W (write x) x) : Presence W (ByteWriter.option write a) a := by
  cases a with
  | none => exact .absent
  | some x => exact @Presence.present α W 1 _ x (by decide) (h x rfl)

theorem reads_presence {p : Decoder α} {W : ByteString → α → Prop} {bs : ByteString}
    {a : Option α} (h : ∀ bs x, a = some x → W bs x → Reads p bs x) (hbs : Presence W bs a) :
    Reads (Decoder.option error p) bs a := by
  have hflag : ∀ flag : UInt8, Reads (Decoder.read ByteReader.boolByte error)
      (ByteWriter.u8 flag) (flag != 0) := fun flag => by
    refine reads_of fun r tail hok hrest => ?_
    rw [ByteReader.boolByte, u8_of_rest hok hrest]
    rfl
  cases hbs with
  | absent =>
      rw [← List.append_nil (ByteWriter.u8 0)]
      exact (hflag 0).bind (.pure none)
  | @present flag bs x hset hx =>
      refine (hflag flag).bind ?_
      rw [if_pos (by simpa using hset)]
      exact (h bs x rfl hx).map

theorem reads_written {p : Decoder α} {write : α → ByteString}
    {bs : ByteString} {a : Option α} (hp : ∀ x, Reads p (write x) x)
    (h : Presence (fun bs x => bs = write x) bs a) : Reads (Decoder.option error p) bs a := by
  refine reads_presence (fun bs x _ hx => ?_) h
  rw [hx]
  exact hp x

theorem read_eq_ok {m : ByteReader → Option α × ByteReader} {a : α} :
    Decoder.read m error s = .ok (a, t) ↔ m s = (some a, t) := by
  unfold Decoder.read
  split
  · rename_i b r h
    simp [h]
  · rename_i r h
    simp [h]

/-- What is there to be read is taken off the front. -/
theorem took_window (s : ByteReader) (n : ℕ) : Took (s.rest.take n) s (s.advance n) := by
  have hskip : (s.advance n).rest = s.rest.drop n := (List.drop_drop).symm
  show s.rest = s.rest.take n ++ (s.advance n).rest
  rw [hskip, List.take_append_drop]

/-- With nothing remaining, all was taken. -/
theorem took_whole {bs cs : ByteString} (htook : Took cs ({ data := bs } : ByteReader) t)
    (hnone : t.remaining = 0) : bs = cs := by
  have hempty : t.rest = [] := List.length_eq_zero_iff.1 (t.length_rest.trans hnone)
  have hall : bs = cs ++ t.rest := htook
  rw [hall, hempty, List.append_nil]

theorem leValue_window_lt {n : ℕ} (h : s.need n = true) : leValue (s.rest.take n) < 2 ^ (8 * n) := by
  have hlt := leValue_lt (s.rest.take n)
  rwa [ByteReader.length_window h] at hlt

theorem leBytes_window {n : ℕ} (h : s.need n = true) :
    leBytes n (leValue (s.rest.take n)) = s.rest.take n := by
  have hbytes := leBytes_leValue (s.rest.take n)
  rwa [ByteReader.length_window h] at hbytes

theorem took_u8 {v : UInt8} (h : Decoder.read ByteReader.u8 error s = .ok (v, t)) :
    Took (ByteWriter.u8 v) s t := by
  rw [read_eq_ok, ByteReader.u8] at h
  split at h
  · rename_i hneed
    obtain ⟨hv, rfl⟩ := Prod.mk.inj h
    have hlength := ByteReader.length_window hneed
    have hone : ByteWriter.u8 v = s.rest.take 1 := by
      rw [← Option.some.inj hv]
      match s.rest, hlength with
      | b :: _, _ => rfl
    rw [hone]
    exact took_window s 1
  · cases h

theorem took_u32 {v : UInt32} (h : Decoder.read ByteReader.u32 error s = .ok (v, t)) :
    Took (ByteWriter.u32 v) s t := by
  rw [read_eq_ok, ByteReader.u32] at h
  split at h
  · rename_i hneed
    obtain ⟨hv, rfl⟩ := Prod.mk.inj h
    have hnat : v.toNat = leValue (s.rest.take 4) := by
      rw [← Option.some.inj hv, UInt32.toNat_ofNat']
      exact Nat.mod_eq_of_lt (leValue_window_lt hneed)
    rw [ByteWriter.u32, hnat, leBytes_window hneed]
    exact took_window s 4
  · cases h

theorem took_u64 {v : UInt64} (h : Decoder.read ByteReader.u64 error s = .ok (v, t)) :
    Took (ByteWriter.u64 v) s t := by
  rw [read_eq_ok, ByteReader.u64] at h
  split at h
  · rename_i hneed
    obtain ⟨hv, rfl⟩ := Prod.mk.inj h
    have hnat : v.toNat = leValue (s.rest.take 8) := by
      rw [← Option.some.inj hv, UInt64.toNat_ofNat']
      exact Nat.mod_eq_of_lt (leValue_window_lt hneed)
    rw [ByteWriter.u64, hnat, leBytes_window hneed]
    exact took_window s 8
  · cases h

theorem took_bytes {n : ℕ} {v : List.Vector UInt8 n}
    (h : Decoder.read (ByteReader.bytes n) error s = .ok (v, t)) :
    Took (ByteWriter.bytes v) s t := by
  rw [read_eq_ok, ByteReader.bytes] at h
  split at h
  · obtain ⟨hv, rfl⟩ := Prod.mk.inj h
    rw [← Option.some.inj hv]
    exact took_window s n
  · cases h

theorem took_string {v : ByteString} (h : Decoder.read ByteReader.string error s = .ok (v, t)) :
    v.length ≤ ByteReader.maxString ∧ Took (ByteWriter.string v) s t := by
  rw [read_eq_ok, ByteReader.string] at h
  split at h
  · cases h
  · rename_i n r hn
    have hcount := @took_u32 error _ _ n (read_eq_ok.2 hn)
    split at h
    · cases h
    · rename_i hsize
      split at h
      · rename_i hneed
        obtain ⟨hv, rfl⟩ := Prod.mk.inj h
        have hlength := ByteReader.length_window hneed
        rw [Option.some.inj hv] at hlength
        have hback : v.length.toUInt32 = n := by
          rw [hlength]
          simp
        refine ⟨hlength ▸ Nat.not_lt.1 hsize, ?_⟩
        rw [ByteWriter.string, hback, ← Option.some.inj hv]
        exact hcount.trans (took_window r n.toNat)
      · cases h

theorem took_skip {n : ℕ} (h : Decoder.read (ByteReader.skip n) error s = .ok ((), t)) :
    (s.rest.take n).length = n ∧ Took (s.rest.take n) s t := by
  rw [read_eq_ok, ByteReader.skip] at h
  split at h
  · rename_i hneed
    obtain ⟨-, rfl⟩ := Prod.mk.inj h
    exact ⟨ByteReader.length_window hneed, took_window s n⟩
  · cases h

theorem took_id {Tag : Type} {i : Id Tag} (h : Decoder.id error s = .ok (i, t)) :
    Took (ByteWriter.id i) s t := by
  obtain ⟨v, hv, rfl⟩ := map_eq_ok.1 h
  exact took_bytes hv

theorem took_gen {Tag : Type} {g : Gen Tag} (h : Decoder.gen error s = .ok (g, t)) :
    Took (ByteWriter.gen g) s t := by
  obtain ⟨v, hv, rfl⟩ := map_eq_ok.1 h
  exact took_u64 hv

theorem took_boolByte {v : Bool} (h : Decoder.read ByteReader.boolByte error s = .ok (v, t)) :
    ∃ flag : UInt8, (flag != 0) = v ∧ Took (ByteWriter.u8 flag) s t := by
  rw [read_eq_ok, ByteReader.boolByte] at h
  split at h
  · cases h
  · rename_i flag r hbyte
    obtain ⟨hset, rfl⟩ := Prod.mk.inj h
    exact ⟨flag, Option.some.inj hset, @took_u8 error _ _ flag (read_eq_ok.2 hbyte)⟩

theorem took_vector {n : ℕ} {v : ByteString}
    (h : Decoder.read (ByteReader.vector n) error s = .ok (v, t)) : v.length = n ∧ Took v s t := by
  rw [read_eq_ok, ByteReader.vector] at h
  split at h
  · cases h
  · split at h
    · rename_i hneed
      obtain ⟨hv, rfl⟩ := Prod.mk.inj h
      obtain rfl := Option.some.inj hv
      exact ⟨ByteReader.length_window hneed, took_window s n⟩
    · cases h

theorem took_enum {ofCode? : UInt8 → Option α} {truncated invalid : String}
    {code : α → UInt8} (hcode : ∀ {c a}, ofCode? c = some a → code a = c) {a : α}
    (h : Decoder.enum ofCode? truncated invalid s = .ok (a, t)) :
    Took (ByteWriter.u8 (code a)) s t := by
  obtain ⟨c, u, hc, h⟩ := bind_eq_ok.1 h
  cases hof : ofCode? c with
  | none =>
      rw [hof] at h
      cases h
  | some b =>
      rw [hof] at h
      obtain ⟨rfl, rfl⟩ := Prod.mk.inj (Except.ok.inj h)
      rw [hcode hof]
      exact took_u8 hc

theorem took_option {p : Decoder α} {W : ByteString → α → Prop} {a : Option α}
    (hp : ∀ {s t a}, p s = .ok (a, t) → ∃ bs, W bs a ∧ Took bs s t)
    (h : Decoder.option error p s = .ok (a, t)) : ∃ bs, Presence W bs a ∧ Took bs s t := by
  obtain ⟨present, u, hflag, h⟩ := bind_eq_ok.1 h
  obtain ⟨flag, rfl, htook⟩ := took_boolByte hflag
  split at h
  · rename_i hne
    obtain ⟨x, hx, rfl⟩ := map_eq_ok.1 h
    obtain ⟨bs, hW, hbs⟩ := hp hx
    exact ⟨_, .present (by simpa using hne) hW, htook.trans hbs⟩
  · rename_i heq
    obtain ⟨rfl, rfl⟩ := Prod.mk.inj (Except.ok.inj h)
    obtain rfl : flag = 0 := by simpa using heq
    exact ⟨_, .absent, htook⟩

/-- An optional value that has one spelling. -/
theorem took_written {p : Decoder α} {write : α → ByteString}
    {a : Option α} (hp : ∀ {s t a}, p s = .ok (a, t) → Took (write a) s t)
    (h : Decoder.option error p s = .ok (a, t)) :
    ∃ bs, Presence (fun bs x => bs = write x) bs a ∧ Took bs s t :=
  took_option (fun hx => ⟨_, rfl, hp hx⟩) h

end

/-! ### A read fails on less -/

section

variable {α : Type} {error : String}

theorem delimits_u8 (v : UInt8) : Delimits (Decoder.read ByteReader.u8 error) (ByteWriter.u8 v) v :=
  (reads_u8 v).delimits fun h => (took_u8 h).length_le

theorem delimits_u32 (v : UInt32) :
    Delimits (Decoder.read ByteReader.u32 error) (ByteWriter.u32 v) v :=
  (reads_u32 v).delimits fun h => by simpa using (took_u32 h).length_le

theorem delimits_u64 (v : UInt64) :
    Delimits (Decoder.read ByteReader.u64 error) (ByteWriter.u64 v) v :=
  (reads_u64 v).delimits fun h => by simpa using (took_u64 h).length_le

theorem delimits_bytes {n : ℕ} (v : List.Vector UInt8 n) :
    Delimits (Decoder.read (ByteReader.bytes n) error) (ByteWriter.bytes v) v :=
  (reads_bytes v).delimits fun h => by simpa using (took_bytes h).length_le

theorem delimits_boolByte (b : Bool) :
    Delimits (Decoder.read ByteReader.boolByte error) (ByteWriter.boolByte b) b :=
  (reads_boolByte b).delimits fun h => by
    obtain ⟨flag, -, htook⟩ := took_boolByte h
    exact htook.length_le

theorem delimits_id {Tag : Type} (i : Id Tag) :
    Delimits (Decoder.id error) (ByteWriter.id i) i := (delimits_bytes i.value.bytes).map

theorem delimits_gen {Tag : Type} (g : Gen Tag) :
    Delimits (Decoder.gen error) (ByteWriter.gen g) g := (delimits_u64 g.value).map

theorem delimits_enum {ofCode? : UInt8 → Option α} {truncated invalid : String} {c : UInt8} {a : α}
    (hcode : ofCode? c = some a) :
    Delimits (Decoder.enum ofCode? truncated invalid) (ByteWriter.u8 c) a := by
  rw [← List.append_nil (ByteWriter.u8 c)]
  refine (delimits_u8 c).bind ?_
  rw [hcode]
  exact .pure a

theorem delimits_option {p : Decoder α} {write : α → ByteString} (a : Option α)
    (hp : ∀ x, Delimits p (write x) x) :
    Delimits (Decoder.option error p) (ByteWriter.option write a) a := by
  refine (delimits_boolByte a.isSome).bind ?_
  cases a with
  | none => exact .pure none
  | some x => exact (hp x).map

theorem delimits_vector {s : ByteString} (hsize : s.length ≤ ByteReader.maxVector) :
    Delimits (Decoder.read (ByteReader.vector s.length) error) s s := by
  refine Reads.delimits (reads_of fun r tail hok hrest => ?_) fun h => ?_
  · rw [ByteReader.vector, if_neg (Nat.not_lt.2 hsize), if_pos (need_of_rest hok hrest),
      take_of_rest hrest]
  · obtain ⟨hlength, htook⟩ := took_vector h
    exact hlength ▸ htook.length_le

/-- What is there of a string tells its length, unless it is too short for that. -/
theorem delimits_string {s : ByteString} (hsize : s.length ≤ ByteReader.maxString) :
    Delimits (Decoder.read ByteReader.string error) (ByteWriter.string s) s where
  reads := reads_string hsize
  starves r _ hpart hne := by
    cases hread : Decoder.read ByteReader.string error r with
    | error e => exact ⟨e, rfl⟩
    | ok result =>
        obtain ⟨hshort, htook⟩ := took_string hread
        obtain ⟨more, hmore⟩ := hpart
        have hbegin : ByteWriter.string result.1 ++ (result.2.rest ++ more) =
            ByteWriter.string s := by
          rw [← List.append_assoc, ← hmore]
          exact congrArg (· ++ more) htook.symm
        simp only [ByteWriter.string, List.append_assoc] at hbegin
        obtain ⟨hcount, -⟩ := List.append_inj hbegin (by simp)
        have hlength : result.1.length = s.length := by
          rw [← toNat_size hshort, ← toNat_size hsize, ByteWriter.u32_injective hcount]
        have hle : (ByteWriter.string s).length ≤ (Feed.rest r).length := by
          simpa [ByteWriter.string, hlength] using htook.length_le
        exact absurd (List.IsPrefix.eq_of_length_le ⟨more, hmore⟩ hle) hne

end

end ExecutionFabric
