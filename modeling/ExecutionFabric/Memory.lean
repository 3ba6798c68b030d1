import ExecutionFabric.Binary

/-!
Reading from memory.

A buffer is a pointer and a length. Memory has a byte at some addresses, and a
load from any other faults; addresses count from the start of the buffer.
`Loading` programs are decoders with every load written out. Where memory has
the bytes of the buffer, a program is shown to do what the decoder does
(`Refines`), whatever is behind them: so it does not fault where nothing is, and
what it returns does not depend on what is there.

A reader that is asked what remains subtracts its position from the length.
This faults as well if the position is past the end, and the refinement keeps
it from getting there.
-/

namespace ExecutionFabric

open Reading

abbrev Memory := ℕ → Option UInt8

namespace Memory

/-- The `n` bytes from `pos` on. -/
def fetch (m : Memory) (pos : ℕ) : ℕ → Option ByteString
  | 0 => some []
  | n + 1 => do
    let b ← m pos
    let bs ← fetch m (pos + 1) n
    pure (b :: bs)

/-- The buffer is there; nothing is said about what is behind it. -/
def Holds (m : Memory) (data : ByteString) : Prop := ∀ i < data.length, m i = data[i]?

theorem Holds.fetch {m : Memory} {data : ByteString} (h : m.Holds data) {pos n : ℕ}
    (hwithin : pos + n ≤ data.length) : m.fetch pos n = some ((data.drop pos).take n) := by
  induction n generalizing pos with
  | zero => rw [List.take_zero, Memory.fetch]
  | succ n ih =>
      have hpos : pos < data.length := by omega
      have hbyte : m pos = some data[pos] := by rw [h pos hpos, List.getElem?_eq_getElem hpos]
      rw [Memory.fetch, hbyte, ih (by omega), List.drop_eq_getElem_cons hpos, List.take_succ_cons]
      rfl

/-- The `n` bytes from `pos` on, as a buffer of their own, with nothing behind. -/
def window (m : Memory) (pos n : ℕ) : Memory := fun i => if i < n then m (pos + i) else none

theorem Holds.window {m : Memory} {data : ByteString} (h : m.Holds data) {pos n : ℕ}
    (hwithin : pos + n ≤ data.length) : (m.window pos n).Holds ((data.drop pos).take n) := by
  intro i hi
  have hin : i < n := by
    rw [List.length_take] at hi
    omega
  rw [Memory.window, if_pos hin, h (pos + i) (by omega), List.getElem?_take_of_lt hin,
    List.getElem?_drop]

end Memory

/-- A `ByteReader`, with the buffer left in memory. -/
structure Cursor where
  len : ℕ
  pos : ℕ := 0
  ok : Bool := true

namespace Cursor

def remaining (c : Cursor) : ℕ := c.len - c.pos

def need (c : Cursor) (n : ℕ) : Bool := c.ok && decide (n ≤ c.remaining)

def advance (n : ℕ) (c : Cursor) : Cursor := { c with pos := c.pos + n }

end Cursor

/-- A decoder that loads from memory; `none` is a fault. -/
abbrev Loading := StateT Cursor (ExceptT ByteString (ReaderT Memory Option))

namespace Loading

/-- `n` bytes at the cursor, if there are as many. -/
def read {α : Type} (n : ℕ) (value : ByteString → α) (error : String) : Loading α := fun c m =>
  if c.need n then (m.fetch c.pos n).map fun bs => .ok (value bs, c.advance n)
  else some (.error (text error))

def u8 : String → Loading UInt8 := read 1 fun bs => bs.headD 0

def u32 : String → Loading UInt32 := read 4 fun bs => (leValue bs).toUInt32

def u64 : String → Loading UInt64 := read 8 fun bs => (leValue bs).toUInt64

def enum {α : Type} (ofCode? : UInt8 → Option α) (truncated invalid : String) : Loading α := do
  let c ← u8 truncated
  match ofCode? c with
  | some a => pure a
  | none => throw (text invalid)

/-- `n` bytes behind a pointer, looked at without asking the reader. -/
def window (pos n : ℕ) : Loading ByteString := fun c m =>
  (m.fetch pos n).map fun bs => .ok (bs, c)

def failIf (bad : Prop) [Decidable bad] (e : ByteString) : Loading Unit :=
  if bad then throw e else pure ()

/-- `remaining()`, a difference that must not be negative. -/
def remaining : Loading ℕ := fun c _ =>
  if c.pos ≤ c.len then some (.ok (c.remaining, c)) else none

/-- A read by a reader that looks at what remains. -/
def guarded {α : Type} (l : Loading α) : Loading α := remaining >>= fun _ => l

end Loading

/-! ### Refinement -/

def ByteReader.cursor (r : ByteReader) : Cursor where
  len := r.data.length
  pos := r.pos
  ok := r.ok

/-- The reader is on the buffer, and not past its end. -/
def ByteReader.Inside (r : ByteReader) (data : ByteString) : Prop :=
  r.data = data ∧ r.pos ≤ data.length

section

variable {m : Memory} {data : ByteString} {α β : Type} {r : ByteReader}

/-- From here, the loads give what the decoder gives, and the reader stays on
the buffer. -/
structure RefinesAt (m : Memory) (data : ByteString) (l : Loading α) (p : Decoder α)
    (r : ByteReader) : Prop where
  loads : l r.cursor m = some ((fun x => (x.1, x.2.cursor)) <$> p r)
  inside : ∀ a t, p r = .ok (a, t) → t.Inside data

/-- On the buffer `data`, the loads give what the decoder gives. -/
def Refines (m : Memory) (data : ByteString) (l : Loading α) (p : Decoder α) : Prop :=
  ∀ r : ByteReader, r.Inside data → RefinesAt m data l p r

theorem RefinesAt.pure (hr : r.Inside data) (a : α) :
    RefinesAt m data (Pure.pure a) (Pure.pure a) r where
  loads := rfl
  inside b t h := by
    obtain ⟨-, rfl⟩ := Prod.mk.inj (Except.ok.inj h)
    exact hr

theorem RefinesAt.throw (e : ByteString) :
    RefinesAt m data (throw e : Loading α) (throw e) r where
  loads := rfl
  inside _ _ h := by cases h

/-- What follows may depend on what was read. -/
theorem RefinesAt.bind {l : Loading α} {p : Decoder α} {f : α → Loading β} {g : α → Decoder β}
    (hl : RefinesAt m data l p r)
    (hf : ∀ a t, p r = .ok (a, t) → t.Inside data → RefinesAt m data (f a) (g a) t) :
    RefinesAt m data (l >>= f) (p >>= g) r := by
  have hload : (l >>= f) r.cursor m = (l r.cursor m).bind fun
      | .error e => some (.error e)
      | .ok x => f x.1 x.2 m := by
    show (l r.cursor m).bind _ = _
    congr 1
    funext x
    cases x <;> rfl
  have hdecode : (p >>= g) r = (p r >>= fun x => g x.1 x.2) := rfl
  cases hp : p r with
  | error e =>
      have herror : (p >>= g) r = .error e := by
        rw [hdecode, hp]
        rfl
      refine ⟨by rw [hload, hl.loads, hp, herror]; rfl, fun b t h => ?_⟩
      rw [herror] at h
      cases h
  | ok x =>
      have hrest : (p >>= g) r = g x.1 x.2 := by
        rw [hdecode, hp]
        rfl
      obtain ⟨hloads, hinside⟩ := hf x.1 x.2 hp (hl.inside x.1 x.2 hp)
      refine ⟨by rw [hload, hl.loads, hp, hrest]; exact hloads, fun b t h => ?_⟩
      exact hinside b t (hrest.symm.trans h)

theorem RefinesAt.passes {bad : Prop} [Decidable bad] {e : ByteString} {l : Loading α}
    {p : Decoder α} (h : ¬bad → RefinesAt m data l p r) :
    RefinesAt m data (Loading.failIf bad e >>= fun _ => l) (failIf bad e >>= fun _ => p) r := by
  by_cases hbad : bad
  · rw [Loading.failIf, failIf, if_pos hbad, if_pos hbad]
    exact .throw e
  · rw [Loading.failIf, failIf, if_neg hbad, if_neg hbad]
    obtain ⟨hloads, hinside⟩ := h hbad
    exact ⟨hloads, hinside⟩

/-- What remains is no negative number. -/
theorem RefinesAt.remaining (hr : r.Inside data) {f : ℕ → Loading α} {p : Decoder α}
    (h : RefinesAt m data (f r.remaining) p r) :
    RefinesAt m data (Loading.remaining >>= f) p r := by
  have hin : r.cursor.pos ≤ r.cursor.len := by
    rw [ByteReader.cursor, hr.1]
    exact hr.2
  have hload : (Loading.remaining >>= f) r.cursor m = f r.remaining r.cursor m := by
    show (Loading.remaining r.cursor m).bind _ = _
    rw [Loading.remaining, if_pos hin]
    rfl
  exact ⟨hload.trans h.loads, h.inside⟩

/-- A look at bytes of the buffer finds them. -/
theorem RefinesAt.window (hm : m.Holds data) {pos n : ℕ} (hwithin : pos + n ≤ data.length)
    {l : ByteString → Loading α} {p : Decoder α}
    (h : RefinesAt m data (l ((data.drop pos).take n)) p r) :
    RefinesAt m data (Loading.window pos n >>= l) p r := by
  have hload : (Loading.window pos n >>= l) r.cursor m =
      l ((data.drop pos).take n) r.cursor m := by
    show ((m.fetch pos n).map _).bind _ = _
    rw [hm.fetch hwithin]
    rfl
  exact ⟨hload.trans h.loads, h.inside⟩

theorem Refines.pure (a : α) : Refines m data (Pure.pure a) (Pure.pure a) :=
  fun _ hr => .pure hr a

theorem Refines.bind {l : Loading α} {p : Decoder α} {f : α → Loading β} {g : α → Decoder β}
    (hl : Refines m data l p) (hf : ∀ a, Refines m data (f a) (g a)) :
    Refines m data (l >>= f) (p >>= g) :=
  fun r hr => (hl r hr).bind fun a t _ ht => hf a t ht

theorem Refines.passes {bad : Prop} [Decidable bad] {e : ByteString} {l : Loading α}
    {p : Decoder α} (h : ¬bad → Refines m data l p) :
    Refines m data (Loading.failIf bad e >>= fun _ => l) (failIf bad e >>= fun _ => p) :=
  fun r hr => .passes fun hgood => h hgood r hr

theorem Refines.window (hm : m.Holds data) {pos n : ℕ} (hwithin : pos + n ≤ data.length)
    {l : ByteString → Loading α} {p : Decoder α}
    (h : Refines m data (l ((data.drop pos).take n)) p) :
    Refines m data (Loading.window pos n >>= l) p :=
  fun r hr => .window hm hwithin (h r hr)

theorem Refines.guarded {l : Loading α} {p : Decoder α} (h : Refines m data l p) :
    Refines m data (Loading.guarded l) p :=
  fun r hr => .remaining hr (h r hr)

theorem Refines.map {f : α → β} {l : Loading α} {p : Decoder α} (h : Refines m data l p) :
    Refines m data (f <$> l) (f <$> p) := by
  rw [map_eq_pure_bind, map_eq_pure_bind]
  exact h.bind fun a => .pure (f a)

/-- A read that looks at what remains, and then advances. -/
theorem RefinesAt.advance {error : String} {n : ℕ} {v : α} {l : Loading α}
    {read : ByteReader → Option α × ByteReader} (hr : r.Inside data)
    (hread : read r = if r.need n then (some v, r.advance n) else (none, r))
    (hload : l r.cursor m =
      some (if r.need n then .ok (v, (r.advance n).cursor) else .error (text error))) :
    RefinesAt m data l (Decoder.read read error) r := by
  by_cases hn : r.need n = true
  · have hdecode : Decoder.read read error r = .ok (v, r.advance n) := by
      rw [Decoder.read, hread, if_pos hn]
    refine ⟨by rw [hload, if_pos hn, hdecode]; rfl, fun a t h => ?_⟩
    obtain ⟨-, rfl⟩ := Prod.mk.inj (Except.ok.inj (hdecode.symm.trans h))
    refine ⟨hr.1, ?_⟩
    have hpos := hr.2
    rw [ByteReader.need, Bool.and_eq_true, decide_eq_true_eq, ByteReader.remaining, hr.1] at hn
    show r.pos + n ≤ data.length
    omega
  · have hdecode : Decoder.read read error r = .error (text error) := by
      rw [Decoder.read, hread, if_neg hn]
    refine ⟨by rw [hload, if_neg hn, hdecode]; rfl, fun a t h => ?_⟩
    cases hdecode.symm.trans h

theorem refines_read (hm : m.Holds data) {n : ℕ} {value : ByteString → α} {error : String}
    {read : ByteReader → Option α × ByteReader}
    (hread : ∀ r, read r = if r.need n then (some (value (r.rest.take n)), r.advance n)
      else (none, r)) :
    Refines m data (Loading.read n value error) (Decoder.read read error) := by
  rintro r ⟨rfl, hpos⟩
  refine .advance ⟨rfl, hpos⟩ (hread r) ?_
  have hneed : r.cursor.need n = r.need n := rfl
  rw [Loading.read, hneed]
  by_cases hn : r.need n = true
  · have hwithin : r.pos + n ≤ r.data.length := by
      rw [ByteReader.need, Bool.and_eq_true, decide_eq_true_eq, ByteReader.remaining] at hn
      omega
    have hbytes : m.fetch r.cursor.pos n = some (r.rest.take n) := hm.fetch hwithin
    rw [if_pos hn, if_pos hn, hbytes]
    rfl
  · rw [if_neg hn, if_neg hn]

variable {error : String}

theorem refines_u8 (hm : m.Holds data) :
    Refines m data (Loading.u8 error) (Decoder.read ByteReader.u8 error) := by
  refine refines_read hm fun r => ?_
  have hhead : (r.rest.take 1).headD 0 = r.rest.headD 0 := by
    cases r.rest <;> rfl
  rw [hhead]
  rfl

theorem refines_u32 (hm : m.Holds data) :
    Refines m data (Loading.u32 error) (Decoder.read ByteReader.u32 error) :=
  refines_read hm fun _ => rfl

theorem refines_u64 (hm : m.Holds data) :
    Refines m data (Loading.u64 error) (Decoder.read ByteReader.u64 error) :=
  refines_read hm fun _ => rfl

theorem refines_enum (hm : m.Holds data) {ofCode? : UInt8 → Option α} {truncated invalid : String} :
    Refines m data (Loading.enum ofCode? truncated invalid)
      (Decoder.enum ofCode? truncated invalid) := by
  refine (refines_u8 hm).bind fun c => ?_
  cases ofCode? c with
  | none => exact fun r hr => .throw _
  | some a => exact .pure a

end

end ExecutionFabric
