import ExecutionFabric.Digest.Conformance

/-!
The buffer of the hash, and the blocks it hands to `transform`.

A `Hasher` has the 64 bytes of `buf_` in memory, whatever they were before the
first store, and writes down every store with its index and every call of
`transform` with the number of bytes in the buffer and the bytes. It does what
the `State` of the hash does, of whose buffer only the used part is kept
(`Hasher.Holds`). So the stores stay inside, and the blocks are the message and
its padding, cut into pieces. The padding of a message can be taken off again,
wrong as the length in it is, and different messages are different blocks
(`preprocessing_injective`).
-/

namespace ExecutionFabric.Sha256

/-- What is done to the buffer: a store at an index, or a call of `transform`
when so many bytes are in it. -/
inductive Action
  | store (index : ℕ)
  | transform (bufLen : ℕ) (block : ByteString)

/-- A `Sha256` object, with what it has done so far. -/
structure Hasher where
  h : Words := State.h {}
  buf : List.Vector UInt8 64
  bufLen : ℕ := 0
  totalLen : UInt64 := 0
  log : List Action := []

namespace Hasher

/-- `buf_[index] = b`. -/
def store (s : Hasher) (index : ℕ) (b : UInt8) : Hasher :=
  { s with
    buf := if h : index < 64 then s.buf.set ⟨index, h⟩ b else s.buf
    log := s.log ++ [.store index] }

/-- `buf_[buf_len_++] = b`. -/
def put (s : Hasher) (b : UInt8) : Hasher := { s.store s.bufLen b with bufLen := s.bufLen + 1 }

/-- `transform(buf_)`. -/
def transform (s : Hasher) : Hasher :=
  let t := State.transform { h := s.h, totalLen := s.totalLen } s.buf.toList
  { s with
    h := t.h
    totalLen := t.totalLen
    log := s.log ++ [.transform s.bufLen s.buf.toList] }

/-- `transform(buf_); buf_len_ = 0;` -/
def flush (s : Hasher) : Hasher := { s.transform with bufLen := 0 }

/-- The loop body of `update`. -/
def push (s : Hasher) (b : UInt8) : Hasher :=
  let s := s.put b
  if s.bufLen = 64 then s.flush else s

def update (s : Hasher) (data : ByteString) : Hasher := data.foldl push s

/-- `while (buf_len_ < n) { buf_[buf_len_++] = 0; }` -/
def fill (n : ℕ) (s : Hasher) : Hasher := if s.bufLen < n then fill n (s.put 0) else s
termination_by n - s.bufLen
decreasing_by
  show n - (s.bufLen + 1) < n - s.bufLen
  omega

/-- The stores of the length in bits. -/
def storeLength (s : Hasher) (bitlen : UInt64) (n : ℕ) : Hasher :=
  (List.range n).foldl (fun s i => s.store (63 - i) (bitlen >>> (8 * i).toUInt64).toUInt8) s

/-- `final`, up to the copy of the digest. -/
def final (s : Hasher) : Hasher :=
  let bitlen := s.totalLen * 8
  let s := s.put 0x80
  let s := if 56 < s.bufLen then (s.fill 64).flush else s
  ((s.fill 56).storeLength bitlen 8).transform

end Hasher

/-- The block of a call of `transform`. -/
def Action.block? : Action → Option ByteString
  | store _ => none
  | transform _ block => some block

/-- The action is a store inside the buffer, or a call of `transform` on a full
one. -/
def Action.Inside : Action → Prop
  | store index => index < 64
  | transform bufLen _ => bufLen = 64

namespace Hasher

/-- The blocks handed to `transform` so far. -/
def blocks (s : Hasher) : List ByteString := s.log.filterMap Action.block?

/-! ### Stores -/

/-- Between the two, there were only stores inside the buffer. -/
structure Stored (s t : Hasher) : Prop where
  h : t.h = s.h
  totalLen : t.totalLen = s.totalLen
  log : ∃ js : List ℕ, (∀ i ∈ js, i < 64) ∧ t.log = s.log ++ js.map Action.store

variable {s t u : Hasher} {xs : ByteString} {b : UInt8} {n : ℕ}

theorem Stored.refl (s : Hasher) : Stored s s := ⟨rfl, rfl, [], nofun, (List.append_nil _).symm⟩

theorem Stored.trans (hst : Stored s t) (htu : Stored t u) : Stored s u := by
  obtain ⟨is, his, hlog⟩ := hst.log
  obtain ⟨js, hjs, hlog'⟩ := htu.log
  refine ⟨htu.h.trans hst.h, htu.totalLen.trans hst.totalLen, is ++ js, ?_, ?_⟩
  · exact List.forall_mem_append.2 ⟨his, hjs⟩
  · rw [hlog', hlog, List.map_append, List.append_assoc]

theorem Stored.blocks (h : Stored s t) : t.blocks = s.blocks := by
  obtain ⟨js, -, hlog⟩ := h.log
  have hnone : (js.map Action.store).filterMap Action.block? = [] := by
    rw [List.filterMap_map, List.filterMap_eq_nil_iff]
    exact fun _ _ => rfl
  rw [Hasher.blocks, hlog, List.filterMap_append, hnone, List.append_nil, Hasher.blocks]

theorem Stored.inside (h : Stored s t) (hs : ∀ x ∈ s.log, x.Inside) : ∀ x ∈ t.log, x.Inside := by
  obtain ⟨js, hjs, hlog⟩ := h.log
  rw [hlog]
  exact List.forall_mem_append.2 ⟨hs, List.forall_mem_map.2 hjs⟩

/-- All stores were inside the buffer. -/
def Within (s : Hasher) : Prop := ∀ i, .store i ∈ s.log → i < 64

theorem Stored.within (h : Stored s t) (hs : s.Within) : t.Within := by
  obtain ⟨js, hjs, hlog⟩ := h.log
  intro i hi
  rw [hlog] at hi
  rcases List.mem_append.1 hi with hi | hi
  · exact hs i hi
  · obtain ⟨j, hj, hji⟩ := List.mem_map.1 hi
    obtain rfl := Action.store.inj hji
    exact hjs j hj

theorem stored_store (s : Hasher) {i : ℕ} (hi : i < 64) (b : UInt8) : Stored s (s.store i b) :=
  ⟨rfl, rfl, [i], List.forall_mem_singleton.2 hi, rfl⟩

theorem store_buf (s : Hasher) {i : ℕ} (hi : i < 64) (b : UInt8) :
    (s.store i b).buf.toList = s.buf.toList.take i ++ b :: s.buf.toList.drop (i + 1) := by
  have hlength : s.buf.toList.length = 64 := s.buf.toList_length
  have hset : (s.store i b).buf = s.buf.set ⟨i, hi⟩ b := dif_pos hi
  rw [hset, List.Vector.toList_set, List.set_eq_take_append_cons_drop, if_pos (by rwa [hlength])]

/-- The bytes in the buffer, from its beginning on, are `xs`. -/
structure Filled (s : Hasher) (xs : ByteString) : Prop where
  bufLen : s.bufLen = xs.length
  buf : s.buf.toList.take xs.length = xs

/-- A full buffer. -/
theorem Filled.full (h : Filled s xs) (hfull : xs.length = 64) : s.buf.toList = xs := by
  have hall := h.buf
  rwa [hfull, List.take_of_length_le s.buf.toList_length.le] at hall

theorem Filled.put (h : Filled s xs) (hroom : xs.length < 64) (b : UInt8) :
    Filled (s.put b) (xs ++ [b]) ∧ Stored s (s.put b) := by
  have hlt : s.bufLen < 64 := h.bufLen ▸ hroom
  refine ⟨⟨?_, ?_⟩, ?_⟩
  · show s.bufLen + 1 = _
    rw [h.bufLen, List.length_append, List.length_singleton]
  · show (s.store s.bufLen b).buf.toList.take _ = _
    rw [store_buf s hlt, h.bufLen, h.buf]
    exact (congrArg (List.take _) (List.append_cons xs b _)).trans (List.take_left' rfl)
  · obtain ⟨hh, htotal, hlog⟩ := stored_store s hlt b
    exact ⟨hh, htotal, hlog⟩

theorem Filled.fill (h : Filled s xs) (hn : n ≤ 64) :
    Filled (s.fill n) (padTo n xs) ∧ Stored s (s.fill n) := by
  fun_induction Hasher.fill n s generalizing xs with
  | case1 s hlt ih =>
      rw [h.bufLen] at hlt
      obtain ⟨hput, hstored⟩ := h.put (Nat.lt_of_lt_of_le hlt hn) 0
      obtain ⟨hfilled, hrest⟩ := ih hput
      have hpad : padTo n (xs ++ [0]) = padTo n xs := by
        obtain ⟨k, rfl⟩ := Nat.exists_eq_add_of_lt hlt
        have hk : xs.length + k + 1 - xs.length = k + 1 := by omega
        have hk' : xs.length + k + 1 - (xs ++ [0]).length = k := by
          rw [List.length_append, List.length_singleton]
          omega
        rw [padTo, padTo, hk, hk', List.replicate_succ, ← List.append_cons]
      rw [hpad] at hfilled
      exact ⟨hfilled, hstored.trans hrest⟩
  | case2 s hge =>
      have hpad : padTo n xs = xs := by
        rw [h.bufLen] at hge
        rw [padTo, Nat.sub_eq_zero_of_le (Nat.not_lt.1 hge), List.replicate_zero, List.append_nil]
      rw [hpad]
      exact ⟨h, .refl s⟩

/-- The stores of the length replace the end of the buffer, from behind. -/
theorem storeLength_buf (s : Hasher) (v : UInt64) (hn : n ≤ 8) :
    (s.storeLength v n).buf.toList = s.buf.toList.take (64 - n) ++ (lengthBytes v).drop (8 - n) ∧
      Stored s (s.storeLength v n) := by
  have hlength : s.buf.toList.length = 64 := s.buf.toList_length
  induction n with
  | zero =>
      refine ⟨?_, .refl s⟩
      rw [Nat.sub_zero, List.take_of_length_le hlength.le]
      exact (List.append_nil _).symm
  | succ n ih =>
      obtain ⟨hbuf, hstored⟩ := ih (Nat.le_of_succ_le hn)
      have hstep : s.storeLength v (n + 1) =
          (s.storeLength v n).store (63 - n) (v >>> (8 * n).toUInt64).toUInt8 := by
        rw [storeLength, List.range_succ, List.foldl_append]
        rfl
      have hindex : 63 - n < 64 := by omega
      have htake : (s.buf.toList.take (64 - n)).length = 63 - n + 1 := by
        rw [List.length_take, hlength]
        omega
      have hbyte : (lengthBytes v).drop (8 - (n + 1)) =
          (v >>> (8 * n).toUInt64).toUInt8 :: (lengthBytes v).drop (8 - n) := by
        have hin : 8 - (n + 1) < (lengthBytes v).length := by
          rw [length_lengthBytes]
          omega
        have hback : 7 - (8 - (n + 1)) = n := by omega
        have hnext : 8 - (n + 1) + 1 = 8 - n := by omega
        rw [List.drop_eq_getElem_cons hin, hnext]
        simp only [lengthBytes, List.getElem_map, List.getElem_range, hback]
      rw [hstep]
      refine ⟨?_, hstored.trans (stored_store _ hindex _)⟩
      rw [store_buf _ hindex, hbuf, List.drop_left' htake, hbyte,
        List.take_append_of_le_length (by omega), List.take_take]
      have hleft : min (63 - n) (64 - n) = 64 - (n + 1) := by omega
      rw [hleft]

/-! ### What is hashed -/

/-- The hasher is where the hash is, which has absorbed `m`. -/
structure Holds (m : ByteString) (s : Hasher) (t : State) : Prop where
  absorbed : Absorbed m t s.blocks
  h : s.h = t.h
  totalLen : s.totalLen = t.totalLen
  filled : Filled s t.buf
  inside : ∀ x ∈ s.log, x.Inside

theorem holds_start (buf : List.Vector UInt8 64) : Holds [] { buf } {} where
  absorbed := absorbed_nil
  h := rfl
  totalLen := rfl
  filled := ⟨rfl, rfl⟩
  inside := List.forall_mem_nil _

theorem transform_log (s : Hasher) :
    s.transform.log = s.log ++ [.transform s.bufLen s.buf.toList] := rfl

theorem flush_log (s : Hasher) :
    s.flush.log = s.log ++ [.transform s.bufLen s.buf.toList] := rfl

theorem blocks_of_log {block : ByteString} (hlog : u.log = s.log ++ [.transform n block]) :
    u.blocks = s.blocks ++ [block] := by
  rw [blocks, hlog, List.filterMap_append]
  rfl

theorem within_of_log {block : ByteString} (hlog : u.log = s.log ++ [.transform n block])
    (hs : s.Within) : u.Within := by
  intro i hi
  rw [hlog] at hi
  rcases List.mem_append.1 hi with hi | hi
  · exact hs i hi
  · cases List.mem_singleton.1 hi

theorem transform_h (s : Hasher) : s.transform.h = hashBlock s.h s.buf.toList := rfl

theorem flush_h (s : Hasher) : s.flush.h = hashBlock s.h s.buf.toList := rfl

theorem flush_totalLen (s : Hasher) : s.flush.totalLen = s.totalLen + 64 := rfl

theorem flush_filled (s : Hasher) : Filled s.flush [] := ⟨rfl, rfl⟩

theorem flush_inside (hs : ∀ x ∈ s.log, x.Inside) (hfull : s.bufLen = 64) :
    ∀ x ∈ s.flush.log, x.Inside := by
  intro x hx
  rw [flush_log] at hx
  rcases List.mem_append.1 hx with hx | hx
  · exact hs x hx
  · rw [List.mem_singleton.1 hx]
    exact hfull

variable {m : ByteString} {t : State}

theorem Holds.push (h : Holds m s t) (b : UInt8) : Holds (m ++ [b]) (s.push b) (t.push b) := by
  obtain ⟨hput, hstored⟩ := h.filled.put h.absorbed.short b
  by_cases hfull : (t.buf ++ [b]).length = 64
  · have hpush : s.push b = (s.put b).flush := if_pos (hput.bufLen.trans hfull)
    have hpush' : t.push b = { t.transform (t.buf ++ [b]) with buf := [] } := if_pos hfull
    have hblock := hput.full hfull
    have hblocks : (s.push b).blocks = s.blocks ++ [t.buf ++ [b]] := by
      rw [hpush, blocks_of_log (flush_log _), hblock, hstored.blocks]
    refine ⟨hblocks ▸ h.absorbed.push_full hfull, ?_, ?_, ?_, ?_⟩
    · rw [hpush, hpush', flush_h, hblock, hstored.h, h.h]
      rfl
    · rw [hpush, hpush', flush_totalLen, hstored.totalLen, h.totalLen]
      rfl
    · rw [hpush, hpush']
      exact flush_filled _
    · rw [hpush]
      exact flush_inside (hstored.inside h.inside) (hput.bufLen.trans hfull)
  · have hpush : s.push b = s.put b := if_neg (hput.bufLen ▸ hfull)
    have hpush' : t.push b = { t with buf := t.buf ++ [b] } := if_neg hfull
    have hblocks : (s.push b).blocks = s.blocks := by rw [hpush, hstored.blocks]
    refine ⟨hblocks ▸ h.absorbed.push_part hfull, ?_, ?_, ?_, ?_⟩
    · rw [hpush, hpush', hstored.h, h.h]
    · rw [hpush, hpush', hstored.totalLen, h.totalLen]
    · rw [hpush, hpush']
      exact hput
    · rw [hpush]
      exact hstored.inside h.inside

theorem Holds.update (h : Holds m s t) (data : ByteString) :
    Holds (m ++ data) (s.update data) (t.update data) := by
  induction data generalizing m s t with
  | nil => rwa [List.append_nil]
  | cons b data ih =>
      have hrest := ih (h.push b)
      rw [List.append_assoc] at hrest
      exact hrest

theorem Holds.updates (h : Holds m s t) (parts : List ByteString) :
    Holds (m ++ parts.flatten) (parts.foldl Hasher.update s) (parts.foldl State.update t) := by
  induction parts generalizing m s t with
  | nil => rwa [List.flatten_nil, List.append_nil]
  | cons data parts ih =>
      have hrest := ih (h.update data)
      rw [List.append_assoc] at hrest
      exact hrest

/-- The end of `final`: the last block is padded, gets the length, and is
hashed. -/
theorem Filled.last (h : Filled s xs) (hroom : xs.length ≤ 56) (hs : s.Within) (v : UInt64) :
    let u := ((s.fill 56).storeLength v 8).transform
    u.Within ∧ u.blocks = s.blocks ++ [padTo 56 xs ++ lengthBytes v] ∧
      u.h = hashBlock s.h (padTo 56 xs ++ lengthBytes v) := by
  obtain ⟨hfilled, hfill⟩ := h.fill (n := 56) (by decide)
  obtain ⟨hbuf, hlength⟩ := storeLength_buf (s.fill 56) v (n := 8) le_rfl
  have hstored := hfill.trans hlength
  have hblock : ((s.fill 56).storeLength v 8).buf.toList = padTo 56 xs ++ lengthBytes v := by
    have hpad := hfilled.buf
    rw [length_padTo hroom] at hpad
    rw [hbuf, hpad]
    rfl
  refine ⟨within_of_log (transform_log _) (hstored.within hs), ?_, ?_⟩
  · rw [blocks_of_log (transform_log _), hblock, hstored.blocks]
  · rw [transform_h, hblock, hstored.h]

/-- What `final` stores stays inside, and what it hands to `transform` are the
last blocks. -/
theorem Holds.final (h : Holds m s t) :
    s.final.Within ∧ s.final.blocks = s.blocks ++ t.last ∧ s.final.h.bytes = t.final := by
  have hs : s.Within := fun i hi => h.inside _ hi
  obtain ⟨hput, hstored⟩ := h.filled.put h.absorbed.short 0x80
  have hlength : (t.buf ++ [0x80]).length = t.buf.length + 1 := List.length_append
  have hshort := h.absorbed.short
  have hlen : (s.put 0x80).bufLen = (t.buf ++ [0x80]).length := hput.bufLen
  rw [final_last]
  by_cases hlong : 56 < (t.buf ++ [0x80]).length
  · -- a block for the rest of the message, and one for the length
    have hfinal : s.final =
        ((((s.put 0x80).fill 64).flush.fill 56).storeLength (s.totalLen * 8) 8).transform := by
      have hbranch : 56 < (s.put 0x80).bufLen := hlen ▸ hlong
      simp only [Hasher.final, if_pos hbranch]
    have hlast : t.last = [padTo 64 (t.buf ++ [0x80]),
        padTo 56 [] ++ lengthBytes (t.totalLen * 8)] := if_pos hlong
    obtain ⟨hfilled, hfill⟩ := hput.fill (n := 64) le_rfl
    have hblock := hfilled.full (length_padTo (by omega))
    have hall := hstored.trans hfill
    obtain ⟨hwithin, hblocks, hh⟩ :=
      (flush_filled _).last (Nat.zero_le 56) (within_of_log (flush_log _) (hall.within hs))
        (s.totalLen * 8)
    rw [hfinal, hlast]
    refine ⟨hwithin, ?_, ?_⟩
    · rw [hblocks, blocks_of_log (flush_log _), hblock, hall.blocks, h.totalLen, List.append_assoc]
      rfl
    · rw [hh, flush_h, hblock, hall.h, h.h, h.totalLen]
      rfl
  · have hfinal : s.final = (((s.put 0x80).fill 56).storeLength (s.totalLen * 8) 8).transform := by
      have hbranch : ¬56 < (s.put 0x80).bufLen := hlen ▸ hlong
      simp only [Hasher.final, if_neg hbranch]
    have hlast : t.last = [padTo 56 (t.buf ++ [0x80]) ++ lengthBytes (t.totalLen * 8)] :=
      if_neg hlong
    obtain ⟨hwithin, hblocks, hh⟩ :=
      hput.last (Nat.not_lt.1 hlong) (hstored.within hs) (s.totalLen * 8)
    rw [hfinal, hlast]
    refine ⟨hwithin, ?_, ?_⟩
    · rw [hblocks, hstored.blocks, h.totalLen]
    · rw [hh, hstored.h, h.h, h.totalLen]
      rfl

/-- A hasher that was given the parts of a message, and was then finished. -/
def finish (buf : List.Vector UInt8 64) (parts : List ByteString) : Hasher :=
  (parts.foldl Hasher.update { buf }).final

end Hasher

/-- The blocks of a message and its padding. -/
def paddedBlocks (m : ByteString) : List ByteString :=
  SecureHash.parse 64 (m ++ (State.update {} m).padding)

variable {buf : List.Vector UInt8 64} {parts : List ByteString} {m m' : ByteString}

theorem holds_updates (buf : List.Vector UInt8 64) (parts : List ByteString) :
    Hasher.Holds parts.flatten (parts.foldl Hasher.update { buf }) (State.update {} parts.flatten) := by
  have hsame : State.update {} parts.flatten = parts.foldl State.update {} := List.foldl_flatten
  rw [hsame]
  exact (Hasher.holds_start buf).updates parts

/-- The blocks of a message flatten to it and its padding. -/
theorem flatten_blocks (buf : List.Vector UInt8 64) (parts : List ByteString) :
    (∀ b ∈ (Hasher.finish buf parts).blocks, b.length = 64) ∧
      (Hasher.finish buf parts).blocks.flatten =
        parts.flatten ++ (State.update {} parts.flatten).padding := by
  have h := holds_updates buf parts
  have hshort := h.absorbed.short
  rw [Hasher.finish, h.final.2.1]
  refine ⟨List.forall_mem_append.2 ⟨h.absorbed.whole, last_whole hshort⟩, ?_⟩
  rw [List.flatten_append, last_flatten hshort, ← List.append_assoc, ← h.absorbed.message]

/-- They depend on nothing else. -/
theorem blocks_eq (buf : List.Vector UInt8 64) (parts : List ByteString) :
    (Hasher.finish buf parts).blocks = paddedBlocks parts.flatten := by
  obtain ⟨hwhole, hflatten⟩ := flatten_blocks buf parts
  rw [paddedBlocks, ← hflatten, SecureHash.parse_flatten (by decide) hwhole]

theorem paddedBlocks_flatten (m : ByteString) :
    (paddedBlocks m).flatten = m ++ (State.update {} m).padding := by
  have hblocks := flatten_blocks (List.Vector.replicate 64 0) [m]
  rw [blocks_eq] at hblocks
  simpa using hblocks.2

/-- The padding can be taken off again: the length, the zeros, and the mark. -/
theorem paddedBlocks_injective : Function.Injective paddedBlocks := by
  intro m m' h
  have hflat := congrArg List.flatten h
  rw [paddedBlocks_flatten, paddedBlocks_flatten, State.padding, State.padding,
    ← List.cons_append, ← List.cons_append, ← List.append_assoc, ← List.append_assoc] at hflat
  exact SecureHash.append_mark_inj (by decide) (List.append_inj' hflat rfl).1

/-- The digest is what the chain of the blocks leads to. -/
theorem digest_eq (m : ByteString) :
    digest m = ((paddedBlocks m).foldl hashBlock (State.h {})).bytes := by
  have h := holds_updates (List.Vector.replicate 64 0) [m]
  have hblocks := blocks_eq (List.Vector.replicate 64 0) [m]
  rw [List.flatten_singleton] at h hblocks
  rw [← hblocks, Hasher.finish, h.final.2.1, List.foldl_append, ← h.absorbed.hashed, ← final_last]
  rfl

theorem bytes_injective : Function.Injective Words.bytes := by
  intro v w h
  have hwords : v.words = w.words := by
    refine SecureHash.Words.bytes_injective ?_
    rw [← bytes_eq, ← bytes_eq, h]
  obtain ⟨a, b, c, d, e, f, g, h'⟩ := v
  simp only [Words.words, SecureHash.Words.mk.injEq, UInt32.toBitVec_inj] at hwords
  obtain ⟨rfl, rfl, rfl, rfl, rfl, rfl, rfl, rfl⟩ := hwords
  rfl

end ExecutionFabric.Sha256

namespace ExecutionFabric

open Sha256

/-- The buffer is stored to inside its bounds, and is full whenever `update`
calls `transform`. The blocks depend on the message, not on how it is split or
what was in the buffer, and different messages have different blocks. So two
messages have the same digest exactly when the chains of their blocks meet. -/
theorem preprocessing_injective :
    (∀ buf parts, (∀ x ∈ (parts.foldl Hasher.update { buf }).log, x.Inside) ∧
      (Hasher.finish buf parts).Within) ∧
    (∀ buf buf' parts parts', (Hasher.finish buf parts).blocks = (Hasher.finish buf' parts').blocks ↔
      parts.flatten = parts'.flatten) ∧
    ∀ buf buf' parts parts', ResultDigest.of parts.flatten = ResultDigest.of parts'.flatten ↔
      (Hasher.finish buf parts).blocks.foldl hashBlock (State.h {}) =
        (Hasher.finish buf' parts').blocks.foldl hashBlock (State.h {}) := by
  refine ⟨fun buf parts => ?_, fun buf buf' parts parts' => ?_, fun buf buf' parts parts' => ?_⟩
  · have h := holds_updates buf parts
    exact ⟨h.inside, h.final.1⟩
  · rw [blocks_eq, blocks_eq]
    exact paddedBlocks_injective.eq_iff
  · rw [blocks_eq, blocks_eq, ← bytes_injective.eq_iff, ← digest_eq, ← digest_eq]
    exact ⟨congrArg ResultDigest.bytes, congrArg ResultDigest.mk⟩

end ExecutionFabric
