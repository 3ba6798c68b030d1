import ExecutionFabric.Digest
import ExecutionFabric.Library.SecureHash

/-!
The fingerprint, and the hash it is meant to be.

Two things keep the code from it. One constant of the table differs from the
standard's in its last digit, so no block is hashed to what it should be. And
the length in the padding counts the blocks that were hashed before it, not the
bytes that are left in the buffer. All else agrees: the words of a block, the
message schedule, the rounds, the blocks a message is cut into however it
arrives, and the bytes of the digest.
-/

namespace ExecutionFabric

namespace Sha256

open Reading

/-! ### One block -/

/-- The hash value, as the standard writes it. -/
def Words.words (v : Words) : SecureHash.Words where
  a := v.a.toBitVec
  b := v.b.toBitVec
  c := v.c.toBitVec
  d := v.d.toBitVec
  e := v.e.toBitVec
  f := v.f.toBitVec
  g := v.g.toBitVec
  h := v.h.toBitVec

/-- The constant of round `t`. -/
def constant (t : ℕ) : SecureHash.Word := (K.getD t 0).toBitVec

/-- All but one constant are those of the standard. -/
theorem constant_eq : ∀ t < 64, t ≠ 25 → constant t = SecureHash.constant t := by decide +kernel

theorem constant_ne : constant 25 ≠ SecureHash.constant 25 := by decide +kernel

theorem initial_eq : (State.h {}).words = SecureHash.initial := by
  simp only [Words.words, SecureHash.initial, SecureHash.Words.mk.injEq]
  decide +kernel

theorem toNat_byteAt {b : UInt8} {k : UInt32} {n : ℕ} (hk : k.toNat = n) (hn : n ≤ 24) :
    (b.toUInt32 <<< k).toNat = b.toNat <<< n := by
  have hsmall : b.toNat <<< n < 2 ^ 32 := by
    rw [Nat.shiftLeft_eq]
    calc b.toNat * 2 ^ n < 2 ^ 8 * 2 ^ n :=
          Nat.mul_lt_mul_of_pos_right b.toNat_lt (Nat.two_pow_pos _)
      _ ≤ 2 ^ 8 * 2 ^ 24 := Nat.mul_le_mul_left _ (Nat.pow_le_pow_right (by decide) hn)
  have hn32 : n % 32 = n := Nat.mod_eq_of_lt (by omega)
  rw [UInt32.toNat_shiftLeft, UInt8.toNat_toUInt32, hk, hn32, Nat.mod_eq_of_lt hsmall]

theorem leValue_four (b₀ b₁ b₂ b₃ : UInt8) :
    leValue [b₃, b₂, b₁, b₀] =
      b₀.toNat <<< (8 + 8 + 8) ||| b₁.toNat <<< (8 + 8) ||| b₂.toNat <<< 8 ||| b₃.toNat := by
  show b₃.toNat ||| (b₂.toNat ||| (b₁.toNat ||| (b₀.toNat ||| 0 <<< 8) <<< 8) <<< 8) <<< 8 = _
  generalize b₀.toNat = a, b₁.toNat = b, b₂.toNat = c, b₃.toNat = d
  rw [Nat.zero_shiftLeft, Nat.or_zero, Nat.shiftLeft_or_distrib, Nat.shiftLeft_or_distrib,
    Nat.shiftLeft_or_distrib, ← Nat.shiftLeft_add, ← Nat.shiftLeft_add, ← Nat.shiftLeft_add, Nat.or_comm d, Nat.or_comm (c <<< 8), Nat.or_comm (b <<< _)]

theorem toNat_bigEndian (b₀ b₁ b₂ b₃ : UInt8) :
    ((b₀.toUInt32 <<< 24) ||| (b₁.toUInt32 <<< 16) ||| (b₂.toUInt32 <<< 8) ||| b₃.toUInt32).toNat =
      leValue [b₃, b₂, b₁, b₀] := by
  rw [UInt32.toNat_or, UInt32.toNat_or, UInt32.toNat_or, toNat_byteAt rfl (by decide),
    toNat_byteAt rfl (by decide), toNat_byteAt rfl (by decide), UInt8.toNat_toUInt32, leValue_four]
  rfl

theorem word_eq {block : ByteString} (hsize : block.length = 64) {i : ℕ} (hi : i < 16) :
    (word block i).toBitVec = SecureHash.word block i := by
  have hbyte : ∀ k, block.getD (i * 4 + k) 0 = (block.drop (4 * i)).getD k 0 := fun k => by
    simp only [List.getD_eq_getElem?_getD, List.getElem?_drop, Nat.mul_comm]
  have hlength : 4 ≤ (block.drop (4 * i)).length := by
    rw [List.length_drop]
    omega
  apply BitVec.eq_of_toNat_eq
  simp only [word, SecureHash.word, hbyte, BitVec.toNat_ofNat, SecureHash.beValue]
  match block.drop (4 * i), hlength with
  | b₀ :: b₁ :: b₂ :: b₃ :: rest, _ =>
    exact (toNat_bigEndian b₀ b₁ b₂ b₃).trans (Nat.mod_eq_of_lt (leValue_lt [b₃, b₂, b₁, b₀])).symm

/-- The word that `extend` adds is the next one of the message schedule. -/
theorem extend_eq (M : ℕ → SecureHash.Word) (n : ℕ) :
    extend ((List.range (n + 16)).map fun t => ⟨SecureHash.schedule M t⟩) =
      (List.range (n + 1 + 16)).map fun t => ⟨SecureHash.schedule M t⟩ := by
  have hat : ∀ i < n + 16, ((List.range (n + 16)).map fun t =>
      (⟨SecureHash.schedule M t⟩ : UInt32)).getD i 0 = ⟨SecureHash.schedule M i⟩ := fun i hi => by
    rw [List.getD_eq_getElem?_getD, List.getElem?_map, List.getElem?_range hi]
    rfl
  have hlast : List.range (n + 1 + 16) = List.range (n + 16) ++ [n + 16] := by
    rw [Nat.add_right_comm n 1 16]
    exact List.range_succ
  have hword : SecureHash.schedule M (n + 16) = SecureHash.schedule M n
      + SecureHash.smallSigma0 (SecureHash.schedule M (n + 1)) + SecureHash.schedule M (n + 9)
      + SecureHash.smallSigma1 (SecureHash.schedule M (n + 14)) := by
    rw [SecureHash.schedule]
    ac_rfl
  rw [extend, List.length_map, List.length_range, hat _ (by omega), hat _ (by omega),
    hat _ (by omega), hat _ (by omega), hlast, List.map_append]
  refine congrArg ((List.range (n + 16)).map _ ++ [·]) (UInt32.toBitVec_inj.1 ?_)
  exact hword.symm

theorem schedule_eq {block : ByteString} (hsize : block.length = 64) :
    schedule block =
      (List.range 64).map fun t => ⟨SecureHash.schedule (SecureHash.word block) t⟩ := by
  have hextend : ∀ n, extend^[n] ((List.range 16).map (word block)) =
      (List.range (n + 16)).map fun t => ⟨SecureHash.schedule (SecureHash.word block) t⟩ := by
    intro n
    induction n with
    | zero =>
        refine List.map_congr_left fun i hi => UInt32.toBitVec_inj.1 ?_
        have hi16 : i < 16 := List.mem_range.1 hi
        rw [word_eq hsize hi16, SecureHash.schedule]
        intro t ht
        omega
    | succ n ih => rw [Function.iterate_succ_apply', ih, extend_eq]
  exact hextend 48

/-- A block is hashed as the standard has it, with the constants of the source. -/
theorem transform_eq (s : State) {block : ByteString} (hsize : block.length = 64) :
    (s.transform block).h.words = SecureHash.compress constant s.h.words block := by
  have hkeys : (K.zip (schedule block)).map (fun kw => (kw.1.toBitVec, kw.2.toBitVec)) =
      SecureHash.keys constant block := by
    have hK : K = (List.range 64).map fun t => K.getD t 0 := rfl
    rw [schedule_eq hsize, hK, List.zip_map', List.map_map]
    rfl
  have hrounds : ∀ (kws : List (UInt32 × UInt32)) (v : Words), (kws.foldl round v).words =
      SecureHash.rounds v.words (kws.map fun kw => (kw.1.toBitVec, kw.2.toBitVec)) := by
    intro kws
    induction kws with
    | nil => exact fun v => rfl
    | cons kw kws ih => exact fun v => ih (round v kw)
  rw [SecureHash.compress, ← hkeys, ← hrounds, State.transform]
  generalize (K.zip (schedule block)).foldl round s.h = v
  rfl

/-! ### A whole message -/

/-- One block more. -/
def hashBlock (v : Words) (block : ByteString) : Words := (State.transform { h := v } block).h

/-- What `final` puts behind the message. -/
def State.padding (s : State) : ByteString :=
  0x80 :: (List.replicate (SecureHash.zeros s.buf.length) 0 ++ lengthBytes (s.totalLen * 8))

/-- The message so far is a row of blocks, which are hashed, and what is in the
buffer. -/
structure Absorbed (m : ByteString) (s : State) (blocks : List ByteString) : Prop where
  message : m = blocks.flatten ++ s.buf
  whole : ∀ b ∈ blocks, b.length = 64
  short : s.buf.length < 64
  hashed : s.h = blocks.foldl hashBlock (State.h {})
  counted : s.totalLen = (64 * blocks.length).toUInt64

theorem absorbed_nil : Absorbed [] {} [] where
  message := rfl
  whole := nofun
  short := by decide
  hashed := rfl
  counted := rfl

/-- A byte that fills the buffer. -/
theorem Absorbed.push_full {m : ByteString} {s : State} {blocks : List ByteString}
    (h : Absorbed m s blocks) {b : UInt8} (hfull : (s.buf ++ [b]).length = 64) :
    Absorbed (m ++ [b]) (s.push b) (blocks ++ [s.buf ++ [b]]) := by
  have hpush : s.push b = { s.transform (s.buf ++ [b]) with buf := [] } := if_pos hfull
  rw [hpush]
  refine ⟨?_, ?_, Nat.zero_lt_succ _, ?_, ?_⟩
  · rw [h.message]
    simp
  · exact List.forall_mem_append.2 ⟨h.whole, List.forall_mem_singleton.2 hfull⟩
  · rw [List.foldl_append, ← h.hashed]
    rfl
  · show s.totalLen + 64 = _
    rw [h.counted, List.length_append, Nat.mul_add]
    exact (UInt64.ofNat_add (64 * blocks.length) 64).symm

/-- A byte that leaves room for others. -/
theorem Absorbed.push_part {m : ByteString} {s : State} {blocks : List ByteString}
    (h : Absorbed m s blocks) {b : UInt8} (hpart : (s.buf ++ [b]).length ≠ 64) :
    Absorbed (m ++ [b]) (s.push b) blocks := by
  have hpush : s.push b = { s with buf := s.buf ++ [b] } := if_neg hpart
  have hlength : (s.buf ++ [b]).length = s.buf.length + 1 := List.length_append
  have hshort := h.short
  have hstill : (s.buf ++ [b]).length < 64 := by omega
  rw [hpush]
  refine ⟨?_, h.whole, hstill, h.hashed, h.counted⟩
  rw [h.message, List.append_assoc]

theorem Absorbed.push {m : ByteString} {s : State} {blocks : List ByteString}
    (h : Absorbed m s blocks) (b : UInt8) : ∃ blocks', Absorbed (m ++ [b]) (s.push b) blocks' := by
  by_cases hfull : (s.buf ++ [b]).length = 64
  · exact ⟨_, h.push_full hfull⟩
  · exact ⟨_, h.push_part hfull⟩

theorem Absorbed.update {m : ByteString} {s : State} {blocks : List ByteString}
    (h : Absorbed m s blocks) (data : ByteString) :
    ∃ blocks', Absorbed (m ++ data) (s.update data) blocks' := by
  induction data generalizing m s blocks with
  | nil => exact ⟨blocks, by rwa [List.append_nil]⟩
  | cons b data ih =>
      obtain ⟨blocks', hpush⟩ := h.push b
      obtain ⟨blocks'', hrest⟩ := ih hpush
      rw [List.append_assoc] at hrest
      exact ⟨blocks'', hrest⟩

/-- However the message is split, it is absorbed. -/
theorem absorbed_updates (parts : List ByteString) :
    ∃ blocks, Absorbed parts.flatten (parts.foldl State.update {}) blocks := by
  have hrun : ∀ {m s blocks}, Absorbed m s blocks →
      ∃ blocks', Absorbed (m ++ parts.flatten) (parts.foldl State.update s) blocks' := by
    induction parts with
    | nil => exact fun {m s blocks} h => ⟨blocks, by rwa [List.flatten_nil, List.append_nil]⟩
    | cons data parts ih =>
        intro m s blocks h
        obtain ⟨blocks', hdata⟩ := h.update data
        obtain ⟨blocks'', hrest⟩ := ih hdata
        rw [List.append_assoc] at hrest
        exact ⟨blocks'', hrest⟩
  exact hrun absorbed_nil

theorem length_lengthBytes (v : UInt64) : (lengthBytes v).length = 8 := rfl

theorem length_padTo {n : ℕ} {buf : ByteString} (h : buf.length ≤ n) :
    (padTo n buf).length = n := by
  rw [padTo, List.length_append, List.length_replicate]
  omega

/-- The blocks that `final` hashes, one or two. -/
def State.last (s : State) : List ByteString :=
  let buf := s.buf ++ [0x80]
  if 56 < buf.length then [padTo 64 buf, padTo 56 [] ++ lengthBytes (s.totalLen * 8)]
  else [padTo 56 buf ++ lengthBytes (s.totalLen * 8)]

theorem final_last (s : State) : s.final = (s.last.foldl hashBlock s.h).bytes := by
  by_cases hlong : 56 < (s.buf ++ [0x80]).length
  · simp only [State.final, State.last, if_pos hlong]
    rfl
  · simp only [State.final, State.last, if_neg hlong]
    rfl

/-- They hold what is in the buffer, and the padding. -/
theorem last_flatten {s : State} (hshort : s.buf.length < 64) :
    s.last.flatten = s.buf ++ s.padding := by
  have hlength : (s.buf ++ [0x80]).length = s.buf.length + 1 := List.length_append
  by_cases hlong : 56 < (s.buf ++ [0x80]).length
  · have hzeros : SecureHash.zeros s.buf.length = (64 - (s.buf ++ [0x80]).length) + 56 := by
      rw [SecureHash.zeros]
      omega
    simp only [State.last, if_pos hlong]
    rw [State.padding, hzeros, List.replicate_add]
    simp [padTo]
  · have hzeros : SecureHash.zeros s.buf.length = 56 - (s.buf ++ [0x80]).length := by
      rw [SecureHash.zeros]
      omega
    simp only [State.last, if_neg hlong]
    rw [State.padding, hzeros]
    simp [padTo]

theorem last_whole {s : State} (hshort : s.buf.length < 64) : ∀ b ∈ s.last, b.length = 64 := by
  have hlength : (s.buf ++ [0x80]).length = s.buf.length + 1 := List.length_append
  by_cases hlong : 56 < (s.buf ++ [0x80]).length
  · simp only [State.last, if_pos hlong, List.forall_mem_cons]
    refine ⟨length_padTo (by omega), ?_, nofun⟩
    rw [List.length_append, length_padTo (by decide), length_lengthBytes]
  · simp only [State.last, if_neg hlong]
    refine List.forall_mem_singleton.2 ?_
    rw [List.length_append, length_padTo (by omega), length_lengthBytes]

/-- `final` hashes what is in the buffer, and the padding. -/
theorem final_blocks {s : State} (hshort : s.buf.length < 64) :
    ∃ last : List ByteString, (∀ b ∈ last, b.length = 64) ∧
      last.flatten = s.buf ++ s.padding ∧ s.final = (last.foldl hashBlock s.h).bytes :=
  ⟨s.last, last_whole hshort, last_flatten hshort, final_last s⟩

/-- The hash values that the run goes through, block by block. -/
def hashValues (parts : List ByteString) : List Words :=
  (SecureHash.parse 64 (parts.flatten ++ (parts.foldl State.update {}).padding)).scanl hashBlock
    (State.h {})

/-- The digest is the last of the hash values. -/
theorem final_eq (parts : List ByteString) :
    (hashValues parts).getLast?.map Words.bytes = some (parts.foldl State.update {}).final := by
  obtain ⟨blocks, h⟩ := absorbed_updates parts
  obtain ⟨last, hwhole, hflatten, hfinal⟩ := final_blocks h.short
  have hblocks : SecureHash.parse 64 (parts.flatten ++ (parts.foldl State.update {}).padding) =
      blocks ++ last := by
    rw [h.message, List.append_assoc, ← hflatten, ← List.flatten_append]
    exact SecureHash.parse_flatten (by decide) (List.forall_mem_append.2 ⟨h.whole, hwhole⟩)
  rw [hashValues, hblocks, List.getLast?_scanl, List.foldl_append, ← h.hashed, hfinal]
  rfl

theorem lengthBytes_eq (v : UInt64) : lengthBytes v = SecureHash.beBytes 8 v.toNat := by
  refine List.ext_getElem rfl fun i hi hi' => ?_
  have hshift : (8 * (7 - i)).toUInt64.toNat = 8 * (7 - i) := by
    rw [UInt64.toNat_ofNat']
    omega
  simp only [lengthBytes, SecureHash.beBytes, List.getElem_map, List.getElem_range,
    List.getElem_reverse, getElem_leBytes, length_leBytes]
  have hback : 8 - 1 - i = 7 - i := by omega
  have hsmall : 8 * (7 - i) % 64 = 8 * (7 - i) := by omega
  rw [← UInt8.toNat_inj, UInt64.toNat_toUInt8, UInt64.toNat_shiftRight, hshift, hsmall, hback]
  exact (UInt8.toNat_ofNat').symm

theorem wordBytes_eq (v : UInt32) : wordBytes v = SecureHash.beBytes 4 v.toBitVec.toNat := by
  have hbyte : ∀ {k : UInt32} {n : ℕ}, k.toNat % 32 = n →
      (v >>> k).toUInt8 = (v.toNat >>> n).toUInt8 := fun {k n} hk => by
    rw [← UInt8.toNat_inj, UInt32.toNat_toUInt8, UInt32.toNat_shiftRight, hk]
    exact (UInt8.toNat_ofNat').symm
  have hlast : v.toUInt8 = v.toNat.toUInt8 := by
    rw [← UInt8.toNat_inj, UInt32.toNat_toUInt8]
    exact (UInt8.toNat_ofNat').symm
  rw [wordBytes, @hbyte 24 (8 + 8 + 8) rfl, @hbyte 16 (8 + 8) rfl, @hbyte 8 8 rfl, hlast]
  simp only [Nat.shiftRight_add]
  rfl

theorem bytes_eq (v : Words) : v.bytes.toList = v.words.bytes := by
  show [v.a, v.b, v.c, v.d, v.e, v.f, v.g, v.h].flatMap wordBytes = _
  simp only [List.flatMap_cons, wordBytes_eq]
  rfl

/-- The padding carries the length of the message only if no byte of it is left
in the buffer. -/
theorem padding_iff {parts : List ByteString} (hlength : parts.flatten.length < 2 ^ 61) :
    (parts.foldl State.update {}).padding = SecureHash.padding parts.flatten.length ↔
      64 ∣ parts.flatten.length := by
  obtain ⟨blocks, h⟩ := absorbed_updates parts
  generalize parts.foldl State.update {} = s at h ⊢
  have hblocks : blocks.flatten.length = 64 * blocks.length := by
    rw [List.length_flatten, List.map_congr_left h.whole, List.map_const', List.sum_replicate_nat,
      Nat.mul_comm]
  have hcount : parts.flatten.length = 64 * blocks.length + s.buf.length := by
    rw [h.message, List.length_append, hblocks]
  have hshort := h.short
  have hzeros : SecureHash.zeros s.buf.length = SecureHash.zeros parts.flatten.length := by
    unfold SecureHash.zeros
    omega
  have hbits : (s.totalLen * 8).toNat = 8 * (64 * blocks.length) := by
    rw [h.counted, UInt64.toNat_mul, UInt64.toNat_ofNat']
    show 64 * blocks.length % 2 ^ 64 * 8 % 2 ^ 64 = _
    omega
  rw [State.padding, SecureHash.padding, lengthBytes_eq, hbits, hzeros, List.cons_inj_right,
    List.append_cancel_left_eq, SecureHash.beBytes_inj (by omega) (by omega)]
  omega

theorem hashBlock_eq (v : Words) {block : ByteString} (hsize : block.length = 64) :
    (hashBlock v block).words = SecureHash.compress constant v.words block :=
  transform_eq { h := v } hsize

/-- No block is hashed to what the standard hashes it to. -/
theorem hashBlock_ne (v : Words) {block : ByteString} (hsize : block.length = 64) :
    (hashBlock v block).words ≠ SecureHash.compress SecureHash.constant v.words block := by
  rw [hashBlock_eq v hsize]
  exact SecureHash.compress_ne (by decide) constant_ne constant_eq v.words block

/-! ### Conformance -/

/-- The run is the computation of the standard. It pads the message as the
standard does, it goes through the same hash values, and the digest comes out. -/
structure Conforms (parts : List ByteString) : Prop where
  padding : (parts.foldl State.update {}).padding = SecureHash.padding parts.flatten.length
  values : (hashValues parts).map Words.words = SecureHash.values parts.flatten
  digest : (parts.foldl State.update {}).final.toList = SecureHash.digest parts.flatten

/-- A padded message has a first block. -/
theorem padded_cons (m : ByteString) :
    ∃ block rest, block.length = 64 ∧
      SecureHash.parse 64 (m ++ SecureHash.padding m.length) = block :: rest := by
  have hwhole := SecureHash.length_padded m
  have hsome : 0 < (m ++ SecureHash.padding m.length).length := by
    rw [List.length_append]
    exact Nat.add_pos_right _ (Nat.zero_lt_succ _)
  generalize m ++ SecureHash.padding m.length = l at hwhole hsome
  have hsize : (l.take 64).length = 64 := List.length_take_of_le (Nat.le_of_dvd hsome hwhole)
  refine ⟨l.take 64, SecureHash.parse 64 (l.drop 64), hsize, ?_⟩
  rw [← SecureHash.parse_cons (by decide) hsize, List.take_append_drop]

end Sha256

/-- No message is hashed the way the standard has it. Either the padding is
another one, or the first hash value is. -/
theorem sha256_never_conforms (parts : List ByteString) : ¬Sha256.Conforms parts := by
  rintro ⟨hpadding, hvalues, -⟩
  obtain ⟨block, rest, hsize, hblocks⟩ := Sha256.padded_cons parts.flatten
  rw [Sha256.hashValues, SecureHash.values, hpadding, hblocks, List.scanl_cons, List.scanl_cons,
    List.map_cons] at hvalues
  have hfirst := congrArg List.head? (List.tail_eq_of_cons_eq hvalues)
  rw [List.head?_map, List.head?_scanl, List.head?_scanl, ← Sha256.initial_eq] at hfirst
  exact Sha256.hashBlock_ne _ hsize (Option.some.inj hfirst)

/-- A digest that is right all the same is so by accident: two hash values and
blocks that are not the same are taken to the same hash value. -/
theorem sha256_right_by_collision (parts : List ByteString)
    (h : (parts.foldl Sha256.State.update {}).final.toList = SecureHash.digest parts.flatten) :
    ∃ H H' block block', (H, block) ≠ (H', block') ∧
      SecureHash.compress Sha256.constant H block =
        SecureHash.compress SecureHash.constant H' block' := by
  obtain ⟨blocks, habsorbed⟩ := Sha256.absorbed_updates parts
  obtain ⟨last, hwhole, hflatten, hfinal⟩ := Sha256.final_blocks habsorbed.short
  obtain rfl | ⟨front, block, rfl⟩ := last.eq_nil_or_concat'
  · exact absurd hflatten.symm (List.append_ne_nil_of_right_ne_nil _ (List.cons_ne_nil _ _))
  obtain ⟨first, rest, -, hparse⟩ := Sha256.padded_cons parts.flatten
  obtain hnil | ⟨front', block', hback⟩ := (first :: rest).eq_nil_or_concat'
  · exact absurd hnil (List.cons_ne_nil first rest)
  have hsize : block.length = 64 := hwhole block (by simp)
  rw [hfinal, Sha256.bytes_eq, List.foldl_append, SecureHash.digest, hparse, hback,
    List.foldl_append] at h
  have hwords := SecureHash.Words.bytes_injective h
  refine ⟨_, _, block, block', fun hsame => ?_, (Sha256.hashBlock_eq _ hsize).symm.trans hwords⟩
  obtain ⟨hH, rfl⟩ := Prod.mk.inj hsame
  exact Sha256.hashBlock_ne _ hsize (hwords.trans (congrArg (SecureHash.compress _ · _) hH.symm))

/-- The empty message, of which one block is hashed. -/
theorem sha256_of_empty :
    ¬∀ parts : List ByteString, parts.flatten.length < 2 ^ 61 →
      (parts.foldl Sha256.State.update {}).final.toList = SecureHash.digest parts.flatten := by
  intro h
  have hblock : Sha256.padTo 56 [0x80] ++ Sha256.lengthBytes 0 = SecureHash.padding 0 := by decide
  have hfinal : Sha256.State.final {} = (Sha256.hashBlock (Sha256.State.h {})
      (Sha256.padTo 56 [0x80] ++ Sha256.lengthBytes 0)).bytes := rfl
  have hparse : SecureHash.parse 64 (SecureHash.padding 0) = [SecureHash.padding 0] := by decide
  have hstandard : SecureHash.digest [] = (SecureHash.compress SecureHash.constant
      SecureHash.initial (SecureHash.padding 0)).bytes := by
    rw [SecureHash.digest, List.nil_append, List.length_nil, hparse]
    rfl
  have hdigest : (Sha256.State.final {}).toList = SecureHash.digest [] := h [] (by decide)
  rw [hfinal, hblock, Sha256.bytes_eq, hstandard, ← Sha256.initial_eq] at hdigest
  exact Sha256.hashBlock_ne _ (by decide) (SecureHash.Words.bytes_injective hdigest)

end ExecutionFabric
