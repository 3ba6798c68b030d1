import ExecutionFabric.Protocol.Frame

/-!
Corrupted frames.

The checksum of a frame is that of its payload. Magic and version are compared
with constants, and a checksum that was changed no longer fits the payload it
is of. That leaves the type: it is compared with the largest one there is, and
a byte that is the code of another type is taken for that type. A frame with
one wrong byte outside the length field is rejected in all other cases
(`corruption_rejected_iff`).
-/

namespace ExecutionFabric

open ShiftRegister

theorem MsgType.code_injective : Function.Injective MsgType.code := by
  intro t t' h
  have hsame : some t = some t' := by rw [← ofCode?_code t, ← ofCode?_code t', h]
  exact Option.some.inj hsame

/-! ### The parts of a frame -/

section

variable (type other : MsgType) (payload : ByteString)

/-- The bytes before and behind the type. -/
theorem encodeFrame_around : encodeFrame type payload
    = (ByteWriter.u32 frameMagic ++ ByteWriter.u8 frameVersion) ++ [type.code]
      ++ (ByteWriter.u32 payload.length.toUInt32 ++ ByteWriter.u64 (Crc64.compute payload)
        ++ payload) := by
  simp only [encodeFrame, ByteWriter.u8, List.append_assoc]

theorem encodeFrame_type : (encodeFrame type payload)[5]? = some type.code := by
  rw [encodeFrame_around, List.append_assoc, List.getElem?_append_right (by simp [ByteWriter.u8])]
  simp [ByteWriter.u8]

theorem encodeFrame_length :
    ((encodeFrame type payload).drop 6).take 4 = ByteWriter.u32 payload.length.toUInt32 := by
  rw [encodeFrame_around, List.drop_left' (by simp [ByteWriter.u8]), List.append_assoc,
    List.take_left' (ByteWriter.length_u32 _)]

theorem encodeFrame_checksum :
    ((encodeFrame type payload).drop 10).take 8 = ByteWriter.u64 (Crc64.compute payload) := by
  rw [show 10 = 6 + 4 from rfl, ← List.drop_drop, encodeFrame_around,
    List.drop_left' (by simp [ByteWriter.u8]), List.append_assoc,
    List.drop_left' (ByteWriter.length_u32 _), List.take_left' (ByteWriter.length_u64 _)]

theorem encodeFrame_payload : (encodeFrame type payload).drop 18 = payload := by
  rw [encodeFrame_eq]
  exact List.drop_left' (length_frameHeader type payload)

/-- Frames of one payload differ in the type only. -/
theorem differs_type :
    DiffersWithin 5 1 (encodeFrame type payload) (encodeFrame other payload) := by
  have hdiffers := @DiffersWithin.of_append UInt8 1
    (ByteWriter.u32 frameMagic ++ ByteWriter.u8 frameVersion) [type.code] [other.code]
    (ByteWriter.u32 payload.length.toUInt32 ++ ByteWriter.u64 (Crc64.compute payload) ++ payload)
    rfl (Nat.le_refl 1)
  rwa [← encodeFrame_around, ← encodeFrame_around] at hdiffers

end

/-! ### One byte -/

section

variable {type other : MsgType} {payload payload' data : ByteString} {i : ℕ}

/-- Two frames that differ in one byte have the same payload, and differ in the
type. -/
theorem eq_of_frames (h : DiffersWithin i 1 (encodeFrame type payload) (encodeFrame other payload')) :
    payload = payload' ∧ (i ≠ 5 → type = other) := by
  constructor
  · by_contra hne
    -- a byte of the header leaves the payload as it is, a byte of the payload the checksum
    by_cases hi : i < 18
    · have hrest := h.drop_eq (j := 18) (by omega)
      rw [encodeFrame_payload, encodeFrame_payload] at hrest
      exact hne hrest
    · have hpayloads := (h.drop (j := 18) (by omega)).widen (m := 8) (by omega)
      rw [encodeFrame_payload, encodeFrame_payload] at hpayloads
      have hchecksums : ((encodeFrame type payload).drop 10).take 8
          = ((encodeFrame other payload').drop 10).take 8 :=
        (h.drop (j := 10) (by omega)).take_eq (by omega)
      rw [encodeFrame_checksum, encodeFrame_checksum] at hchecksums
      exact Crc64.compute_ne hpayloads hne (ByteWriter.u64_injective hchecksums)
  · intro hi
    have htypes := h.outside 5 (by omega)
    rw [encodeFrame_type, encodeFrame_type] at htypes
    exact MsgType.code_injective (Option.some.inj htypes)

/-- A wrong byte outside the length field leaves the length as it is. -/
theorem length_kept (h : DiffersWithin i 1 (encodeFrame type payload) data)
    (hi : i < 6 ∨ 10 ≤ i) :
    (data.drop 6).take 4 = ByteWriter.u32 payload.length.toUInt32 := by
  rw [← encodeFrame_length type payload]
  rcases hi with hi | hi
  · rw [h.drop_eq (j := 6) (by omega)]
  · exact ((h.drop (j := 6) (by omega)).take_eq (by omega)).symm

/-- What a frame with one wrong byte is decoded to, if it is. -/
theorem decoded_of_differs (hsize : payload.length ≤ maxPayload.toNat)
    (h : DiffersWithin i 1 (encodeFrame type payload) data) (hi : i < 6 ∨ 10 ≤ i)
    {result : DecodedFrame × ℕ} (hdecode : decodeFrame data = .ok result) :
    data = encodeFrame result.1.type payload ∧ (i ≠ 5 → type = result.1.type) := by
  obtain ⟨hsize', tail, rfl, -⟩ := decodeFrame_iff.1 hdecode
  have hlengths := length_kept h hi
  rw [List.drop_append_of_le_length (by simp [frameHeaderLen]; omega),
    List.take_append_of_le_length (by simp [frameHeaderLen]; omega), encodeFrame_length] at hlengths
  have hsame : result.1.payload.length = payload.length := by
    rw [← toNat_payload hsize', ByteWriter.u32_injective hlengths, toNat_payload hsize]
  have htail : tail = [] := by
    have htotal := h.length
    simp only [List.length_append, length_encodeFrame, hsame] at htotal
    exact List.length_eq_zero_iff.1 (by omega)
  rw [htail, List.append_nil] at h ⊢
  obtain ⟨hpayload, htype⟩ := eq_of_frames h
  rw [hpayload]
  exact ⟨rfl, htype⟩

/-- A frame with one wrong byte outside the length field is rejected, unless
the byte is the type and became the code of another one. -/
theorem corruption_rejected_iff (type : MsgType) (hsize : payload.length ≤ maxPayload.toNat)
    (h : DiffersWithin i 1 (encodeFrame type payload) data)
    (hne : data ≠ encodeFrame type payload) (hi : i < 6 ∨ 10 ≤ i) :
    (∃ e, decodeFrame data = .error e) ↔ ¬(i = 5 ∧ ∃ other : MsgType, data[5]? = some other.code) := by
  cases hdecode : decodeFrame data with
  | error e =>
      refine iff_of_true ⟨e, rfl⟩ ?_
      rintro ⟨rfl, other, hother⟩
      -- with the code of a type, the bytes are the frame of that type
      have hframe : data = encodeFrame other payload := by
        refine List.ext_getElem? fun j => ?_
        by_cases hj : j = 5
        · rw [hj, hother, encodeFrame_type]
        · rw [← h.outside j (by omega), (differs_type type other payload).outside j (by omega)]
      have haccepted := decodeFrame_encodeFrame other hsize []
      rw [List.append_nil, ← hframe, hdecode] at haccepted
      cases haccepted
  | ok result =>
      refine iff_of_false (fun ⟨e, he⟩ => by cases he) (not_not.2 ?_)
      obtain ⟨hframe, htype⟩ := decoded_of_differs hsize h hi hdecode
      have hplace : i = 5 := by
        by_contra hother
        exact hne (hframe.trans (by rw [htype hother]))
      exact ⟨hplace, result.1.type, by rw [hframe, encodeFrame_type]⟩

end

/-- The last byte of a frame is changed. -/
theorem corruption_rejected_sample :
    ∃ e, decodeFrame ((encodeFrame .complete (text "xyz")).take 20 ++ text "Z") = .error e := by
  have hdiffers : DiffersWithin 20 1 (encodeFrame .complete (text "xyz"))
      ((encodeFrame .complete (text "xyz")).take 20 ++ text "Z" ++ []) :=
    DiffersWithin.overwrite (by decide) (by decide)
  rw [List.append_nil] at hdiffers
  exact (corruption_rejected_iff .complete (by decide) hdiffers (by decide +kernel)
    (by decide)).2 fun h => absurd h.1 (by decide)

/-- A `HELLO` whose type byte is changed is a `WELCOME`. -/
theorem type_not_covered :
    ¬∀ (type : MsgType) (payload data : ByteString) (i : ℕ), payload.length ≤ maxPayload.toNat →
      DiffersWithin i 1 (encodeFrame type payload) data → data ≠ encodeFrame type payload →
      i < 6 ∨ 10 ≤ i → ∃ e, decodeFrame data = .error e := by
  intro hclaim
  obtain ⟨e, he⟩ := hclaim .hello [] (encodeFrame .welcome []) 5 (by decide)
    (differs_type .hello .welcome []) (by decide) (by decide)
  have haccepted := @decodeFrame_encodeFrame .welcome [] (by decide) []
  rw [List.append_nil, he] at haccepted
  cases haccepted

end ExecutionFabric
