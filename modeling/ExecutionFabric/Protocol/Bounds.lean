import ExecutionFabric.Memory
import ExecutionFabric.Protocol.Frame

/-!
`decode_frame` in memory.

`decodeFrameAt` is `decode_frame` with every load written out. Where memory has
the bytes of the buffer, it does what `decodeFrame` does, whatever is behind
them (`decodeFrameAt_eq`).
-/

namespace ExecutionFabric

open Reading

def getFrameAt (len : ℕ) : Loading (DecodedFrame × ℕ) := do
  let magic ← Loading.u32 "bad frame magic"
  Loading.failIf (magic ≠ frameMagic) (text "bad frame magic")
  let ver ← Loading.u8 "bad frame version"
  Loading.failIf (ver ≠ frameVersion) (text "bad frame version")
  let type ← Loading.enum MsgType.ofCode? "bad frame type" "invalid message type"
  let length ← Loading.u32 "bad frame length"
  Loading.failIf (maxPayload < length) (text "frame length exceeds limit")
  Loading.failIf (len < frameHeaderLen + length.toNat) (text "frame payload truncated")
  let crc ← Loading.u64 "bad frame crc"
  let summed ← Loading.window frameHeaderLen length.toNat
  Loading.failIf (Crc64.compute summed ≠ crc) (text "frame checksum mismatch")
  let payload ← Loading.window frameHeaderLen length.toNat
  pure ({ type, payload }, frameHeaderLen + length.toNat)

def decodeFrameAt (len : ℕ) (m : Memory) : Option (Except ByteString (DecodedFrame × ℕ)) :=
  if len < frameHeaderLen then some (.error (text "frame too short"))
  else (getFrameAt len { len } m).map fun result => Prod.fst <$> result

/-! ### Refinement -/

section

variable {m : Memory} {data : ByteString}

theorem refines_getFrame (hm : m.Holds data) :
    Refines m data (getFrameAt data.length) (getFrame data) := by
  refine (refines_u32 hm).bind fun magic => .passes fun _ => ?_
  refine (refines_u8 hm).bind fun ver => .passes fun _ => ?_
  refine (refines_enum hm).bind fun type => ?_
  refine (refines_u32 hm).bind fun length => .passes fun _ => .passes fun hwhole => ?_
  have hwithin := not_lt.1 hwhole
  refine (refines_u64 hm).bind fun crc => ?_
  refine .window hm hwithin (.passes fun _ => ?_)
  exact .window hm hwithin (.pure _)

/-- Where the buffer is in memory, `decode_frame` does not fault, and gives what
the buffer decodes to. -/
theorem decodeFrameAt_eq (hm : m.Holds data) :
    decodeFrameAt data.length m = some (decodeFrame data) := by
  unfold decodeFrameAt decodeFrame
  split
  · rfl
  · have hload := (refines_getFrame hm { data } ⟨rfl, Nat.zero_le _⟩).loads
    have hstart : ({ len := data.length } : Cursor) = ByteReader.cursor { data } := rfl
    rw [hstart, hload]
    cases getFrame data { data } <;> rfl

end

/-! ### Exactness -/

theorem take_of_decodeFrame {data : ByteString} {frame : DecodedFrame} {consumed : ℕ}
    (h : decodeFrame data = .ok (frame, consumed)) :
    data.take consumed = encodeFrame frame.type frame.payload := by
  obtain ⟨-, tail, rfl, rfl⟩ := decodeFrame_iff.1 h
  rw [← length_encodeFrame, List.take_left]

/-- `decode_frame` accepts exactly the encoded frames, whatever is behind them;
frames that decode alike are equal, and none begins another; and nothing behind
the buffer is read. -/
theorem decodeFrame_exact :
    (∀ type payload tail, payload.length ≤ maxPayload.toNat →
      decodeFrame (encodeFrame type payload ++ tail) =
        .ok ({ type, payload }, frameHeaderLen + payload.length)) ∧
    (∀ data frame consumed, decodeFrame data = .ok (frame, consumed) →
      data.take consumed = encodeFrame frame.type frame.payload) ∧
    (∀ data data' frame consumed consumed', decodeFrame data = .ok (frame, consumed) →
      decodeFrame data' = .ok (frame, consumed') → data.take consumed = data'.take consumed') ∧
    (∀ type payload type' payload', payload.length ≤ maxPayload.toNat →
      payload'.length ≤ maxPayload.toNat →
      encodeFrame type payload <+: encodeFrame type' payload' →
      type = type' ∧ payload = payload') ∧
    ∀ m data, Memory.Holds m data → decodeFrameAt data.length m = some (decodeFrame data) := by
  refine ⟨fun type _ tail hsize => decodeFrame_encodeFrame type hsize tail,
    fun _ _ _ h => take_of_decodeFrame h, ?_, ?_, fun _ _ hm => decodeFrameAt_eq hm⟩
  · intro data data' frame consumed consumed' h h'
    rw [take_of_decodeFrame h, take_of_decodeFrame h']
  · rintro type payload type' payload' hsize hsize' ⟨more, hmore⟩
    have hdecode := decodeFrame_encodeFrame type hsize more
    have hdecode' := decodeFrame_encodeFrame type' hsize' []
    rw [List.append_nil, ← hmore, hdecode] at hdecode'
    obtain ⟨hframe, -⟩ := Prod.mk.inj (Except.ok.inj hdecode')
    exact ⟨congrArg DecodedFrame.type hframe, congrArg DecodedFrame.payload hframe⟩

end ExecutionFabric
