import ExecutionFabric.Checksum
import ExecutionFabric.Protocol

/-!
Frames: a header of eighteen bytes, and a payload.

`decodeFrame` takes a frame off the front of a buffer. It accepts exactly what
`encodeFrame` writes (`decodeFrame_iff`): every bit of the header is either
compared with a constant or comes back from what was decoded.
-/

namespace ExecutionFabric

open Reading

namespace MsgType

/-- `static_cast<std::uint8_t>` of the enumeration. -/
def code : MsgType → UInt8
  | hello => 0 | welcome => 1 | registerWorker => 2 | registerAck => 3 | submit => 4
  | submitAck => 5 | dispatch => 6 | dispatchAck => 7 | workerDispatch => 8
  | workerDispatchAck => 9 | start => 10 | complete => 11 | completeAck => 12 | cancel => 13
  | cancelAck => 14 | preempt => 15 | preemptAck => 16 | ackPreempt => 17 | markResumable => 18
  | resume => 19 | resumeAck => 20 | workerLost => 21 | query => 22 | queryResponse => 23
  | ping => 24 | pong => 25 | shutdown => 26

/-- The checked cast back. -/
def ofCode? (c : UInt8) : Option MsgType :=
  [hello, welcome, registerWorker, registerAck, submit, submitAck, dispatch, dispatchAck,
    workerDispatch, workerDispatchAck, start, complete, completeAck, cancel, cancelAck, preempt,
    preemptAck, ackPreempt, markResumable, resume, resumeAck, workerLost, query, queryResponse,
    ping, pong, shutdown][c.toNat]?

@[simp] theorem ofCode?_code (t : MsgType) : ofCode? t.code = some t := by
  cases t <;> rfl

theorem code_of_ofCode? {c : UInt8} {t : MsgType} (h : ofCode? c = some t) : t.code = c :=
  code_of_getElem? (by decide) h

end MsgType

/-- `kFrameMagic`. -/
def frameMagic : UInt32 := 0x44465845

/-- `kFrameHeaderLen`. -/
def frameHeaderLen : ℕ := 4 + 1 + 1 + 4 + 8

/-- `kMaxPayload`. -/
def maxPayload : UInt32 := 64 * 1024 * 1024

structure DecodedFrame where
  type : MsgType
  payload : ByteString
  deriving DecidableEq

def encodeFrame (type : MsgType) (payload : ByteString) : ByteString :=
  ByteWriter.u32 frameMagic ++ (ByteWriter.u8 frameVersion ++ (ByteWriter.u8 type.code
    ++ (ByteWriter.u32 payload.length.toUInt32 ++ (ByteWriter.u64 (Crc64.compute payload)
    ++ payload))))

/-- The header of the frame at the front of `data`, and the payload that is
behind it, with the number of bytes consumed. -/
def getFrame (data : ByteString) : Decoder (DecodedFrame × ℕ) := do
  let magic ← Decoder.read ByteReader.u32 "bad frame magic"
  failIf (magic ≠ frameMagic) (text "bad frame magic")
  let ver ← Decoder.read ByteReader.u8 "bad frame version"
  failIf (ver ≠ frameVersion) (text "bad frame version")
  let type ← Decoder.enum MsgType.ofCode? "bad frame type" "invalid message type"
  let length ← Decoder.read ByteReader.u32 "bad frame length"
  failIf (maxPayload < length) (text "frame length exceeds limit")
  failIf (data.length < frameHeaderLen + length.toNat) (text "frame payload truncated")
  let crc ← Decoder.read ByteReader.u64 "bad frame crc"
  let payload := (data.drop frameHeaderLen).take length.toNat
  failIf (Crc64.compute payload ≠ crc) (text "frame checksum mismatch")
  pure ({ type, payload }, frameHeaderLen + length.toNat)

def decodeFrame (data : ByteString) : Except ByteString (DecodedFrame × ℕ) :=
  if data.length < frameHeaderLen then .error (text "frame too short")
  else Prod.fst <$> getFrame data { data }

/-! ### What is accepted -/

@[simp] theorem length_encodeFrame (type : MsgType) (payload : ByteString) :
    (encodeFrame type payload).length = frameHeaderLen + payload.length := by
  simp [encodeFrame, frameHeaderLen, ByteWriter.u8]
  omega

/-- The eighteen bytes before the payload. -/
def frameHeader (type : MsgType) (payload : ByteString) : ByteString :=
  ByteWriter.u32 frameMagic ++ (ByteWriter.u8 frameVersion ++ (ByteWriter.u8 type.code
    ++ (ByteWriter.u32 payload.length.toUInt32 ++ ByteWriter.u64 (Crc64.compute payload))))

theorem encodeFrame_eq (type : MsgType) (payload : ByteString) :
    encodeFrame type payload = frameHeader type payload ++ payload := by
  simp only [encodeFrame, frameHeader, List.append_assoc]

theorem length_frameHeader (type : MsgType) (payload : ByteString) :
    (frameHeader type payload).length = frameHeaderLen := by
  have hlength := length_encodeFrame type payload
  rw [encodeFrame_eq, List.length_append] at hlength
  exact Nat.add_right_cancel hlength

theorem toNat_payload {payload : ByteString} (h : payload.length ≤ maxPayload.toNat) :
    payload.length.toUInt32.toNat = payload.length :=
  UInt32.toNat_ofNat_of_lt' (lt_of_le_of_lt h (by decide))

theorem decodeFrame_encodeFrame (type : MsgType) {payload : ByteString}
    (hsize : payload.length ≤ maxPayload.toNat) (tail : ByteString) :
    decodeFrame (encodeFrame type payload ++ tail) =
      .ok ({ type, payload }, frameHeaderLen + payload.length) := by
  have hnat := toNat_payload hsize
  generalize hdata : encodeFrame type payload ++ tail = data
  have hlength : data.length = frameHeaderLen + payload.length + tail.length := by
    rw [← hdata, List.length_append, length_encodeFrame]
  have hpayload : (data.drop frameHeaderLen).take payload.length = payload := by
    rw [← hdata, encodeFrame_eq, List.append_assoc,
      List.drop_left' (length_frameHeader type payload), List.take_left]
  have hread : Reads (getFrame data) (frameHeader type payload)
      ({ type, payload }, frameHeaderLen + payload.length) := by
    refine (reads_u32 _).bind (.passes (not_not.2 rfl) ?_)
    refine (reads_u8 _).bind (.passes (not_not.2 rfl) ?_)
    refine (reads_enum (MsgType.ofCode?_code type)).bind ?_
    refine (reads_u32 _).bind (.passes ?_ (.passes ?_ ?_))
    · rw [UInt32.lt_iff_toNat_lt, hnat]
      exact Nat.not_lt.2 hsize
    · omega
    · rw [← List.append_nil (ByteWriter.u64 _), hnat, hpayload]
      exact (reads_u64 _).bind (.passes (not_not.2 rfl) (.pure _))
  have hall := hread { data } (payload ++ tail) rfl
    (by rw [← List.append_assoc, ← encodeFrame_eq]; exact hdata.symm)
  rw [decodeFrame, if_neg (by omega), hall]
  rfl

theorem getFrame_eq_ok {data : ByteString} {result : DecodedFrame × ℕ} {t : ByteReader}
    (h : getFrame data { data } = .ok (result, t)) :
    result.1.payload.length ≤ maxPayload.toNat ∧
      ∃ tail, data = encodeFrame result.1.type result.1.payload ++ tail ∧
        result.2 = frameHeaderLen + result.1.payload.length := by
  unfold getFrame at h
  obtain ⟨magic, s₁, hmagic, h⟩ := bind_eq_ok.1 h
  obtain ⟨hgood₁, h⟩ := passes_eq_ok.1 h
  obtain ⟨ver, s₂, hver, h⟩ := bind_eq_ok.1 h
  obtain ⟨hgood₂, h⟩ := passes_eq_ok.1 h
  obtain ⟨type, s₃, htype, h⟩ := bind_eq_ok.1 h
  obtain ⟨length, s₄, hlen, h⟩ := bind_eq_ok.1 h
  obtain ⟨hlimit, h⟩ := passes_eq_ok.1 h
  obtain ⟨hwhole, h⟩ := passes_eq_ok.1 h
  obtain ⟨crc, s₅, hcrc, h⟩ := bind_eq_ok.1 h
  obtain ⟨hsum, h⟩ := passes_eq_ok.1 h
  obtain ⟨rfl, -⟩ := Prod.mk.inj (Except.ok.inj h)
  obtain rfl := not_not.1 hgood₁
  obtain rfl := not_not.1 hgood₂
  obtain rfl := not_not.1 hsum
  have htook := (took_u32 hmagic).trans ((took_u8 hver).trans
    ((took_enum MsgType.code_of_ofCode? htype).trans ((took_u32 hlen).trans (took_u64 hcrc))))
  have hdata : data = _ ++ s₅.rest := htook
  have hdrop : data.drop frameHeaderLen = s₅.rest := by
    conv_lhs => rw [hdata]
    refine List.drop_left' ?_
    simp [frameHeaderLen, ByteWriter.u8]
  have hrest : length.toNat ≤ s₅.rest.length := by
    rw [← hdrop, List.length_drop]
    omega
  have hlength : (s₅.rest.take length.toNat).length = length.toNat := List.length_take_of_le hrest
  have hback : (s₅.rest.take length.toNat).length.toUInt32 = length := by
    rw [hlength]
    exact UInt32.ofNat_toNat
  show (List.take length.toNat (data.drop frameHeaderLen)).length ≤ maxPayload.toNat ∧ _
  rw [hdrop, hlength]
  refine ⟨UInt32.le_iff_toNat_le.1 (UInt32.not_lt.1 hlimit), s₅.rest.drop length.toNat, ?_, rfl⟩
  rw [hdrop] at hdata
  conv_lhs => rw [hdata]
  simp only [encodeFrame, List.append_assoc, List.take_append_drop, hback]

/-- A frame is decoded from the bytes that encode it, and from no others. -/
theorem decodeFrame_iff {data : ByteString} {frame : DecodedFrame} {consumed : ℕ} :
    decodeFrame data = .ok (frame, consumed) ↔
      frame.payload.length ≤ maxPayload.toNat ∧
        ∃ tail, data = encodeFrame frame.type frame.payload ++ tail ∧
          consumed = frameHeaderLen + frame.payload.length := by
  constructor
  · intro h
    unfold decodeFrame at h
    split at h
    · cases h
    · cases hread : getFrame data { data } with
      | error e =>
          rw [hread] at h
          cases h
      | ok result =>
          rw [hread] at h
          have hresult := getFrame_eq_ok hread
          rwa [Except.ok.inj h] at hresult
  · rintro ⟨hsize, tail, rfl, rfl⟩
    exact decodeFrame_encodeFrame frame.type hsize tail

end ExecutionFabric
