import ExecutionFabric.Protocol.Frame

/-!
The receiving end of an open connection.

A socket is what `recv` will still find on it: pieces of the stream, each of at
least one byte, and times when there was nothing yet; after the last of them
the peer has closed. A call of `recv` takes from the first piece as many bytes
as it asked for, or all of it, so that every division of the stream into calls
is some list of pieces.

What `recvFrame` makes of a socket depends on the stream alone, and is what
`decodeFrame` makes of it (`recvFrame_ok_iff`).
-/

namespace ExecutionFabric

open Reading

inductive Delivery
  | wouldBlock
  | piece (bytes : ByteString) (nonempty : bytes ≠ [])

abbrev Socket := List Delivery

def Delivery.bytes : Delivery → ByteString
  | wouldBlock => []
  | piece bytes _ => bytes

/-- Everything that will come. -/
def stream (socket : Socket) : ByteString := socket.flatMap Delivery.bytes

/-- `::recv` for at most `n` bytes: `none` would block, and no bytes are the end. -/
def recv (n : ℕ) : Socket → Option ByteString × Socket
  | [] => (some [], [])
  | .wouldBlock :: socket => (none, socket)
  | .piece bytes h :: socket =>
    if hlong : n < bytes.length then
      (some (bytes.take n), .piece (bytes.drop n) (by simpa using hlong) :: socket)
    else (some bytes, socket)

section

variable {n : ℕ} {socket rest : Socket} {bytes : ByteString}

/-- A call takes what it gives off the front of the stream. -/
theorem stream_recv : (recv n socket).1.getD [] ++ stream (recv n socket).2 = stream socket := by
  unfold recv
  split
  · rfl
  · rfl
  · split
    · simp [stream, Delivery.bytes, ← List.append_assoc]
    · rfl

theorem length_recv_le (h : recv n socket = (some bytes, rest)) : bytes.length ≤ n := by
  unfold recv at h
  split at h
  · obtain ⟨hbytes, -⟩ := Prod.mk.inj h
    rw [← Option.some.inj hbytes]
    exact Nat.zero_le n
  · cases h
  · split at h
    · obtain ⟨hbytes, -⟩ := Prod.mk.inj h
      rw [← Option.some.inj hbytes]
      exact List.length_take_le n _
    · rename_i hshort
      obtain ⟨hbytes, -⟩ := Prod.mk.inj h
      rw [← Option.some.inj hbytes]
      exact not_lt.1 hshort

/-- Nothing is received at the end only. -/
theorem stream_of_recv_nil (hn : n ≠ 0) (h : recv n socket = (some [], rest)) :
    stream socket = [] ∧ stream rest = [] := by
  unfold recv at h
  split at h
  · obtain ⟨-, rfl⟩ := Prod.mk.inj h
    exact ⟨rfl, rfl⟩
  · cases h
  · rename_i piece hpiece _
    split at h
    · rename_i hlong
      obtain ⟨hbytes, -⟩ := Prod.mk.inj h
      have hlength := congrArg List.length (Option.some.inj hbytes)
      rw [List.length_take, List.length_nil] at hlength
      omega
    · obtain ⟨hbytes, -⟩ := Prod.mk.inj h
      exact absurd (Option.some.inj hbytes) hpiece

theorem length_lt_of_recv_none (h : recv n socket = (none, rest)) :
    rest.length < socket.length := by
  unfold recv at h
  split at h
  · cases h
  · obtain ⟨-, rfl⟩ := Prod.mk.inj h
    exact Nat.lt_succ_self _
  · split at h <;> cases h

end

/-- `TcpConnection::recv_exact`: all of the `n` bytes, or nothing when the stream
ends before them. -/
def recvExact (n : ℕ) (socket : Socket) : Option ByteString × Socket :=
  if _hmore : n = 0 then (some [], socket)
  else
    match _hrecv : recv n socket with
    | (none, rest) => recvExact n rest
    | (some [], rest) => (none, rest)
    | (some (b :: bytes), rest) =>
      let more := recvExact (n - (b :: bytes).length) rest
      (more.1.map (b :: bytes ++ ·), more.2)
termination_by (n, socket.length)
decreasing_by
  · exact Prod.Lex.right n (length_lt_of_recv_none _hrecv)
  · exact Prod.Lex.left _ _ (Nat.sub_lt (Nat.pos_of_ne_zero _hmore) (Nat.succ_pos _))

/-- How the stream was cut up does not matter. -/
theorem recvExact_eq (n : ℕ) (socket : Socket) :
    (recvExact n socket).1 =
        (if n ≤ (stream socket).length then some ((stream socket).take n) else none) ∧
      stream (recvExact n socket).2 = (stream socket).drop n := by
  induction n, socket using recvExact.induct with
  | case1 socket =>
      rw [recvExact, dif_pos rfl]
      simp
  | case2 n socket hn rest hrecv ih =>
      have hstream := @stream_recv n socket
      rw [hrecv] at hstream
      have hsame : stream socket = stream rest := hstream.symm
      rw [recvExact, dif_neg hn, hrecv, hsame]
      exact ih
  | case3 n socket hn rest hrecv =>
      obtain ⟨hsocket, hrest⟩ := stream_of_recv_nil hn hrecv
      have hshort : ¬n ≤ ([] : ByteString).length := fun hle => hn (Nat.le_zero.1 hle)
      rw [recvExact, dif_neg hn, hrecv, hsocket, if_neg hshort, List.drop_nil]
      exact ⟨rfl, hrest⟩
  | case4 n socket hn b bytes rest hrecv ih =>
      have hstream := @stream_recv n socket
      rw [hrecv] at hstream
      have hsame : stream socket = b :: bytes ++ stream rest := hstream.symm
      have hle : (b :: bytes).length ≤ n := length_recv_le hrecv
      have htake : (b :: bytes ++ stream rest).take n =
          b :: bytes ++ (stream rest).take (n - (b :: bytes).length) := by
        rw [List.take_append, List.take_of_length_le hle]
      have hdrop : (b :: bytes ++ stream rest).drop n =
          (stream rest).drop (n - (b :: bytes).length) := by
        rw [List.drop_append, List.drop_of_length_le hle, List.nil_append]
      rw [recvExact, dif_neg hn, hrecv, hsame, htake, hdrop]
      refine ⟨?_, ih.2⟩
      show Option.map _ (recvExact _ rest).1 = _
      rw [ih.1, List.length_append]
      split
      · rw [if_pos (by omega)]
        rfl
      · rw [if_neg (by omega)]
        rfl

/-! ### Frames -/

/-- The header, looked at before the payload is there. -/
def getHeader : Decoder UInt32 := do
  let magic ← Decoder.read ByteReader.u32 "malformed frame header"
  let ver ← Decoder.read ByteReader.u8 "malformed frame header"
  let _ty ← Decoder.read ByteReader.u8 "malformed frame header"
  let len ← Decoder.read ByteReader.u32 "malformed frame header"
  let _crc ← Decoder.read ByteReader.u64 "malformed frame header"
  failIf (magic ≠ frameMagic) (text "bad frame magic")
  failIf (ver ≠ frameVersion) (text "bad frame version")
  failIf (maxPayload < len) (text "frame payload exceeds limit")
  pure len

/-- An empty payload is not asked for. -/
def recvPayload (len : UInt32) (socket : Socket) : Option ByteString × Socket :=
  if 0 < len then recvExact len.toNat socket else (some [], socket)

/-- `TcpConnection::recv_frame`. -/
def recvFrame (socket : Socket) : Except ByteString DecodedFrame × Socket :=
  match recvExact frameHeaderLen socket with
  | (none, socket) => (.error (text "connection closed while receiving header"), socket)
  | (some hdr, socket) =>
    match getHeader { data := hdr } with
    | .error e => (.error e, socket)
    | .ok (len, _) =>
      match recvPayload len socket with
      | (none, socket) => (.error (text "connection closed while receiving payload"), socket)
      | (some payload, socket) =>
        match decodeFrame (hdr ++ payload) with
        | .error e => (.error e, socket)
        | .ok (frame, _) => (.ok frame, socket)

section

variable {socket rest : Socket} {bytes : ByteString} {frame : DecodedFrame}

theorem recvExact_eq_some {n : ℕ} (h : recvExact n socket = (some bytes, rest)) :
    bytes.length = n ∧ stream socket = bytes ++ stream rest := by
  obtain ⟨hbytes, hrest⟩ := recvExact_eq n socket
  rw [h] at hbytes hrest
  split at hbytes
  · rename_i hle
    obtain rfl := Option.some.inj hbytes
    have hrest : stream rest = (stream socket).drop n := hrest
    exact ⟨List.length_take_of_le hle, by rw [hrest, List.take_append_drop]⟩
  · cases hbytes

theorem recvExact_of_stream {tail : ByteString} (h : stream socket = bytes ++ tail) :
    ∃ rest, recvExact bytes.length socket = (some bytes, rest) ∧ stream rest = tail := by
  obtain ⟨hbytes, hrest⟩ := recvExact_eq bytes.length socket
  rw [h, List.length_append, if_pos (Nat.le_add_right _ _), List.take_left] at hbytes
  rw [h, List.drop_left] at hrest
  exact ⟨_, Prod.ext hbytes rfl, hrest⟩

theorem recvPayload_eq (len : UInt32) (socket : Socket) :
    recvPayload len socket = recvExact len.toNat socket := by
  unfold recvPayload
  split
  · rfl
  · rename_i hzero
    have hnone : len.toNat = 0 := by
      rw [UInt32.lt_iff_toNat_lt] at hzero
      exact Nat.eq_zero_of_not_pos hzero
    rw [hnone, recvExact, dif_pos rfl]

theorem reads_header (type : MsgType) {payload : ByteString}
    (hsize : payload.length ≤ maxPayload.toNat) :
    Reads getHeader (frameHeader type payload) payload.length.toUInt32 := by
  refine (reads_u32 _).bind ?_
  refine (reads_u8 _).bind ?_
  refine (reads_u8 _).bind ?_
  refine (reads_u32 _).bind ?_
  rw [← List.append_nil (ByteWriter.u64 _)]
  refine (reads_u64 _).bind ?_
  refine .passes (not_not.2 rfl) (.passes (not_not.2 rfl) (.passes ?_ (.pure _)))
  rw [UInt32.lt_iff_toNat_lt, toNat_payload hsize]
  exact Nat.not_lt.2 hsize

/-- A frame that was received was what the stream had next. -/
theorem recvFrame_ok (h : recvFrame socket = (.ok frame, rest)) :
    frame.payload.length ≤ maxPayload.toNat ∧
      stream socket = encodeFrame frame.type frame.payload ++ stream rest := by
  unfold recvFrame at h
  split at h
  · cases h
  rename_i hdr s₁ hhdr
  obtain ⟨hlength, hfirst⟩ := recvExact_eq_some hhdr
  split at h
  · cases h
  rename_i len r hlen
  split at h
  · cases h
  rename_i payload s₂ hpayload
  rw [recvPayload_eq] at hpayload
  obtain ⟨hcount, hsecond⟩ := recvExact_eq_some hpayload
  split at h
  · cases h
  rename_i frame' consumed hdecode
  obtain ⟨hframe, rfl⟩ := Prod.mk.inj h
  obtain rfl := Except.ok.inj hframe
  obtain ⟨hsize, tail, hdata, -⟩ := decodeFrame_iff.1 hdecode
  rw [encodeFrame_eq, List.append_assoc] at hdata
  -- the header the payload was asked by is the one that was decoded
  obtain ⟨rfl, hbehind⟩ := List.append_inj hdata (by rw [hlength, length_frameHeader])
  have hread := reads_header frame'.type hsize { data := frameHeader frame'.type frame'.payload } []
    rfl (List.append_nil _).symm
  obtain ⟨rfl, -⟩ := Prod.mk.inj (Except.ok.inj (hlen.symm.trans hread))
  rw [toNat_payload hsize] at hcount
  rw [← List.append_nil payload] at hbehind
  obtain ⟨rfl, -⟩ := List.append_inj hbehind hcount
  refine ⟨hsize, ?_⟩
  rw [hfirst, hsecond, encodeFrame_eq, List.append_assoc]

theorem recvFrame_of_stream {tail : ByteString} (hsize : frame.payload.length ≤ maxPayload.toNat)
    (h : stream socket = encodeFrame frame.type frame.payload ++ tail) :
    ∃ rest, recvFrame socket = (.ok frame, rest) ∧ stream rest = tail := by
  have hdecode := decodeFrame_encodeFrame frame.type hsize []
  rw [List.append_nil] at hdecode
  rw [encodeFrame_eq, List.append_assoc] at h
  obtain ⟨s₁, hhdr, hnext⟩ := recvExact_of_stream h
  obtain ⟨rest, hpayload, hrest⟩ := recvExact_of_stream hnext
  have hlen := reads_header frame.type hsize { data := frameHeader frame.type frame.payload } []
    rfl (List.append_nil _).symm
  rw [length_frameHeader] at hhdr
  rw [← toNat_payload hsize, ← recvPayload_eq] at hpayload
  rw [encodeFrame_eq] at hdecode
  refine ⟨rest, ?_, hrest⟩
  simp only [recvFrame, hhdr, hlen, hpayload, hdecode]

end

/-! ### Streams of frames -/

/-- What `recv_frame` returns until it first fails. -/
def receiveAll (socket : Socket) : List DecodedFrame :=
  match _hrecv : recvFrame socket with
  | (.error _, _) => []
  | (.ok frame, rest) => frame :: receiveAll rest
termination_by (stream socket).length
decreasing_by
  rw [(recvFrame_ok _hrecv).2, List.length_append, length_encodeFrame, frameHeaderLen]
  omega

/-- What `decode_frame` returns until it first fails, each time behind what it
consumed. -/
def decodeAll (data : ByteString) : List DecodedFrame :=
  match _hdecode : decodeFrame data with
  | .error _ => []
  | .ok (frame, consumed) => frame :: decodeAll (data.drop consumed)
termination_by data.length
decreasing_by
  obtain ⟨-, tail, rfl, rfl⟩ := decodeFrame_iff.1 _hdecode
  rw [List.length_drop, List.length_append, length_encodeFrame, frameHeaderLen]
  omega

theorem decodeAll_append {frame : DecodedFrame} (hsize : frame.payload.length ≤ maxPayload.toNat)
    (tail : ByteString) :
    decodeAll (encodeFrame frame.type frame.payload ++ tail) = frame :: decodeAll tail := by
  have hdecode := decodeFrame_encodeFrame frame.type hsize tail
  rw [decodeAll, hdecode]
  show _ :: decodeAll (List.drop _ _) = _
  rw [← length_encodeFrame frame.type, List.drop_left]

theorem receiveAll_eq_decodeAll (socket : Socket) :
    receiveAll socket = decodeAll (stream socket) := by
  induction socket using receiveAll.induct with
  | case1 socket e rest hrecv =>
      rw [receiveAll, hrecv, decodeAll]
      cases hdecode : decodeFrame (stream socket) with
      | error e => rfl
      | ok result =>
          obtain ⟨hsize, tail, hstream, -⟩ := decodeFrame_iff.1 hdecode
          obtain ⟨rest', hreceived, -⟩ := recvFrame_of_stream hsize hstream
          rw [hrecv] at hreceived
          cases hreceived
  | case2 socket frame rest hrecv ih =>
      obtain ⟨hsize, hstream⟩ := recvFrame_ok hrecv
      rw [receiveAll, hrecv, hstream, decodeAll_append hsize]
      exact congrArg _ ih

theorem decodeAll_flatMap {frames : List DecodedFrame}
    (hsize : ∀ f ∈ frames, f.payload.length ≤ maxPayload.toNat) :
    decodeAll (frames.flatMap fun f => encodeFrame f.type f.payload) = frames := by
  induction frames with
  | nil => rw [List.flatMap_nil, decodeAll]; rfl
  | cons f frames ih =>
      have hrest := ih fun g hg => hsize g (List.mem_cons_of_mem f hg)
      rw [List.flatMap_cons, decodeAll_append (hsize f List.mem_cons_self), hrest]

/-- However the stream is cut up, what is received is what the stream decodes
to; a stream of frames is received as those frames. -/
theorem receiveAll_exact (socket : Socket) :
    receiveAll socket = decodeAll (stream socket) ∧
      ∀ frames : List DecodedFrame, (∀ f ∈ frames, f.payload.length ≤ maxPayload.toNat) →
        (stream socket = frames.flatMap fun f => encodeFrame f.type f.payload) →
        receiveAll socket = frames := by
  have hsame := receiveAll_eq_decodeAll socket
  refine ⟨hsame, fun frames hsize hstream => ?_⟩
  rw [hsame, hstream, decodeAll_flatMap hsize]

end ExecutionFabric
