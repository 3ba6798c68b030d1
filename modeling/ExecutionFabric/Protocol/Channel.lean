import ExecutionFabric.Protocol.Transport

/-!
The sending end of a connection, and a connection from end to end.

An outlet is what the calls of `send` will do: find no room, take some of the
bytes they are given, or fail; after the last of them every call fails. A
connection that has failed stays so (`Broken`), so that nothing follows a frame
that was cut off.

What is read at the other end is a beginning of what was written. However the
bytes were taken and delivered, what is received are the frames whose sending
succeeded, in their order, or the first of them (`channel_exact`).
-/

namespace ExecutionFabric

/-- What a call of `::send` does. -/
inductive Acceptance
  | wouldBlock
  | takes (n : ℕ) (positive : 0 < n)
  | fails
  deriving DecidableEq

abbrev Outlet := List Acceptance

/-- What came of sending some bytes: whether all of them were taken, those that
were, and what the later calls will do. -/
structure Sending where
  done : Bool
  written : ByteString
  outlet : Outlet

/-- `TcpConnection::send_all`. -/
def sendAll : ByteString → Outlet → Sending
  | [], outlet => ⟨true, [], outlet⟩
  | _ :: _, [] => ⟨false, [], []⟩
  | b :: bytes, .wouldBlock :: outlet => sendAll (b :: bytes) outlet
  | b :: bytes, .takes n _ :: outlet =>
    let more := sendAll ((b :: bytes).drop n) outlet
    { more with written := (b :: bytes).take n ++ more.written }
  | _ :: _, .fails :: outlet => ⟨false, [], outlet⟩

/-- `TcpConnection::send_frame`. -/
def sendFrame (type : MsgType) (payload : ByteString) (outlet : Outlet) : Sending :=
  sendAll (encodeFrame type payload) outlet

/-- The error text of `send_frame`, if it returned false. -/
def Sending.error? (s : Sending) : Option ByteString :=
  if s.done then none else some (text "connection closed while sending")

/-- What came of sending frames: those for which `send_frame` returned true. -/
structure Transmission where
  sent : List DecodedFrame
  written : ByteString
  outlet : Outlet

/-- One frame after the other, whatever `send_frame` returns. -/
def sendFrames : List DecodedFrame → Outlet → Transmission
  | [], outlet => ⟨[], [], outlet⟩
  | f :: frames, outlet =>
    let first := sendFrame f.type f.payload outlet
    let more := sendFrames frames first.outlet
    { more with
      sent := if first.done then f :: more.sent else more.sent
      written := first.written ++ more.written }

/-- The bytes of a list of frames. -/
def encodeFrames (frames : List DecodedFrame) : ByteString :=
  frames.flatMap fun f => encodeFrame f.type f.payload

/-- The connection takes no more bytes. -/
def Broken (outlet : Outlet) : Prop := ∀ n positive, Acceptance.takes n positive ∉ outlet

/-- A connection that has failed stays so. -/
def FailsForGood (outlet : Outlet) : Prop :=
  ∀ before after, outlet = before ++ .fails :: after → Broken after

theorem encodeFrame_pos (type : MsgType) (payload : ByteString) :
    0 < (encodeFrame type payload).length := by
  rw [length_encodeFrame, frameHeaderLen]
  omega

/-! ### What is written -/

section

variable {data : ByteString} {outlet : Outlet} {frames : List DecodedFrame}

@[simp] theorem sendAll_nil (outlet : Outlet) : sendAll [] outlet = ⟨true, [], outlet⟩ := by
  rw [sendAll]

/-- What was taken is a beginning of the bytes, and all of them exactly if the
call returns true. -/
theorem sendAll_written (data : ByteString) (outlet : Outlet) :
    (sendAll data outlet).written <+: data ∧
      ((sendAll data outlet).done = true ↔ (sendAll data outlet).written = data) := by
  induction data, outlet using sendAll.induct with
  | case1 outlet => simp
  | case2 b bytes => exact ⟨List.nil_prefix, iff_of_false Bool.false_ne_true nofun⟩
  | case3 b bytes outlet ih => exact ih
  | case4 b bytes n positive outlet ih =>
      have hsplit := List.take_append_drop n (b :: bytes)
      refine ⟨?_, ih.2.trans ?_⟩
      · conv_rhs => rw [← hsplit]
        exact (List.prefix_append_right_inj _).2 ih.1
      · conv_rhs => rhs; rw [← hsplit]
        exact (List.append_right_inj _).symm
  | case5 b bytes outlet => exact ⟨List.nil_prefix, iff_of_false Bool.false_ne_true nofun⟩

/-- Of a frame that was not sent something is missing. -/
theorem written_of_not_done (h : (sendAll data outlet).done = false) :
    (sendAll data outlet).written <+: data ∧ (sendAll data outlet).written ≠ data := by
  obtain ⟨hbegins, hdone⟩ := sendAll_written data outlet
  refine ⟨hbegins, fun hall => ?_⟩
  rw [hdone.2 hall] at h
  cases h

theorem Broken.tail {a : Acceptance} (h : Broken (a :: outlet)) : Broken outlet :=
  fun n positive hmem => h n positive (List.mem_cons_of_mem a hmem)

theorem FailsForGood.tail {a : Acceptance} (h : FailsForGood (a :: outlet)) :
    FailsForGood outlet := fun before after heq => h (a :: before) after (by rw [heq]; rfl)

/-- Nothing is taken by a connection that is broken. -/
theorem sendAll_of_broken (data : ByteString) (h : Broken outlet) :
    (sendAll data outlet).written = [] ∧ Broken (sendAll data outlet).outlet := by
  induction data, outlet using sendAll.induct with
  | case1 outlet => exact ⟨by simp, by simpa using h⟩
  | case2 b bytes => exact ⟨rfl, h⟩
  | case3 b bytes outlet ih => exact ih h.tail
  | case4 b bytes n positive outlet ih => exact absurd List.mem_cons_self (h n positive)
  | case5 b bytes outlet => exact ⟨rfl, h.tail⟩

/-- A connection that would not take all of the bytes is broken. -/
theorem sendAll_outlet (data : ByteString) (h : FailsForGood outlet) :
    FailsForGood (sendAll data outlet).outlet ∧
      ((sendAll data outlet).done = false → Broken (sendAll data outlet).outlet) := by
  induction data, outlet using sendAll.induct with
  | case1 outlet => exact ⟨by simpa using h, by simp⟩
  | case2 b bytes => exact ⟨h, fun _ _ _ => List.not_mem_nil⟩
  | case3 b bytes outlet ih => exact ih h.tail
  | case4 b bytes n positive outlet ih => exact ih h.tail
  | case5 b bytes outlet => exact ⟨h.tail, fun _ => h [] outlet rfl⟩

theorem sendFrame_of_broken (type : MsgType) (payload : ByteString) (h : Broken outlet) :
    (sendFrame type payload outlet).done = false ∧ (sendFrame type payload outlet).written = [] ∧
      Broken (sendFrame type payload outlet).outlet := by
  obtain ⟨hnone, hbroken⟩ := sendAll_of_broken (encodeFrame type payload) h
  refine ⟨?_, hnone, hbroken⟩
  rw [← Bool.not_eq_true, sendFrame, (sendAll_written _ _).2, hnone]
  exact fun heq => absurd (congrArg List.length heq) (encodeFrame_pos _ _).ne

theorem sendFrames_of_broken (frames : List DecodedFrame) (h : Broken outlet) :
    (sendFrames frames outlet).sent = [] ∧ (sendFrames frames outlet).written = [] := by
  induction frames generalizing outlet with
  | nil => exact ⟨rfl, rfl⟩
  | cons f frames ih =>
      obtain ⟨hfailed, hnone, hbroken⟩ := sendFrame_of_broken f.type f.payload h
      obtain ⟨hsent, hwritten⟩ := ih hbroken
      refine ⟨?_, ?_⟩
      · simp only [sendFrames, hfailed, if_neg Bool.false_ne_true]
        exact hsent
      · simp only [sendFrames, hnone, List.nil_append]
        exact hwritten

/-- On a connection that stays failed, the frames that were sent come first, and
behind them is less than a frame. -/
theorem sendFrames_written (frames : List DecodedFrame) (h : FailsForGood outlet) :
    (sendFrames frames outlet).sent <+: frames ∧
      ∃ torn, (sendFrames frames outlet).written =
          encodeFrames (sendFrames frames outlet).sent ++ torn ∧
        (torn = [] ∨ ∃ f ∈ frames, torn <+: encodeFrame f.type f.payload ∧
          torn ≠ encodeFrame f.type f.payload) := by
  induction frames generalizing outlet with
  | nil => exact ⟨List.prefix_rfl, [], rfl, .inl rfl⟩
  | cons f frames ih =>
      obtain ⟨hgood, hbroken⟩ := sendAll_outlet (encodeFrame f.type f.payload) h
      cases hdone : (sendFrame f.type f.payload outlet).done with
      | true =>
          obtain ⟨hsent, torn, hwritten, htorn⟩ := ih hgood
          have hfirst := (sendAll_written (encodeFrame f.type f.payload) outlet).2.1 hdone
          simp only [sendFrames, hdone, if_true]
          refine ⟨List.cons_prefix_cons.2 ⟨rfl, hsent⟩, torn, ?_, ?_⟩
          · show (sendAll _ outlet).written ++ _ = _
            rw [hfirst, sendFrame, hwritten, ← List.append_assoc]
            rfl
          · exact htorn.imp_right fun ⟨g, hg, hcut⟩ => ⟨g, List.mem_cons_of_mem f hg, hcut⟩
      | false =>
          -- the first failure: what was taken of this frame is the end of it all
          obtain ⟨hnone, hsilent⟩ := sendFrames_of_broken frames (hbroken hdone)
          simp only [sendFrames, hdone, if_neg Bool.false_ne_true]
          refine ⟨hnone ▸ List.nil_prefix, (sendFrame f.type f.payload outlet).written, ?_, .inr ?_⟩
          · show _ ++ (sendFrames frames (sendAll _ outlet).outlet).written = _
            rw [hsilent, sendFrame, hnone, List.append_nil]
            rfl
          · exact ⟨f, List.mem_cons_self, written_of_not_done hdone⟩

end

/-! ### What is received -/

section

variable {data : ByteString}

/-- More of a stream is decoded to more frames. -/
theorem decodeAll_mono {whole : ByteString} (h : data <+: whole) :
    decodeAll data <+: decodeAll whole := by
  induction data using decodeAll.induct generalizing whole with
  | case1 data e hdecode =>
      rw [decodeAll, hdecode]
      exact List.nil_prefix
  | case2 data frame consumed hdecode ih =>
      obtain ⟨more, rfl⟩ := h
      obtain ⟨hsize, tail, hdata, hconsumed⟩ := decodeFrame_iff.1 hdecode
      have hrest : data.drop consumed = tail := by
        rw [hdata, hconsumed, ← length_encodeFrame frame.type, List.drop_left]
      have hmore : decodeAll (data.drop consumed) <+: decodeAll (tail ++ more) :=
        ih (hrest ▸ List.prefix_append _ _)
      rw [hrest] at hmore
      rw [hdata, List.append_assoc, decodeAll_append hsize, decodeAll_append hsize]
      exact List.cons_prefix_cons.2 ⟨rfl, hmore⟩

/-- Less than a frame is no frame. -/
theorem decodeAll_torn {f : DecodedFrame} (hsize : f.payload.length ≤ maxPayload.toNat)
    (hpart : data <+: encodeFrame f.type f.payload)
    (hne : data ≠ encodeFrame f.type f.payload) : decodeAll data = [] := by
  rw [decodeAll]
  cases hdecode : decodeFrame data with
  | error e => rfl
  | ok result =>
      obtain ⟨more, hmore⟩ := hpart
      obtain ⟨hg, tail, hdata, -⟩ := decodeFrame_iff.1 hdecode
      have hwhole : encodeFrame f.type f.payload =
          encodeFrame result.1.type result.1.payload ++ (tail ++ more) := by
        rw [← hmore, hdata, List.append_assoc]
      have hfirst := decodeFrame_encodeFrame f.type hsize []
      rw [List.append_nil, hwhole, decodeFrame_encodeFrame result.1.type hg] at hfirst
      -- the frame that was decoded is the one that was cut, so nothing was cut off
      have hsame : result.1 = f := (Prod.mk.inj (Except.ok.inj hfirst)).1
      rw [hsame] at hwhole
      have hlength := congrArg List.length hwhole
      simp only [List.length_append] at hlength
      have htail : tail = [] := List.length_eq_zero_iff.1 (by omega)
      exact absurd (by rw [hdata, hsame, htail, List.append_nil]) hne

theorem decodeAll_encodeFrames {frames : List DecodedFrame}
    (hsize : ∀ f ∈ frames, f.payload.length ≤ maxPayload.toNat) (torn : ByteString) :
    decodeAll (encodeFrames frames ++ torn) = frames ++ decodeAll torn := by
  induction frames with
  | nil => rfl
  | cons f frames ih =>
      have hrest := ih fun g hg => hsize g (List.mem_cons_of_mem f hg)
      rw [encodeFrames, List.flatMap_cons, List.append_assoc,
        decodeAll_append (hsize f List.mem_cons_self)]
      exact congrArg _ hrest

/-- What was written is decoded to the frames whose sending succeeded. -/
theorem decodeAll_written {frames : List DecodedFrame} {outlet : Outlet}
    (hsize : ∀ f ∈ frames, f.payload.length ≤ maxPayload.toNat) (hgood : FailsForGood outlet) :
    decodeAll (sendFrames frames outlet).written = (sendFrames frames outlet).sent := by
  obtain ⟨hsent, torn, hwritten, htorn⟩ := sendFrames_written frames hgood
  have hnone : decodeAll torn = [] := by
    rcases htorn with rfl | ⟨f, hf, hpart, hne⟩
    · rw [decodeAll]
      rfl
    · exact decodeAll_torn (hsize f hf) hpart hne
  rw [hwritten, decodeAll_encodeFrames (fun f hf => hsize f (hsent.subset hf)), hnone,
    List.append_nil]

theorem receiveAll_of_arrived {frames : List DecodedFrame} {outlet : Outlet} {socket : Socket}
    (hsize : ∀ f ∈ frames, f.payload.length ≤ maxPayload.toNat) (hgood : FailsForGood outlet)
    (harrives : stream socket <+: (sendFrames frames outlet).written) :
    receiveAll socket <+: (sendFrames frames outlet).sent := by
  rw [receiveAll_eq_decodeAll, ← decodeAll_written hsize hgood]
  exact decodeAll_mono harrives

/-- A program at the end of a connection that writes the first frames of what it
says upon the frames it received: what is received from it is what it says to the
first of the frames that were sent to it. -/
theorem received_said {down : List DecodedFrame} {outlet outlet' : Outlet} {socket up : Socket}
    {speaks : List DecodedFrame → List DecodedFrame} {written : ByteString}
    (hsize : ∀ f ∈ down, f.payload.length ≤ maxPayload.toNat) (hgood : FailsForGood outlet)
    (hgood' : FailsForGood outlet') (hdown : stream socket <+: (sendFrames down outlet).written)
    (hsizes : (∀ f ∈ receiveAll socket, f.payload.length ≤ maxPayload.toNat) →
      ∀ f ∈ speaks (receiveAll socket), f.payload.length ≤ maxPayload.toNat)
    (hwritten : ∃ said, said <+: speaks (receiveAll socket) ∧
      written = (sendFrames said outlet').written) (hup : stream up <+: written) :
    ∃ got, got <+: down ∧ receiveAll up <+: speaks got := by
  have hgot := (receiveAll_of_arrived hsize hgood hdown).trans (sendFrames_written down hgood).1
  obtain ⟨said, hsaid, rfl⟩ := hwritten
  have hsizes := hsizes fun f hf => hsize f (hgot.subset hf)
  have htold := receiveAll_of_arrived (fun f hf => hsizes f (hsaid.subset hf)) hgood' hup
  exact ⟨_, hgot, (htold.trans (sendFrames_written said hgood').1).trans hsaid⟩

end

namespace Sample

/-- All of the bytes come at once. -/
def arriving (bytes : ByteString) : Socket := if h : bytes = [] then [] else [.piece bytes h]

@[simp] theorem stream_arriving (bytes : ByteString) : stream (arriving bytes) = bytes := by
  unfold arriving
  split
  · rename_i hnone
    rw [hnone]
    rfl
  · exact List.append_nil bytes

/-- There is room for each of the frames. -/
def ample (frames : List DecodedFrame) : Outlet :=
  frames.map fun f => .takes (encodeFrame f.type f.payload).length (encodeFrame_pos _ _)

theorem sendFrame_ample (f : DecodedFrame) (frames : List DecodedFrame) :
    sendFrame f.type f.payload (ample (f :: frames)) =
      ⟨true, encodeFrame f.type f.payload, ample frames⟩ := by
  obtain ⟨b, bytes, hbytes⟩ :=
    List.exists_cons_of_length_pos (encodeFrame_pos f.type f.payload)
  simp only [sendFrame, ample, List.map_cons, hbytes, sendAll, List.take_length,
    List.drop_length, List.append_nil]

theorem sendFrames_ample (frames : List DecodedFrame) :
    (sendFrames frames (ample frames)).sent = frames ∧
      (sendFrames frames (ample frames)).written = encodeFrames frames := by
  induction frames with
  | nil => exact ⟨rfl, rfl⟩
  | cons f frames ih =>
      simp only [sendFrames, sendFrame_ample, if_true]
      exact ⟨congrArg _ ih.1, congrArg _ ih.2⟩

theorem ample_failsForGood (frames : List DecodedFrame) : FailsForGood (ample frames) := by
  intro before after heq
  have hmem : Acceptance.fails ∈ ample frames := by simp [heq]
  obtain ⟨f, -, hf⟩ := List.mem_map.1 hmem
  cases hf

end Sample

end ExecutionFabric
