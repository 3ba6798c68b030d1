import ExecutionFabric.Library.Layout
import ExecutionFabric.Persistence.RoundTrip

/-!
Stored records, and how they are stored again.

The encoder writes its presence flags as zeros and ones, and the decoder takes
every other byte for a one. So a record that was read is written back byte for
byte exactly if the flags it was read from are zeros and ones
(`canonical_iff`); nothing else in the encoding leaves a choice.
-/

namespace ExecutionFabric

open Reading Layout

/-! ### Layouts -/

abbrev idLayout : Layout := .bytes 16

abbrev genLayout : Layout := .bytes 8

abbrev byteLayout : Layout := .bytes 1

abbrev digestLayout : Layout := .bytes 32

/-- The layout of the loop body of `encode_record`. -/
def attemptLayout : Layout :=
  .append idLayout (.append genLayout (.append idLayout (.append idLayout (.append idLayout
    (.append genLayout (.append genLayout (.append genLayout (.append byteLayout
    (.append byteLayout (.append (.optional digestLayout) (.append (.optional .text)
    (.optional .text))))))))))))

/-- The layout of `encode_record`. -/
def recordLayout : Layout :=
  .append idLayout (.append genLayout (.append byteLayout (.append genLayout (.append genLayout
    (.append genLayout (.append (.optional idLayout) (.append (.optional genLayout)
    (.append (.optional idLayout) (.append (.optional idLayout) (.append genLayout
    (.append genLayout (.append genLayout (.append genLayout (.append genLayout
    (.append (.optional digestLayout) (.append (.counted attemptLayout)
    (.append .text .text)))))))))))))))))

/-- The bytes of a stored record that say whether a field follows. -/
def presenceBytes (b : ByteString) : List UInt8 := recordLayout.flags b

/-! ### Spellings -/

theorem normal_text {bs s : ByteString} (h : TextSpelled bs s) :
    Normal .text bs (ByteWriter.string s) := by
  obtain ⟨hsize, rfl⟩ := h
  have hnat := toNat_size hsize
  have hlt : s.length < 2 ^ 32 := hnat ▸ UInt32.toNat_lt _
  rw [ByteWriter.string, ByteWriter.u32, hnat]
  exact .text hlt rfl

theorem normal_option {α : Type} {l : Layout} {W : ByteString → α → Prop}
    {write : α → ByteString} {bs : ByteString} {a : Option α}
    (h : ∀ bs x, W bs x → Normal l bs (write x)) (hbs : Presence W bs a) :
    Normal (.optional l) bs (ByteWriter.option write a) := by
  cases hbs with
  | absent => exact .absent l
  | present hflag hx => exact .present hflag (h _ _ hx)

theorem normal_texts {bs : ByteString} {s : Option ByteString} (hbs : Presence TextSpelled bs s) :
    Normal (.optional .text) bs (ByteWriter.option ByteWriter.string s) :=
  normal_option (fun _ _ hs => normal_text hs) hbs

theorem normal_written {α : Type} {n : ℕ} {write : α → ByteString} {bs : ByteString}
    {a : Option α} (hn : ∀ x, (write x).length = n)
    (hbs : Presence (fun bs x => bs = write x) bs a) :
    Normal (.optional (.bytes n)) bs (ByteWriter.option write a) := by
  refine normal_option (fun bs x hx => ?_) hbs
  rw [hx]
  exact .bytes (hn x)

theorem normal_id {Tag : Type} (i : Id Tag) :
    Normal idLayout (ByteWriter.id i) (ByteWriter.id i) := .bytes (ByteWriter.length_id i)

theorem normal_gen {Tag : Type} (g : Gen Tag) :
    Normal genLayout (ByteWriter.gen g) (ByteWriter.gen g) := .bytes (ByteWriter.length_gen g)

theorem normal_byte (v : UInt8) : Normal byteLayout (ByteWriter.u8 v) (ByteWriter.u8 v) :=
  .bytes rfl

theorem length_encodeDigest (d : ResultDigest) : (encodeDigest d).length = 32 :=
  ByteWriter.length_bytes d.bytes

theorem normal_attempt {bs : ByteString} {a : AttemptRecord} (h : AttemptSpelled bs a) :
    Normal attemptLayout bs (encodeAttempt a) := by
  obtain ⟨hdigest, hpayload, hfailure⟩ := h
  refine (normal_id a.id).append ?_
  refine (normal_gen a.generation).append ?_
  refine (normal_id a.workerId).append ?_
  refine (normal_id a.workerBootId).append ?_
  refine (normal_id a.dispatchId).append ?_
  refine (normal_gen a.dispatchGeneration).append ?_
  refine (normal_gen a.ownershipGeneration).append ?_
  refine (normal_gen a.fenceGeneration).append ?_
  refine (normal_byte a.executionStateAtDispatch.code).append ?_
  refine (normal_byte a.state.code).append ?_
  refine (normal_written length_encodeDigest hdigest).append ?_
  exact (normal_texts hpayload).append (normal_texts hfailure)

theorem normal_attempts {bs : ByteString} {as : List AttemptRecord} (h : AttemptsSpelled bs as) :
    Normal (.counted attemptLayout) bs
      (ByteWriter.u32 as.length.toUInt32 ++ as.flatMap encodeAttempt) := by
  obtain ⟨hcount, h⟩ := h
  rw [ByteWriter.u32, (toNat_count hcount).1]
  exact .counted (by omega) (fun _ _ => normal_attempt) h

theorem normal_record {bs : ByteString} {r : ExecutionRecord} (h : RecordSpelled bs r) :
    Normal recordLayout bs (encodeRecord r) := by
  obtain ⟨hattempt, hgeneration, hworker, hboot, hdigest, hattempts, hcreated, hcommitted⟩ := h
  have hlist := (normal_attempts hattempts).append
    ((normal_text hcreated).append (normal_text hcommitted))
  rw [List.append_assoc (ByteWriter.u32 _)] at hlist
  refine (normal_id r.id).append ?_
  refine (normal_gen r.generation).append ?_
  refine (normal_byte r.state.code).append ?_
  refine (normal_gen r.coordinatorEpoch).append ?_
  refine (normal_gen r.ownershipGeneration).append ?_
  refine (normal_gen r.fenceGeneration).append ?_
  refine (normal_written ByteWriter.length_id hattempt).append ?_
  refine (normal_written ByteWriter.length_gen hgeneration).append ?_
  refine (normal_written ByteWriter.length_id hworker).append ?_
  refine (normal_written ByteWriter.length_id hboot).append ?_
  refine (normal_gen r.cancellationGeneration).append ?_
  refine (normal_gen r.preemptionGeneration).append ?_
  refine (normal_gen r.resumeGeneration).append ?_
  refine (normal_gen r.completionGeneration).append ?_
  refine (normal_gen r.commitGeneration).append ?_
  exact (normal_written length_encodeDigest hdigest).append hlist

/-- A record is written back as it was stored exactly if each of its presence
bytes is zero or one. -/
theorem canonical_iff {b : ByteString} {r : ExecutionRecord} (h : decodeRecord b = .ok r) :
    encodeRecord r = b ↔ ∀ flag ∈ presenceBytes b, flag = 0 ∨ flag = 1 := by
  rw [eq_comm]
  exact (normal_record (spelled_of_decode h).1).eq_iff

namespace Sample

/-- The bytes of a record, with a two for the flag of the current attempt. -/
def respelledRecord : ByteString := (encodeRecord storedRecord).set 49 2

theorem respelled_decodes : decodeRecord respelledRecord = .ok storedRecord := by
  have hfits := storable_storedRecord.fits _ (List.mem_singleton_self _)
  have hflag : Presence (fun bs i => bs = ByteWriter.id i)
      (ByteWriter.u8 2 ++ ByteWriter.id storedAttempt.id) storedRecord.currentAttemptId :=
    .present (by decide) rfl
  have hattempts := AttemptsSpelled.mk hfits.count
    (pieces_flatMap fun a ha => attemptSpelled_encode (hfits.attempts a ha))
  have hspelled := RecordSpelled.mk hflag (presence_option fun _ _ => rfl)
    (presence_option fun _ _ => rfl) (presence_option fun _ _ => rfl)
    (presence_option fun _ _ => rfl) hattempts ⟨hfits.createdAt, rfl⟩ ⟨hfits.committedAt, rfl⟩
  refine decode_iff.2 ⟨(congrArg (RecordSpelled · storedRecord) ?_).mpr hspelled, ?_⟩
  · decide +kernel
  · exact validate_iff.1 rfl

end Sample

theorem canonical_sample :
    encodeRecord Sample.storedRecord = Sample.respelledRecord ↔
      ∀ flag ∈ presenceBytes Sample.respelledRecord, flag = 0 ∨ flag = 1 :=
  canonical_iff Sample.respelled_decodes

theorem respelled_changes :
    ¬∀ b r, decodeRecord b = .ok r → encodeRecord r = b := by
  intro h
  exact absurd (h _ _ Sample.respelled_decodes) (by decide +kernel)

end ExecutionFabric
