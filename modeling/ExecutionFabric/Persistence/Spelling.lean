import ExecutionFabric.Persistence

/-!
The bytes of a record, as the reader sees them.

The reader is a little more liberal than the writer: every presence flag but
zero reads as set. So a record has several spellings, one for each choice of
its flags, and the bytes `encode_record` writes are one of them. `AttemptSpelled`
and `RecordSpelled` say which byte strings spell what, with the limits that the
reader puts on texts and on the number of attempts.

A decoder is exact for its spellings: it reads them whatever follows
(`reads_fields`), and what it has read was spelled by the bytes it took
(`took_fields`).
-/

namespace ExecutionFabric

open Reading

/-! ### Texts, digests, states -/

def TextSpelled (bs s : ByteString) : Prop :=
  s.length ≤ ByteReader.maxString ∧ bs = ByteWriter.string s

theorem reads_text {error : String} {bs s : ByteString} (h : TextSpelled bs s) :
    Reads (Decoder.read ByteReader.string error) bs s := by
  rw [h.2]
  exact reads_string h.1

theorem took_text {error : String} {r t : ByteReader} {s : ByteString}
    (h : Decoder.read ByteReader.string error r = .ok (s, t)) :
    ∃ bs, TextSpelled bs s ∧ Took bs r t :=
  ⟨_, ⟨(took_string h).1, rfl⟩, (took_string h).2⟩

theorem reads_digest {error : String} (d : ResultDigest) :
    Reads (Decoder.digest error) (encodeDigest d) d :=
  (reads_bytes d.bytes).map

theorem took_digest {error : String} {s t : ByteReader} {d : ResultDigest}
    (h : Decoder.digest error s = .ok (d, t)) : Took (encodeDigest d) s t := by
  obtain ⟨v, hv, rfl⟩ := map_eq_ok.1 h
  exact took_bytes hv

/-! ### Limits -/

/-- The texts of the attempt are short enough to be read back. -/
structure AttemptRecord.Fits (a : AttemptRecord) : Prop where
  payload : ∀ s, a.resultPayloadHex = some s → s.length ≤ ByteReader.maxString
  failure : ∀ s, a.failureReason = some s → s.length ≤ ByteReader.maxString

/-- The record is within the limits of the reader. -/
structure ExecutionRecord.Fits (r : ExecutionRecord) : Prop where
  count : r.attempts.length ≤ 2 ^ 20
  attempts : ∀ a ∈ r.attempts, a.Fits
  createdAt : r.createdAt.length ≤ ByteReader.maxString
  committedAt : r.committedAt.length ≤ ByteReader.maxString

/-! ### Attempts -/

inductive AttemptSpelled : ByteString → AttemptRecord → Prop
  | mk {a : AttemptRecord} {digest payload failure : ByteString}
      (hdigest : Presence (fun bs d => bs = encodeDigest d) digest a.resultDigest)
      (hpayload : Presence TextSpelled payload a.resultPayloadHex)
      (hfailure : Presence TextSpelled failure a.failureReason) :
      AttemptSpelled (ByteWriter.id a.id ++ (ByteWriter.gen a.generation
        ++ (ByteWriter.id a.workerId ++ (ByteWriter.id a.workerBootId
        ++ (ByteWriter.id a.dispatchId ++ (ByteWriter.gen a.dispatchGeneration
        ++ (ByteWriter.gen a.ownershipGeneration ++ (ByteWriter.gen a.fenceGeneration
        ++ (ByteWriter.u8 a.executionStateAtDispatch.code ++ (ByteWriter.u8 a.state.code
        ++ (digest ++ (payload ++ failure)))))))))))) a

theorem reads_attempt {bs : ByteString} {a : AttemptRecord} (h : AttemptSpelled bs a) :
    Reads decodeAttempt bs a := by
  obtain @⟨a, digest, payload, failure, hdigest, hpayload, hfailure⟩ := h
  refine (reads_id a.id).bind ?_
  refine (reads_gen a.generation).bind ?_
  refine (reads_id a.workerId).bind ?_
  refine (reads_id a.workerBootId).bind ?_
  refine (reads_id a.dispatchId).bind ?_
  refine (reads_gen a.dispatchGeneration).bind ?_
  refine (reads_gen a.ownershipGeneration).bind ?_
  refine (reads_gen a.fenceGeneration).bind ?_
  refine (reads_enum (ExecutionState.ofCode?_code a.executionStateAtDispatch)).bind ?_
  refine (reads_enum (AttemptState.ofCode?_code a.state)).bind ?_
  refine (reads_written reads_digest hdigest).bind ?_
  refine (reads_presence (fun _ _ _ hs => reads_text hs) hpayload).bind ?_
  exact (reads_presence (fun _ _ _ hs => reads_text hs) hfailure).last

theorem took_attempt {s t : ByteReader} {a : AttemptRecord} (h : decodeAttempt s = .ok (a, t)) :
    ∃ bs, AttemptSpelled bs a ∧ Took bs s t := by
  unfold decodeAttempt at h
  obtain ⟨id, s₁, h₁, h⟩ := bind_eq_ok.1 h
  obtain ⟨generation, s₂, h₂, h⟩ := bind_eq_ok.1 h
  obtain ⟨workerId, s₃, h₃, h⟩ := bind_eq_ok.1 h
  obtain ⟨workerBootId, s₄, h₄, h⟩ := bind_eq_ok.1 h
  obtain ⟨dispatchId, s₅, h₅, h⟩ := bind_eq_ok.1 h
  obtain ⟨dispatchGeneration, s₆, h₆, h⟩ := bind_eq_ok.1 h
  obtain ⟨ownershipGeneration, s₇, h₇, h⟩ := bind_eq_ok.1 h
  obtain ⟨fenceGeneration, s₈, h₈, h⟩ := bind_eq_ok.1 h
  obtain ⟨executionStateAtDispatch, s₉, h₉, h⟩ := bind_eq_ok.1 h
  obtain ⟨state, s₁₀, h₁₀, h⟩ := bind_eq_ok.1 h
  obtain ⟨resultDigest, s₁₁, h₁₁, h⟩ := bind_eq_ok.1 h
  obtain ⟨resultPayloadHex, s₁₂, h₁₂, h⟩ := bind_eq_ok.1 h
  obtain ⟨failureReason, s₁₃, h₁₃, h⟩ := bind_eq_ok.1 h
  obtain ⟨rfl, rfl⟩ := Prod.mk.inj (Except.ok.inj h)
  obtain ⟨digest, hdigest, htook₁⟩ := took_written took_digest h₁₁
  obtain ⟨payload, hpayload, htook₂⟩ := took_option took_text h₁₂
  obtain ⟨failure, hfailure, htook₃⟩ := took_option took_text h₁₃
  refine ⟨_, .mk hdigest hpayload hfailure, ?_⟩
  refine (took_id h₁).trans ((took_gen h₂).trans ((took_id h₃).trans ((took_id h₄).trans ?_)))
  refine (took_id h₅).trans ((took_gen h₆).trans ((took_gen h₇).trans ((took_gen h₈).trans ?_)))
  refine (took_enum ExecutionState.code_of_ofCode? h₉).trans ?_
  refine (took_enum AttemptState.code_of_ofCode? h₁₀).trans ?_
  exact htook₁.trans (htook₂.trans htook₃)

theorem attemptSpelled_encode {a : AttemptRecord} (h : a.Fits) :
    AttemptSpelled (encodeAttempt a) a :=
  .mk (presence_option fun _ _ => rfl) (presence_option fun s hs => ⟨h.payload s hs, rfl⟩)
    (presence_option fun s hs => ⟨h.failure s hs, rfl⟩)

/-! ### Records -/

/-- A number of elements within the limit is written without loss. -/
theorem toNat_count {n : ℕ} (h : n ≤ 2 ^ 20) : n.toUInt32.toNat = n ∧ ¬maxCount < n.toUInt32 := by
  have hnat : n.toUInt32.toNat = n := by
    rw [UInt32.toNat_ofNat']
    omega
  refine ⟨hnat, ?_⟩
  rw [UInt32.lt_iff_toNat_lt, hnat]
  exact Nat.not_lt.2 h

/-- The number of attempts, and the attempts. -/
inductive AttemptsSpelled : ByteString → List AttemptRecord → Prop
  | mk {bs : ByteString} {as : List AttemptRecord} (hcount : as.length ≤ 2 ^ 20)
      (h : Pieces AttemptSpelled bs as) :
      AttemptsSpelled (ByteWriter.u32 as.length.toUInt32 ++ bs) as

theorem reads_attempts {bs : ByteString} {as : List AttemptRecord} (h : AttemptsSpelled bs as) :
    Reads decodeAttempts bs as := by
  obtain ⟨hcount, h⟩ := h
  obtain ⟨hnat, hlimit⟩ := toNat_count hcount
  refine (reads_u32 _).bind (.passes hlimit ?_)
  rw [hnat]
  exact .pieces (fun _ _ _ ha => reads_attempt ha) h

theorem took_attempts {s t : ByteReader} {as : List AttemptRecord}
    (h : decodeAttempts s = .ok (as, t)) : ∃ bs, AttemptsSpelled bs as ∧ Took bs s t := by
  unfold decodeAttempts at h
  obtain ⟨n, s₁, hn, h⟩ := bind_eq_ok.1 h
  obtain ⟨hlimit, h⟩ := passes_eq_ok.1 h
  obtain ⟨hlength, bs, hpieces, hbs⟩ := took_many took_attempt h
  have hcount : as.length ≤ 2 ^ 20 := by
    rw [hlength]
    exact Nat.not_lt.1 fun hlt => hlimit (UInt32.lt_iff_toNat_lt.2 hlt)
  have hback : as.length.toUInt32 = n := by
    rw [hlength]
    simp
  exact ⟨_, .mk hcount hpieces, (hback ▸ took_u32 hn).trans hbs⟩

inductive RecordSpelled : ByteString → ExecutionRecord → Prop
  | mk {r : ExecutionRecord}
      {attempt generation worker boot digest attempts createdAt committedAt : ByteString}
      (hattempt : Presence (fun bs i => bs = ByteWriter.id i) attempt r.currentAttemptId)
      (hgeneration : Presence (fun bs g => bs = ByteWriter.gen g) generation
        r.currentAttemptGeneration)
      (hworker : Presence (fun bs i => bs = ByteWriter.id i) worker r.ownerWorker)
      (hboot : Presence (fun bs i => bs = ByteWriter.id i) boot r.ownerWorkerBoot)
      (hdigest : Presence (fun bs d => bs = encodeDigest d) digest r.committedDigest)
      (hattempts : AttemptsSpelled attempts r.attempts)
      (hcreated : TextSpelled createdAt r.createdAt)
      (hcommitted : TextSpelled committedAt r.committedAt) :
      RecordSpelled (ByteWriter.id r.id ++ (ByteWriter.gen r.generation
        ++ (ByteWriter.u8 r.state.code ++ (ByteWriter.gen r.coordinatorEpoch
        ++ (ByteWriter.gen r.ownershipGeneration ++ (ByteWriter.gen r.fenceGeneration
        ++ (attempt ++ (generation ++ (worker ++ (boot
        ++ (ByteWriter.gen r.cancellationGeneration ++ (ByteWriter.gen r.preemptionGeneration
        ++ (ByteWriter.gen r.resumeGeneration ++ (ByteWriter.gen r.completionGeneration
        ++ (ByteWriter.gen r.commitGeneration ++ (digest
        ++ (attempts ++ (createdAt ++ committedAt)))))))))))))))))) r

theorem reads_fields {bs : ByteString} {r : ExecutionRecord} (h : RecordSpelled bs r) :
    Reads decodeFields bs r := by
  obtain ⟨hattempt, hgeneration, hworker, hboot, hdigest, hattempts, hcreated, hcommitted⟩ := h
  refine (reads_id r.id).bind ?_
  refine (reads_gen r.generation).bind ?_
  refine (reads_enum (ExecutionState.ofCode?_code r.state)).bind ?_
  refine (reads_gen r.coordinatorEpoch).bind ?_
  refine (reads_gen r.ownershipGeneration).bind ?_
  refine (reads_gen r.fenceGeneration).bind ?_
  refine (reads_written reads_id hattempt).bind ?_
  refine (reads_written reads_gen hgeneration).bind ?_
  refine (reads_written reads_id hworker).bind ?_
  refine (reads_written reads_id hboot).bind ?_
  refine (reads_gen r.cancellationGeneration).bind ?_
  refine (reads_gen r.preemptionGeneration).bind ?_
  refine (reads_gen r.resumeGeneration).bind ?_
  refine (reads_gen r.completionGeneration).bind ?_
  refine (reads_gen r.commitGeneration).bind ?_
  refine (reads_written reads_digest hdigest).bind ?_
  refine (reads_attempts hattempts).bind ?_
  refine (reads_text hcreated).bind ?_
  exact (reads_text hcommitted).last

theorem took_fields {s t : ByteReader} {r : ExecutionRecord} (h : decodeFields s = .ok (r, t)) :
    ∃ bs, RecordSpelled bs r ∧ Took bs s t := by
  unfold decodeFields at h
  obtain ⟨id, s₁, h₁, h⟩ := bind_eq_ok.1 h
  obtain ⟨generation, s₂, h₂, h⟩ := bind_eq_ok.1 h
  obtain ⟨state, s₃, h₃, h⟩ := bind_eq_ok.1 h
  obtain ⟨coordinatorEpoch, s₄, h₄, h⟩ := bind_eq_ok.1 h
  obtain ⟨ownershipGeneration, s₅, h₅, h⟩ := bind_eq_ok.1 h
  obtain ⟨fenceGeneration, s₆, h₆, h⟩ := bind_eq_ok.1 h
  obtain ⟨currentAttemptId, s₇, h₇, h⟩ := bind_eq_ok.1 h
  obtain ⟨currentAttemptGeneration, s₈, h₈, h⟩ := bind_eq_ok.1 h
  obtain ⟨ownerWorker, s₉, h₉, h⟩ := bind_eq_ok.1 h
  obtain ⟨ownerWorkerBoot, s₁₀, h₁₀, h⟩ := bind_eq_ok.1 h
  obtain ⟨cancellationGeneration, s₁₁, h₁₁, h⟩ := bind_eq_ok.1 h
  obtain ⟨preemptionGeneration, s₁₂, h₁₂, h⟩ := bind_eq_ok.1 h
  obtain ⟨resumeGeneration, s₁₃, h₁₃, h⟩ := bind_eq_ok.1 h
  obtain ⟨completionGeneration, s₁₄, h₁₄, h⟩ := bind_eq_ok.1 h
  obtain ⟨commitGeneration, s₁₅, h₁₅, h⟩ := bind_eq_ok.1 h
  obtain ⟨committedDigest, s₁₆, h₁₆, h⟩ := bind_eq_ok.1 h
  obtain ⟨attempts, s₁₇, h₁₇, h⟩ := bind_eq_ok.1 h
  obtain ⟨createdAt, s₁₈, h₁₈, h⟩ := bind_eq_ok.1 h
  obtain ⟨committedAt, s₁₉, h₁₉, h⟩ := bind_eq_ok.1 h
  obtain ⟨rfl, rfl⟩ := Prod.mk.inj (Except.ok.inj h)
  obtain ⟨_, hattempt, htook₁⟩ := took_written took_id h₇
  obtain ⟨_, hgeneration, htook₂⟩ := took_written took_gen h₈
  obtain ⟨_, hworker, htook₃⟩ := took_written took_id h₉
  obtain ⟨_, hboot, htook₄⟩ := took_written took_id h₁₀
  obtain ⟨_, hdigest, htook₅⟩ := took_written took_digest h₁₆
  obtain ⟨_, hattempts, htook₆⟩ := took_attempts h₁₇
  obtain ⟨_, hcreated, htook₇⟩ := took_text h₁₈
  obtain ⟨_, hcommitted, htook₈⟩ := took_text h₁₉
  refine ⟨_, .mk hattempt hgeneration hworker hboot hdigest hattempts hcreated hcommitted, ?_⟩
  refine (took_id h₁).trans ((took_gen h₂).trans ?_)
  refine (took_enum ExecutionState.code_of_ofCode? h₃).trans ?_
  refine (took_gen h₄).trans ((took_gen h₅).trans ((took_gen h₆).trans ?_))
  refine htook₁.trans (htook₂.trans (htook₃.trans (htook₄.trans ?_)))
  refine (took_gen h₁₁).trans ((took_gen h₁₂).trans ((took_gen h₁₃).trans ?_))
  refine (took_gen h₁₄).trans ((took_gen h₁₅).trans ?_)
  exact htook₅.trans (htook₆.trans (htook₇.trans htook₈))

theorem recordSpelled_encode {r : ExecutionRecord} (h : r.Fits) :
    RecordSpelled (encodeRecord r) r := by
  have hattempts : AttemptsSpelled
      (ByteWriter.u32 r.attempts.length.toUInt32 ++ r.attempts.flatMap encodeAttempt) r.attempts :=
    .mk h.count (pieces_flatMap fun a ha => attemptSpelled_encode (h.attempts a ha))
  have hall := RecordSpelled.mk (r := r) (presence_option fun _ _ => rfl)
    (presence_option fun _ _ => rfl) (presence_option fun _ _ => rfl)
    (presence_option fun _ _ => rfl) (presence_option fun _ _ => rfl) hattempts
    ⟨h.createdAt, rfl⟩ ⟨h.committedAt, rfl⟩
  rwa [List.append_assoc (ByteWriter.u32 _)] at hall

end ExecutionFabric
