import ExecutionFabric.Persistence.Spelling

/-!
What was written is read back, and what is read back was written.

Whether `decode_record` accepts a spelling is a question about the record it
spells alone, and `Valid` lists what its cross-field validation asks for
(`decode_iff`). The same holds of snapshots: a file loads exactly when it is
sealed by its trailer, spells its records, and these are valid and have
different identities (`load_iff`). The file that `save` writes is one spelling,
so that it loads again when its records are valid (`load_save`).
-/

namespace ExecutionFabric

open Reading

/-! ### Records -/

/-- A spelled record is decoded, or refused for a reason found in the record. -/
theorem decode_spelled {bs : ByteString} {r : ExecutionRecord} (h : RecordSpelled bs r) :
    decodeRecord bs = (validate r).map fun _ => r := by
  obtain ⟨t, hrun, hok, hremaining⟩ := reads_whole (reads_fields h)
  rw [decodeRecord, hrun]
  simp only [hok, hremaining]
  cases validate r <;> rfl

/-- What is decoded was spelled, and passed the validation. -/
theorem spelled_of_decode {bs : ByteString} {r : ExecutionRecord} (h : decodeRecord bs = .ok r) :
    RecordSpelled bs r ∧ validate r = .ok () := by
  unfold decodeRecord at h
  split at h
  · cases h
  · rename_i record t hfields
    obtain ⟨cs, hspelled, htook⟩ := took_fields hfields
    split at h
    · cases h
    · split at h
      · cases h
      · rename_i hremaining
        split at h
        · cases h
        · rename_i hvalid
          obtain rfl := Except.ok.inj h
          have hall := took_whole htook (not_not.1 hremaining)
          exact ⟨hall ▸ hspelled, hvalid⟩

/-! ### Validation -/

/-- What the cross-field validation asks for. -/
structure ExecutionRecord.Valid (r : ExecutionRecord) : Prop where
  generation : r.generation.isSet = true
  attemptIds : (r.attempts.map (·.id)).Nodup
  dispatchIds : (r.attempts.map (·.dispatchId)).Nodup
  generations : ∀ a ∈ r.attempts, a.generation.isSet = true ∧ a.dispatchGeneration.isSet = true
  current : ∀ id, r.currentAttemptId = some id →
    ∃ a ∈ r.attempts, a.id = id ∧ r.currentAttemptGeneration = some a.generation
  committed : r.state = .committed → r.committedDigest ≠ none ∧ r.commitGeneration.isSet = true
  owned : r.state.active = true →
    r.currentAttemptId ≠ none ∧ r.ownerWorker ≠ none ∧ r.ownerWorkerBoot ≠ none

theorem validateAttempts_iff {attemptIds : List AttemptId} {dispatchIds : List DispatchId}
    {as : List AttemptRecord} :
    validateAttempts attemptIds dispatchIds as = .ok () ↔
      (as.map (·.id)).Nodup ∧ (∀ a ∈ as, a.id ∉ attemptIds) ∧
      (as.map (·.dispatchId)).Nodup ∧ (∀ a ∈ as, a.dispatchId ∉ dispatchIds) ∧
      ∀ a ∈ as, a.generation.isSet = true ∧ a.dispatchGeneration.isSet = true := by
  induction as generalizing attemptIds dispatchIds with
  | nil => simp [validateAttempts]
  | cons a as ih =>
      simp only [validateAttempts]
      split_ifs with h₁ h₂ h₃ h₄
      · simp [h₁]
      · simp [h₂]
      · simp_all
      · simp_all
      · -- the head passes; what the rest must avoid has grown by the head
        have hgenerations : a.generation.isSet = true ∧ a.dispatchGeneration.isSet = true := by
          simp_all
        have hhead : ∀ {β : Type} (f : AttemptRecord → β) (seen : List β), f a ∉ seen →
            (((as.map f).Nodup ∧ ∀ x ∈ as, f x ∉ f a :: seen) ↔
              ((a :: as).map f).Nodup ∧ ∀ x ∈ a :: as, f x ∉ seen) := by
          intro β f seen hnew
          simp only [List.map_cons, List.nodup_cons, List.mem_map, List.mem_cons, not_or,
            forall_eq_or_imp, not_exists, not_and]
          constructor
          · rintro ⟨hnodup, hold⟩
            exact ⟨⟨fun x hx => (hold x hx).1, hnodup⟩, hnew, fun x hx => (hold x hx).2⟩
          · rintro ⟨⟨hne, hnodup⟩, -, hold⟩
            exact ⟨hnodup, fun x hx => ⟨hne x hx, hold x hx⟩⟩
        have hids := hhead (·.id) attemptIds h₁
        have hdispatches := hhead (·.dispatchId) dispatchIds h₂
        rw [ih, ← and_assoc, hids, ← and_assoc (a := (as.map _).Nodup), hdispatches]
        simp [and_assoc, hgenerations]

/-- Without a match the loop keeps its flag. -/
theorem findCurrent_of_ne {current : AttemptId} {generation : Option AttemptGeneration}
    {found : Bool} {as : List AttemptRecord} (h : ∀ a ∈ as, a.id ≠ current) :
    findCurrent current generation found as = .ok found := by
  induction as with
  | nil => rfl
  | cons a as ih =>
      rw [findCurrent, if_neg (h a List.mem_cons_self)]
      exact ih fun x hx => h x (List.mem_cons_of_mem _ hx)

theorem findCurrent_iff {current : AttemptId} {generation : Option AttemptGeneration}
    {as : List AttemptRecord} (hnodup : (as.map (·.id)).Nodup) :
    findCurrent current generation false as = .ok true ↔
      ∃ a ∈ as, a.id = current ∧ ∀ g, generation = some g → a.generation = g := by
  induction as with
  | nil => simp [findCurrent]
  | cons a as ih =>
      obtain ⟨hnew, hnodup⟩ := List.nodup_cons.1 hnodup
      rw [findCurrent]
      by_cases hid : a.id = current
      · -- the current attempt is here, and nowhere else
        have hrest : ∀ x ∈ as, x.id ≠ current := fun x hx heq =>
          hnew (List.mem_map.2 ⟨x, hx, heq.trans hid.symm⟩)
        have hmatch : (∃ x ∈ a :: as, x.id = current ∧ ∀ g, generation = some g → x.generation = g)
            ↔ ∀ g, generation = some g → a.generation = g := by
          constructor
          · rintro ⟨x, hx, heq, hgen⟩
            rcases List.mem_cons.1 hx with rfl | hx
            · exact hgen
            · exact absurd heq (hrest x hx)
          · exact fun hgen => ⟨a, List.mem_cons_self, hid, hgen⟩
        rw [hmatch, if_pos hid, findCurrent_of_ne hrest]
        cases generation with
        | none => simp
        | some g =>
            by_cases hg : a.generation = g <;> simp [hg]
      · rw [if_neg hid, ih hnodup]
        simp [hid]

theorem validateCurrent_iff {r : ExecutionRecord} (hnodup : (r.attempts.map (·.id)).Nodup) :
    validateCurrent r = .ok () ↔ ∀ id, r.currentAttemptId = some id →
      ∃ a ∈ r.attempts, a.id = id ∧ r.currentAttemptGeneration = some a.generation := by
  rw [validateCurrent]
  cases hcurrent : r.currentAttemptId with
  | none => simp
  | some current =>
      have hiff := @findCurrent_iff current r.currentAttemptGeneration r.attempts hnodup
      simp only [Option.some.injEq, forall_eq']
      cases hgeneration : r.currentAttemptGeneration with
      | none =>
          rw [hgeneration] at hiff
          have hfalse : ¬∃ a ∈ r.attempts, a.id = current ∧ none = some a.generation := by simp
          simp only [hfalse, iff_false]
          split <;> simp
      | some g =>
          rw [hgeneration] at hiff
          have hiff' : findCurrent current (some g) false r.attempts = .ok true ↔
              ∃ a ∈ r.attempts, a.id = current ∧ some g = some a.generation := by
            simpa [eq_comm] using hiff
          rw [← hiff']
          split <;> simp_all

theorem validateCommitted_iff {r : ExecutionRecord} :
    validateCommitted r = .ok () ↔
      (r.state = .committed → r.committedDigest ≠ none ∧ r.commitGeneration.isSet = true) := by
  rw [validateCommitted]
  split_ifs <;> simp_all

theorem validateOwner_iff {r : ExecutionRecord} :
    validateOwner r = .ok () ↔ (r.state.active = true →
      r.currentAttemptId ≠ none ∧ r.ownerWorker ≠ none ∧ r.ownerWorkerBoot ≠ none) := by
  rw [validateOwner]
  split_ifs with h
  · simp only [false_iff]
    tauto
  · simp only [true_iff]
    tauto

/-- A sequence of checks passes when each of them does. -/
theorem checks_iff {x y : Except ByteString Unit} :
    (x >>= fun _ => y) = .ok () ↔ x = .ok () ∧ y = .ok () := by
  cases x with
  | error e => simp [Bind.bind, Except.bind]
  | ok u => simp [Bind.bind, Except.bind]

theorem validate_iff {r : ExecutionRecord} : validate r = .ok () ↔ r.Valid := by
  rw [validate]
  by_cases hgeneration : r.generation.isSet = true
  · rw [if_neg (by simp [hgeneration]), checks_iff, checks_iff, checks_iff, validateAttempts_iff,
      validateCommitted_iff, validateOwner_iff]
    constructor
    · rintro ⟨⟨hids, -, hdispatches, -, hgenerations⟩, hcurrent, hcommitted, howned⟩
      exact ⟨hgeneration, hids, hdispatches, hgenerations, (validateCurrent_iff hids).1 hcurrent,
        hcommitted, howned⟩
    · intro h
      exact ⟨⟨h.attemptIds, by simp, h.dispatchIds, by simp, h.generations⟩,
        (validateCurrent_iff h.attemptIds).2 h.current, h.committed, h.owned⟩
  · rw [if_pos (by simpa using hgeneration)]
    exact ⟨nofun, fun h => absurd h.generation hgeneration⟩

/-- The decoder accepts the spellings of valid records, and nothing else. -/
theorem decode_iff {bs : ByteString} {r : ExecutionRecord} :
    decodeRecord bs = .ok r ↔ RecordSpelled bs r ∧ r.Valid := by
  constructor
  · intro h
    obtain ⟨hspelled, hvalid⟩ := spelled_of_decode h
    exact ⟨hspelled, validate_iff.1 hvalid⟩
  · rintro ⟨hspelled, hvalid⟩
    rw [decode_spelled hspelled, validate_iff.2 hvalid]
    rfl

/-- A record within the limits is decoded to itself exactly when it is valid. -/
theorem decode_encode_iff {r : ExecutionRecord} (h : r.Fits) :
    decodeRecord (encodeRecord r) = .ok r ↔ r.Valid := by
  rw [decode_iff, and_iff_right (recordSpelled_encode h)]

/-! ### Snapshots -/

theorem reads_skip {error : String} (bs : ByteString) :
    Reads (Decoder.read (ByteReader.skip bs.length) error) bs () := by
  refine reads_of fun r tail hok hrest => ?_
  rw [ByteReader.skip, if_pos (need_of_rest hok hrest)]

theorem RecordSpelled.pos_length {bs : ByteString} {r : ExecutionRecord}
    (h : RecordSpelled bs r) : 0 < bs.length := by
  cases h
  rw [List.length_append, ByteWriter.length_id]
  omega

/-- A length within the limit is written without loss. -/
theorem toNat_length {n : ℕ} (hpos : 0 < n) (hsize : n ≤ 64 * 1024 * 1024) :
    n.toUInt32.toNat = n ∧ ¬(n.toUInt32 = 0 ∨ maxRecordPayload < n.toUInt32) ∧
      (n.toUInt32 + 8).toNat = n + 8 := by
  have hnat : n.toUInt32.toNat = n := by
    rw [UInt32.toNat_ofNat']
    omega
  refine ⟨hnat, ?_, ?_⟩
  · rw [← UInt32.toNat_inj, UInt32.lt_iff_toNat_lt, hnat]
    simp only [maxRecordPayload, UInt32.reduceMul, UInt32.reduceToNat]
    omega
  · rw [UInt32.toNat_add, hnat]
    simp only [UInt32.reduceToNat]
    omega

/-- Length, checksum and bytes of a record. -/
inductive EntrySpelled : ByteString → ExecutionRecord → Prop
  | mk {payload : ByteString} {r : ExecutionRecord} (h : RecordSpelled payload r)
      (hsize : payload.length ≤ 64 * 1024 * 1024) :
      EntrySpelled (ByteWriter.u32 payload.length.toUInt32
        ++ (ByteWriter.u64 (Crc64.compute payload) ++ payload)) r

theorem reads_entry {bs : ByteString} {r : ExecutionRecord} (h : EntrySpelled bs r)
    (hvalid : r.Valid) {seen : List ExecutionId} (hnew : r.id ∉ seen) :
    Reads (decodeEntry seen) bs r := by
  obtain @⟨payload, r, h, hsize⟩ := h
  obtain ⟨hlength, hlimit, hneeded⟩ := toNat_length h.pos_length hsize
  -- the reader checks what is left before the checksum, and the checksum before the payload
  refine (reads_u32 _).bind (.passes hlimit (.observe fun s tail hlive hrest => ?_))
  have hremaining : ¬s.remaining < (payload.length.toUInt32 + 8).toNat := by
    have hrest' : s.rest = _ := hrest
    rw [hneeded, ← s.length_rest, hrest']
    simp [ByteWriter.u64, Nat.add_comm]
  refine .passes hremaining ((reads_u64 _).bind (.observe fun s tail hlive hrest => ?_))
  have hpayload : s.rest.take payload.length.toUInt32.toNat = payload := by
    rw [hlength]
    exact take_of_rest hrest
  rw [hpayload]
  refine .passes (not_not.2 rfl) ?_
  rw [decode_iff.2 ⟨h, hvalid⟩]
  refine .passes hnew ?_
  rw [hlength]
  exact (reads_skip _).last

theorem took_entry {seen : List ExecutionId} {s t : ByteReader} {r : ExecutionRecord}
    (h : decodeEntry seen s = .ok (r, t)) :
    r.Valid ∧ r.id ∉ seen ∧ ∃ bs, EntrySpelled bs r ∧ Took bs s t := by
  unfold decodeEntry at h
  obtain ⟨len, s₁, hlen, h⟩ := bind_eq_ok.1 h
  obtain ⟨hlimit, h⟩ := passes_eq_ok.1 h
  obtain ⟨-, h⟩ := passes_eq_ok.1 (observe_eq_ok.1 h)
  obtain ⟨crc, s₂, hcrc, h⟩ := bind_eq_ok.1 h
  obtain ⟨hsum, h⟩ := passes_eq_ok.1 (observe_eq_ok.1 h)
  cases hrecord : decodeRecord (s₂.rest.take len.toNat) with
  | error e =>
      rw [hrecord] at h
      cases h
  | ok record =>
      rw [hrecord] at h
      obtain ⟨hnew, h⟩ := passes_eq_ok.1 h
      obtain ⟨⟨⟩, s₃, hskip, h⟩ := bind_eq_ok.1 h
      obtain ⟨rfl, rfl⟩ := Prod.mk.inj (Except.ok.inj h)
      obtain ⟨hspelled, hvalid⟩ := decode_iff.1 hrecord
      obtain ⟨hlength, htook⟩ := took_skip hskip
      refine ⟨hvalid, hnew, ?_⟩
      generalize s₂.rest.take len.toNat = payload at hsum hspelled hlength htook
      have hback : payload.length.toUInt32 = len := by
        rw [hlength]
        simp
      have hsize : payload.length ≤ 64 * 1024 * 1024 := by
        rw [hlength]
        exact Nat.not_lt.1 fun hlt => hlimit (.inr (UInt32.lt_iff_toNat_lt.2 hlt))
      have hentry := EntrySpelled.mk hspelled hsize
      rw [hback, not_not.1 hsum] at hentry
      exact ⟨_, hentry, (took_u32 hlen).trans ((took_u64 hcrc).trans htook)⟩

theorem reads_entries {bs : ByteString} {rs : List ExecutionRecord} {seen : List ExecutionId}
    (h : Pieces EntrySpelled bs rs) (hvalid : ∀ r ∈ rs, r.Valid)
    (hids : (rs.map (·.id)).Nodup) (hnew : ∀ r ∈ rs, r.id ∉ seen) :
    Reads (decodeEntries seen rs.length) bs rs := by
  induction h generalizing seen with
  | nil => exact .pure []
  | @cons bs cs r rs head tail ih =>
      obtain ⟨hne, hids⟩ := List.nodup_cons.1 hids
      refine (reads_entry head (hvalid r List.mem_cons_self) (hnew r List.mem_cons_self)).bind ?_
      refine (ih (fun x hx => hvalid x (List.mem_cons_of_mem _ hx)) hids fun x hx => ?_).last
      rw [List.mem_cons, not_or]
      exact ⟨fun heq => hne (List.mem_map.2 ⟨x, hx, heq⟩), hnew x (List.mem_cons_of_mem _ hx)⟩

theorem took_entries {n : ℕ} {seen : List ExecutionId} {s t : ByteReader}
    {rs : List ExecutionRecord} (h : decodeEntries seen n s = .ok (rs, t)) :
    rs.length = n ∧ (∀ r ∈ rs, r.Valid) ∧ (rs.map (·.id)).Nodup ∧ (∀ r ∈ rs, r.id ∉ seen) ∧
      ∃ bs, Pieces EntrySpelled bs rs ∧ Took bs s t := by
  induction n generalizing seen s t rs with
  | zero =>
      obtain ⟨rfl, rfl⟩ := Prod.mk.inj (Except.ok.inj h)
      exact ⟨rfl, fun _ => nofun, List.nodup_nil, fun _ => nofun, [], .nil, .refl s⟩
  | succ n ih =>
      unfold decodeEntries at h
      obtain ⟨r, u, hr, h⟩ := bind_eq_ok.1 h
      obtain ⟨rest, v, hrest, h⟩ := bind_eq_ok.1 h
      obtain ⟨rfl, rfl⟩ := Prod.mk.inj (Except.ok.inj h)
      obtain ⟨hlength, hvalid, hids, hseen, cs, hpieces, hcs⟩ := ih hrest
      obtain ⟨hr, hnew, bs, hentry, hbs⟩ := took_entry hr
      refine ⟨congrArg (· + 1) hlength, ?_, List.nodup_cons.2 ⟨fun hmem => ?_, hids⟩, ?_,
        _, .cons hentry hpieces, hbs.trans hcs⟩
      · exact List.forall_mem_cons.2 ⟨hr, hvalid⟩
      · obtain ⟨x, hx, hid⟩ := List.mem_map.1 hmem
        exact hseen x hx (hid ▸ List.mem_cons_self)
      · exact List.forall_mem_cons.2
          ⟨hnew, fun x hx hmem => hseen x hx (List.mem_cons_of_mem _ hmem)⟩

/-- Header and records. -/
inductive BodySpelled : ByteString → List ExecutionRecord → CoordinatorEpoch → Prop
  | mk {bs : ByteString} {rs : List ExecutionRecord} {epoch : CoordinatorEpoch}
      (hcount : rs.length ≤ 2 ^ 20) (h : Pieces EntrySpelled bs rs) :
      BodySpelled (ByteWriter.bytes storeMagic ++ (ByteWriter.u32 formatVersion
        ++ (ByteWriter.gen epoch ++ (ByteWriter.u32 rs.length.toUInt32 ++ bs)))) rs epoch

theorem reads_body {body : ByteString} {rs : List ExecutionRecord} {epoch : CoordinatorEpoch}
    (h : BodySpelled body rs epoch) (hvalid : ∀ r ∈ rs, r.Valid)
    (hids : (rs.map (·.id)).Nodup) : Reads decodeBody body (rs, epoch) := by
  obtain ⟨hcount, h⟩ := h
  obtain ⟨hnat, hlimit⟩ := toNat_count hcount
  refine (reads_bytes storeMagic).bind (.passes (by simp) ?_)
  refine (reads_u32 formatVersion).bind (.passes (by simp) ?_)
  refine (reads_gen epoch).bind ?_
  refine (reads_u32 _).bind (.passes hlimit ?_)
  rw [hnat]
  exact (reads_entries h hvalid hids fun r _ => List.not_mem_nil).last

theorem took_body {s t : ByteReader} {rs : List ExecutionRecord} {epoch : CoordinatorEpoch}
    (h : decodeBody s = .ok ((rs, epoch), t)) :
    (∀ r ∈ rs, r.Valid) ∧ (rs.map (·.id)).Nodup ∧ ∃ bs, BodySpelled bs rs epoch ∧ Took bs s t := by
  unfold decodeBody at h
  obtain ⟨magic, s₁, hmagic, h⟩ := bind_eq_ok.1 h
  obtain ⟨hsame, h⟩ := passes_eq_ok.1 h
  obtain ⟨version, s₂, hversion, h⟩ := bind_eq_ok.1 h
  obtain ⟨hknown, h⟩ := passes_eq_ok.1 h
  obtain ⟨epoch, s₃, hepoch, h⟩ := bind_eq_ok.1 h
  obtain ⟨count, s₄, hcount, h⟩ := bind_eq_ok.1 h
  obtain ⟨hlimit, h⟩ := passes_eq_ok.1 h
  obtain ⟨records, s₅, hentries, h⟩ := bind_eq_ok.1 h
  obtain ⟨hresult, rfl⟩ := Prod.mk.inj (Except.ok.inj h)
  obtain ⟨rfl, rfl⟩ := Prod.mk.inj hresult
  obtain rfl := not_not.1 hsame
  obtain rfl := not_not.1 hknown
  obtain ⟨hlength, hvalid, hids, -, bs, hpieces, htook⟩ := took_entries hentries
  refine ⟨hvalid, hids, ?_⟩
  have hback : records.length.toUInt32 = count := by
    rw [hlength]
    simp
  have hfew : records.length ≤ 2 ^ 20 := by
    rw [hlength]
    exact Nat.not_lt.1 fun hlt => hlimit (UInt32.lt_iff_toNat_lt.2 hlt)
  have hbody := @BodySpelled.mk _ _ epoch hfew hpieces
  rw [hback] at hbody
  refine ⟨_, hbody, ?_⟩
  exact (took_bytes hmagic).trans ((took_u32 hversion).trans ((took_gen hepoch).trans
    ((took_u32 hcount).trans htook)))

/-! ### Files -/

/-- A body with the trailer that goes with it. -/
def sealBody (body : ByteString) : ByteString :=
  body ++ (ByteWriter.bytes trailerMagic ++ ByteWriter.u64 (Crc64.compute body))

theorem length_sealBody (body : ByteString) :
    (sealBody body).length = body.length + trailerSize := by
  simp [sealBody, trailerSize]

theorem checkTrailer_iff {body trailer : ByteString} (hlength : trailer.length = trailerSize) :
    checkTrailer body trailer = .ok () ↔
      trailer = ByteWriter.bytes trailerMagic ++ ByteWriter.u64 (Crc64.compute body) := by
  have hdrop : (trailer.drop 8).length = 8 := by
    rw [List.length_drop, hlength]
    rfl
  have htake : (trailer.drop 8).take 8 = trailer.drop 8 := List.take_of_length_le hdrop.le
  unfold checkTrailer
  rw [htake]
  constructor
  · intro h
    split at h
    · cases h
    · rename_i hmagic
      split at h
      · cases h
      · rename_i crc t hread
        split at h
        · cases h
        · rename_i hcrc
          have htook : trailer.drop 8 = ByteWriter.u64 crc ++ t.rest := took_u64 hread
          have hempty : t.rest = [] := by
            have hsum := congrArg List.length htook
            rw [List.length_append, hdrop, ByteWriter.length_u64] at hsum
            exact List.length_eq_zero_iff.1 (by omega)
          rw [hempty, List.append_nil, not_not.1 hcrc] at htook
          rw [← List.take_append_drop 8 trailer, not_not.1 hmagic, htook]
          rfl
  · rintro rfl
    obtain ⟨t, hread, -, -⟩ :=
      reads_whole (@reads_u64 "load: trailer crc unreadable" (Crc64.compute body))
    rw [List.take_left' (ByteWriter.length_bytes _), List.drop_left' (ByteWriter.length_bytes _),
      hread]
    simp [ByteWriter.bytes]

theorem checkTrailer_of_crc (body : ByteString) :
    checkTrailer body (ByteWriter.bytes trailerMagic ++ ByteWriter.u64 (Crc64.compute body))
      = .ok () :=
  (checkTrailer_iff (by simp [trailerSize])).2 rfl

theorem BodySpelled.header_le {body : ByteString} {rs : List ExecutionRecord}
    {epoch : CoordinatorEpoch} (h : BodySpelled body rs epoch) : headerSize ≤ body.length := by
  cases h
  simp [headerSize]
  omega

/-- The file spells the records and the epoch: its body does, its trailer goes
with the body, and the records are valid and have different identities. -/
structure FileSpelled (file : Option ByteString) (rs : List ExecutionRecord)
    (epoch : CoordinatorEpoch) : Prop where
  body : ∃ body, BodySpelled body rs epoch ∧ file = some (sealBody body)
  valid : ∀ r ∈ rs, r.Valid
  ids : (rs.map (·.id)).Nodup

theorem spelled_of_load {file : Option ByteString} {rs : List ExecutionRecord}
    {epoch : CoordinatorEpoch} (h : load file = .ok (rs, epoch)) : FileSpelled file rs epoch := by
  cases file with
  | none => cases h
  | some file =>
      simp only [load] at h
      split at h
      · cases h
      rename_i hlong
      split at h
      · cases h
      rename_i htrailer
      split at h
      · cases h
      rename_i result t hbody
      split at h
      · cases h
      rename_i hremaining
      obtain rfl := Except.ok.inj h
      obtain ⟨hvalid, hids, bs, hspelled, htook⟩ := took_body hbody
      have hall := took_whole htook (not_not.1 hremaining)
      have hsplit : (file.drop (file.length - trailerSize)).length = trailerSize := by
        rw [List.length_drop]
        omega
      have hsealed := (checkTrailer_iff hsplit).1 htrailer
      refine ⟨⟨bs, hspelled, ?_⟩, hvalid, hids⟩
      rw [sealBody, ← hall, ← hsealed, List.take_append_drop]

theorem FileSpelled.load {file : Option ByteString} {rs : List ExecutionRecord}
    {epoch : CoordinatorEpoch} (h : FileSpelled file rs epoch) : load file = .ok (rs, epoch) := by
  obtain ⟨⟨body, hspelled, rfl⟩, hvalid, hids⟩ := h
  have hlength := length_sealBody body
  have hheader := hspelled.header_le
  have hlong : ¬(sealBody body).length < headerSize + trailerSize := by omega
  have hsplit : (sealBody body).length - trailerSize = body.length := by omega
  obtain ⟨t, hrun, -, hremaining⟩ := reads_whole (reads_body hspelled hvalid hids)
  simp only [ExecutionFabric.load, if_neg hlong, hsplit]
  rw [sealBody, List.take_left, List.drop_left, checkTrailer_of_crc, hrun]
  exact if_neg (not_not.2 hremaining)

/-- A file loads exactly when it spells something, and as what it spells. -/
theorem load_iff {file : Option ByteString} {rs : List ExecutionRecord}
    {epoch : CoordinatorEpoch} : load file = .ok (rs, epoch) ↔ FileSpelled file rs epoch :=
  ⟨spelled_of_load, FileSpelled.load⟩

/-- No two records of a file that loads have the same identity. -/
theorem load_distinct {file : Option ByteString} {rs : List ExecutionRecord}
    {e : CoordinatorEpoch} (h : load file = .ok (rs, e)) : (rs.map (·.id)).Nodup :=
  (spelled_of_load h).ids

/-- A list of records that fits the file format. -/
structure Storable (records : List ExecutionRecord) : Prop where
  count : records.length ≤ 2 ^ 20
  fits : ∀ r ∈ records, r.Fits
  size : ∀ r ∈ records, (encodeRecord r).length ≤ 64 * 1024 * 1024
  ids : (records.map (·.id)).Nodup

/-- What `save` writes is one spelling of its records. -/
theorem Storable.bodySpelled {records : List ExecutionRecord} (h : Storable records)
    (epoch : CoordinatorEpoch) : BodySpelled (encodeBody records epoch) records epoch :=
  .mk h.count (pieces_flatMap fun r hr =>
    .mk (recordSpelled_encode (h.fits r hr)) (h.size r hr))

/-- A snapshot of valid records that fits the file format loads. -/
theorem load_save {records : List ExecutionRecord} (hs : Storable records)
    (hvalid : ∀ r ∈ records, r.Valid) (epoch : CoordinatorEpoch) :
    load (some (save records epoch)) = .ok (records, epoch) :=
  load_iff.2 ⟨⟨_, hs.bodySpelled epoch, rfl⟩, hvalid, hs.ids⟩

/-- Records within the limits that pass the validation come back as they were,
each by itself and all of them from a file. -/
theorem store_round_trip {records : List ExecutionRecord} (hs : Storable records)
    (hvalid : ∀ r ∈ records, validate r = .ok ()) (epoch : CoordinatorEpoch) :
    (∀ r ∈ records, decodeRecord (encodeRecord r) = .ok r) ∧
      load (some (save records epoch)) = .ok (records, epoch) := by
  have hall : ∀ r ∈ records, r.Valid := fun r hr => validate_iff.1 (hvalid r hr)
  exact ⟨fun r hr => (decode_encode_iff (hs.fits r hr)).2 (hall r hr), load_save hs hall epoch⟩

namespace Sample

/-- An attempt with everything in it that can be absent. -/
def storedAttempt : AttemptRecord where
  id := Id.random ⟨10, 1⟩
  generation := ⟨1⟩
  workerId := Id.random ⟨3, 0⟩
  workerBootId := Id.random ⟨4, 0⟩
  dispatchId := Id.random ⟨10, 2⟩
  dispatchGeneration := ⟨1⟩
  ownershipGeneration := ⟨2⟩
  fenceGeneration := ⟨2⟩
  executionStateAtDispatch := .ready
  state := .completed
  resultDigest := some ⟨List.Vector.replicate 32 7⟩
  resultPayloadHex := some (text "00ff")
  failureReason := some (text "none")

/-- A record that committed its first attempt. -/
def storedRecord : ExecutionRecord where
  id := Id.random ⟨1, 0⟩
  generation := ⟨1⟩
  state := .committed
  coordinatorEpoch := ⟨1⟩
  ownershipGeneration := ⟨2⟩
  fenceGeneration := ⟨2⟩
  currentAttemptId := some storedAttempt.id
  currentAttemptGeneration := some storedAttempt.generation
  ownerWorker := some storedAttempt.workerId
  ownerWorkerBoot := some storedAttempt.workerBootId
  commitGeneration := ⟨1⟩
  committedDigest := storedAttempt.resultDigest
  attempts := [storedAttempt]
  createdAt := text "2024-01-01T00:00:00Z"
  committedAt := text "2024-01-01T00:00:01Z"

theorem storable_storedRecord : Storable [storedRecord] where
  count := by decide
  fits := by
    intro r hr
    obtain rfl := List.mem_singleton.1 hr
    refine ⟨by decide, fun a ha => ?_, by decide, by decide⟩
    obtain rfl := List.mem_singleton.1 ha
    exact ⟨by simp [storedAttempt]; decide, by simp [storedAttempt]; decide⟩
  size := by
    intro r hr
    obtain rfl := List.mem_singleton.1 hr
    decide +kernel
  ids := by simp

end Sample

theorem store_round_trip_sample :
    decodeRecord (encodeRecord Sample.storedRecord) = .ok Sample.storedRecord ∧
      load (some (save [Sample.storedRecord] ⟨5⟩)) = .ok ([Sample.storedRecord], ⟨5⟩) := by
  have hvalid : ∀ r ∈ [Sample.storedRecord], validate r = .ok () := by
    intro r hr
    obtain rfl := List.mem_singleton.1 hr
    rfl
  have hround := store_round_trip Sample.storable_storedRecord hvalid ⟨5⟩
  exact ⟨hround.1 _ (List.mem_singleton_self _), hround.2⟩

end ExecutionFabric
