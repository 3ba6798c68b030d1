import ExecutionFabric.Binary
import ExecutionFabric.Checksum
import ExecutionFabric.Record

/-!
The persistence store: the bytes of a record, the bytes of a snapshot, and the
checks under which they are read back.

A snapshot is a header, the records, each with its length and checksum, and a
trailer with the checksum of all that. `decode_record` reads the fields first
and then refuses combinations that should not occur; these checks read the
record only, and are a function of it (`validate`).

The file itself is the byte string it holds, or nothing when it is missing.
-/

namespace ExecutionFabric

open Reading

/-- `kMagic`, "EFABSTOR". -/
def storeMagic : List.Vector UInt8 8 := ⟨[0x45, 0x46, 0x41, 0x42, 0x53, 0x54, 0x4F, 0x52], rfl⟩

/-- `kTrailerMagic`, "EFTRAILR". -/
def trailerMagic : List.Vector UInt8 8 := ⟨[0x45, 0x46, 0x54, 0x52, 0x41, 0x49, 0x4C, 0x52], rfl⟩

/-- `kFormatVersion`. -/
def formatVersion : UInt32 := 1

/-- `kHeaderSize`: magic, version, epoch, count. -/
def headerSize : ℕ := 8 + 4 + 8 + 4

/-- `kTrailerSize`: magic, checksum. -/
def trailerSize : ℕ := 8 + 8

/-- `kMaxRecordPayload`, 64 MiB. -/
def maxRecordPayload : UInt32 := 64 * 1024 * 1024

/-- The largest number of records, and of attempts, that is read back. -/
def maxCount : UInt32 := (1 : UInt32) <<< 20

/-! ### Writing -/

def encodeDigest (d : ResultDigest) : ByteString := ByteWriter.bytes d.bytes

/-- The loop body of `encode_record`. -/
def encodeAttempt (a : AttemptRecord) : ByteString :=
  ByteWriter.id a.id ++ (ByteWriter.gen a.generation ++ (ByteWriter.id a.workerId
    ++ (ByteWriter.id a.workerBootId ++ (ByteWriter.id a.dispatchId
    ++ (ByteWriter.gen a.dispatchGeneration ++ (ByteWriter.gen a.ownershipGeneration
    ++ (ByteWriter.gen a.fenceGeneration ++ (ByteWriter.u8 a.executionStateAtDispatch.code
    ++ (ByteWriter.u8 a.state.code ++ (ByteWriter.option encodeDigest a.resultDigest
    ++ (ByteWriter.option ByteWriter.string a.resultPayloadHex
    ++ ByteWriter.option ByteWriter.string a.failureReason)))))))))))

def encodeRecord (r : ExecutionRecord) : ByteString :=
  ByteWriter.id r.id ++ (ByteWriter.gen r.generation ++ (ByteWriter.u8 r.state.code
    ++ (ByteWriter.gen r.coordinatorEpoch ++ (ByteWriter.gen r.ownershipGeneration
    ++ (ByteWriter.gen r.fenceGeneration ++ (ByteWriter.option ByteWriter.id r.currentAttemptId
    ++ (ByteWriter.option ByteWriter.gen r.currentAttemptGeneration
    ++ (ByteWriter.option ByteWriter.id r.ownerWorker
    ++ (ByteWriter.option ByteWriter.id r.ownerWorkerBoot
    ++ (ByteWriter.gen r.cancellationGeneration ++ (ByteWriter.gen r.preemptionGeneration
    ++ (ByteWriter.gen r.resumeGeneration ++ (ByteWriter.gen r.completionGeneration
    ++ (ByteWriter.gen r.commitGeneration ++ (ByteWriter.option encodeDigest r.committedDigest
    ++ (ByteWriter.u32 r.attempts.length.toUInt32 ++ (r.attempts.flatMap encodeAttempt
    ++ (ByteWriter.string r.createdAt ++ ByteWriter.string r.committedAt))))))))))))))))))

/-! ### Reading a record -/

namespace Decoder

def digest (error : String) : Decoder ResultDigest :=
  ResultDigest.mk <$> read (ByteReader.bytes 32) error

end Decoder

/-- The loop body of `decode_record`. -/
def decodeAttempt : Decoder AttemptRecord := do
  let id ← Decoder.id "record: truncated attempt id"
  let generation ← Decoder.gen "record: truncated attempt generation"
  let workerId ← Decoder.id "record: truncated attempt worker"
  let workerBootId ← Decoder.id "record: truncated attempt boot"
  let dispatchId ← Decoder.id "record: truncated attempt dispatch"
  let dispatchGeneration ← Decoder.gen "record: truncated attempt dispatch generation"
  let ownershipGeneration ← Decoder.gen "record: truncated attempt ownership generation"
  let fenceGeneration ← Decoder.gen "record: truncated attempt fence generation"
  let executionStateAtDispatch ← Decoder.enum ExecutionState.ofCode?
    "record: truncated attempt exec state" "record: invalid attempt execution state enum"
  let state ← Decoder.enum AttemptState.ofCode?
    "record: truncated attempt state" "record: invalid attempt state enum"
  let resultDigest ← Decoder.option "record: truncated attempt digest present"
    (Decoder.digest "record: truncated attempt digest")
  let resultPayloadHex ← Decoder.option "record: truncated attempt payload present"
    (Decoder.read ByteReader.string "record: truncated attempt payload")
  let failureReason ← Decoder.option "record: truncated attempt failure present"
    (Decoder.read ByteReader.string "record: truncated attempt failure")
  pure { id, generation, workerId, workerBootId, dispatchId, dispatchGeneration,
         ownershipGeneration, fenceGeneration, executionStateAtDispatch, state, resultDigest,
         resultPayloadHex, failureReason }

/-- The attempts, after their number. -/
def decodeAttempts : Decoder (List AttemptRecord) := do
  let n ← Decoder.read ByteReader.u32 "record: truncated attempt count"
  failIf (maxCount < n) (text "record: attempt count too large")
  readMany decodeAttempt n.toNat

/-- The fields of a record, in the order of `decode_record`. -/
def decodeFields : Decoder ExecutionRecord := do
  let id ← Decoder.id "record: truncated execution id"
  let generation ← Decoder.gen "record: truncated generation"
  let state ← Decoder.enum ExecutionState.ofCode? "record: truncated state"
    "record: invalid execution state enum"
  let coordinatorEpoch ← Decoder.gen "record: truncated coordinator epoch"
  let ownershipGeneration ← Decoder.gen "record: truncated ownership generation"
  let fenceGeneration ← Decoder.gen "record: truncated fence generation"
  let currentAttemptId ← Decoder.option "record: truncated attempt-id present"
    (Decoder.id "record: truncated attempt id")
  let currentAttemptGeneration ← Decoder.option "record: truncated attempt-gen present"
    (Decoder.gen "record: truncated attempt generation")
  let ownerWorker ← Decoder.option "record: truncated owner-worker present"
    (Decoder.id "record: truncated owner worker")
  let ownerWorkerBoot ← Decoder.option "record: truncated owner-boot present"
    (Decoder.id "record: truncated owner boot")
  let cancellationGeneration ← Decoder.gen "record: truncated cancellation generation"
  let preemptionGeneration ← Decoder.gen "record: truncated preemption generation"
  let resumeGeneration ← Decoder.gen "record: truncated resume generation"
  let completionGeneration ← Decoder.gen "record: truncated completion generation"
  let commitGeneration ← Decoder.gen "record: truncated commit generation"
  let committedDigest ← Decoder.option "record: truncated committed-digest present"
    (Decoder.digest "record: truncated committed digest")
  let attempts ← decodeAttempts
  let createdAt ← Decoder.read ByteReader.string "record: truncated created_at"
  let committedAt ← Decoder.read ByteReader.string "record: truncated committed_at"
  pure { id, generation, state, coordinatorEpoch, ownershipGeneration, fenceGeneration,
         currentAttemptId, currentAttemptGeneration, ownerWorker, ownerWorkerBoot,
         cancellationGeneration, preemptionGeneration, resumeGeneration, completionGeneration,
         commitGeneration, committedDigest, attempts, createdAt, committedAt }

/-! ### Impossible combinations -/

/-- Identifiers are unique and generations set; the two sets are those of the
attempts before. -/
def validateAttempts (attemptIds : List AttemptId) (dispatchIds : List DispatchId) :
    List AttemptRecord → Except ByteString Unit
  | [] => .ok ()
  | a :: as =>
    if a.id ∈ attemptIds then .error (text "record: duplicate attempt id")
    else if a.dispatchId ∈ dispatchIds then .error (text "record: duplicate dispatch id")
    else if !a.generation.isSet then .error (text "record: attempt generation must be set")
    else if !a.dispatchGeneration.isSet then
      .error (text "record: attempt dispatch generation must be set")
    else validateAttempts (a.id :: attemptIds) (a.dispatchId :: dispatchIds) as

/-- The loop that looks for the current attempt; gives whether it was found. -/
def findCurrent (current : AttemptId) (generation : Option AttemptGeneration) (found : Bool) :
    List AttemptRecord → Except ByteString Bool
  | [] => .ok found
  | a :: as =>
    if a.id = current then
      if found then .error (text "record: current attempt duplicated")
      else if generation.any (a.generation ≠ ·) then
        .error (text "record: current attempt generation mismatch")
      else findCurrent current generation true as
    else findCurrent current generation found as

def validateCurrent (r : ExecutionRecord) : Except ByteString Unit :=
  match r.currentAttemptId with
  | none => .ok ()
  | some current =>
    match findCurrent current r.currentAttemptGeneration false r.attempts with
    | .error e => .error e
    | .ok false => .error (text "record: current attempt does not exist in history")
    | .ok true =>
      if r.currentAttemptGeneration = none then
        .error (text "record: current attempt generation unset")
      else .ok ()

def validateCommitted (r : ExecutionRecord) : Except ByteString Unit :=
  if r.state = .committed then
    if r.committedDigest = none then
      .error (text "record: committed state without committed digest")
    else if !r.commitGeneration.isSet then
      .error (text "record: committed state without commit generation")
    else .ok ()
  else .ok ()

/-- The states in which a worker owns the execution. -/
def ExecutionState.active (st : ExecutionState) : Bool :=
  st ∈ [running, dispatched, resuming, cancellationRequested, preemptionRequested]

def validateOwner (r : ExecutionRecord) : Except ByteString Unit :=
  if r.state.active ∧
      (r.currentAttemptId = none ∨ r.ownerWorker = none ∨ r.ownerWorkerBoot = none) then
    .error (text "record: active execution must name current attempt and owner")
  else .ok ()

/-- The cross-field validation of `decode_record`. -/
def validate (r : ExecutionRecord) : Except ByteString Unit :=
  if !r.generation.isSet then .error (text "record: execution generation must be set")
  else do
    validateAttempts [] [] r.attempts
    validateCurrent r
    validateCommitted r
    validateOwner r

def decodeRecord (data : ByteString) : Except ByteString ExecutionRecord :=
  match decodeFields { data } with
  | .error e => .error e
  | .ok (record, r) =>
    if !r.ok then .error (text "record: decode error (bounds)")
    else if r.remaining ≠ 0 then .error (text "record: trailing garbage after record")
    else
      match validate record with
      | .error e => .error e
      | .ok () => .ok record

/-! ### Snapshots -/

/-- The bytes `save` appends for one record. -/
def encodeEntry (r : ExecutionRecord) : ByteString :=
  ByteWriter.u32 (encodeRecord r).length.toUInt32
    ++ (ByteWriter.u64 (Crc64.compute (encodeRecord r)) ++ encodeRecord r)

/-- Header and records. -/
def encodeBody (records : List ExecutionRecord) (epoch : CoordinatorEpoch) : ByteString :=
  ByteWriter.bytes storeMagic ++ (ByteWriter.u32 formatVersion ++ (ByteWriter.gen epoch
    ++ (ByteWriter.u32 records.length.toUInt32 ++ records.flatMap encodeEntry)))

/-- The content of the file after a `save` whose writes succeed. -/
def save (records : List ExecutionRecord) (epoch : CoordinatorEpoch) : ByteString :=
  encodeBody records epoch
    ++ (ByteWriter.bytes trailerMagic ++ ByteWriter.u64 (Crc64.compute (encodeBody records epoch)))

/-- The loop body of `load`: one record, given the identities before it. -/
def decodeEntry (seen : List ExecutionId) : Decoder ExecutionRecord := do
  let len ← Decoder.read ByteReader.u32 "load: truncated record length"
  failIf (len = 0 ∨ maxRecordPayload < len) (text "load: invalid record length")
  let r ← get
  failIf (r.remaining < (len + 8).toNat) (text "load: record length exceeds file (truncated)")
  let crc ← Decoder.read ByteReader.u64 "load: truncated record crc"
  let r ← get
  let payload := r.rest.take len.toNat
  failIf (Crc64.compute payload ≠ crc) (text "load: record crc mismatch (corrupt)")
  match decodeRecord payload with
  | .error e => throw (text "load: malformed record (" ++ e ++ text ")")
  | .ok record =>
    failIf (record.id ∈ seen) (text "load: duplicate execution identity")
    Decoder.read (ByteReader.skip len.toNat) "load: record read failed"
    pure record

/-- The loop of `load`. -/
def decodeEntries (seen : List ExecutionId) : ℕ → Decoder (List ExecutionRecord)
  | 0 => pure []
  | n + 1 => do
    let record ← decodeEntry seen
    let rest ← decodeEntries (record.id :: seen) n
    pure (record :: rest)

/-- Header and records. -/
def decodeBody : Decoder (List ExecutionRecord × CoordinatorEpoch) := do
  let magic ← Decoder.read (ByteReader.bytes 8) "load: truncated header"
  failIf (magic ≠ storeMagic) (text "load: header magic mismatch")
  let version ← Decoder.read ByteReader.u32 "load: truncated version"
  failIf (version ≠ formatVersion) (text "load: unsupported format version")
  let epoch ← Decoder.gen "load: truncated epoch"
  let count ← Decoder.read ByteReader.u32 "load: truncated count"
  failIf (maxCount < count) (text "load: record count too large")
  let records ← decodeEntries [] count.toNat
  pure (records, epoch)

/-- The trailer must name the checksum of what comes before it. -/
def checkTrailer (body trailer : ByteString) : Except ByteString Unit :=
  if trailer.take 8 ≠ trailerMagic.toList then
    .error (text "load: trailer magic mismatch (corrupt/truncated)")
  else
    match Decoder.read ByteReader.u64 "load: trailer crc unreadable"
      { data := (trailer.drop 8).take 8 } with
    | .error e => .error e
    | .ok (crc, _) =>
      if crc ≠ Crc64.compute body then .error (text "load: whole-file crc mismatch (corrupt)")
      else .ok ()

/-- `load`. The epoch that a failing load may already have written is not
returned. -/
def load : Option ByteString → Except ByteString (List ExecutionRecord × CoordinatorEpoch)
  | none => .error (text "load: cannot read file (missing?)")
  | some file =>
    if file.length < headerSize + trailerSize then
      .error (text "load: file too short (truncated)")
    else
      let body := file.take (file.length - trailerSize)
      match checkTrailer body (file.drop (file.length - trailerSize)) with
      | .error e => .error e
      | .ok () =>
        match decodeBody { data := body } with
        | .error e => .error e
        | .ok (result, r) =>
          if r.remaining ≠ 0 then
            .error (text "load: trailing garbage after declared records")
          else .ok result

/-- `load` over its out parameter, with the result it returns. -/
def loadInto (file : Option ByteString) : StateM (List ExecutionRecord) Bool := do
  set ([] : List ExecutionRecord)
  match load file with
  | .error _ => return false
  | .ok (records, _) =>
    set records
    return true

/-- A load either fails and leaves nothing behind, or hands over what the file decodes to. -/
theorem loadInto_cases (file : Option ByteString) :
    (∀ out, loadInto file out = (false, [])) ∨
      ∃ records epoch, load file = .ok (records, epoch) ∧
        ∀ out, loadInto file out = (true, records) := by
  cases hload : load file with
  | error error => exact .inl fun out => by simp only [loadInto, hload]; rfl
  | ok result =>
      exact .inr ⟨result.1, result.2, rfl, fun out => by simp only [loadInto, hload]; rfl⟩

end ExecutionFabric
