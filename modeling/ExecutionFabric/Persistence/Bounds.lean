import ExecutionFabric.Memory
import ExecutionFabric.Persistence.RoundTrip

/-!
`load` and `decode_record` in memory.

The file is in memory, and nothing else is. Three readers work on it: one on the
trailer, one on the body, and for each record one on its payload, a window of
the body that is found by pointer arithmetic. Each of them has its own buffer
here and faults outside of it. So does every subtraction that would be negative,
and a sum of lengths that does not fit into 32 bits. None of this happens, on
any file (`load_in_bounds`).
-/

namespace ExecutionFabric

open Reading

namespace Loading

/-! ### Reads -/

/-- A sum of unsigned numbers that must not wrap. -/
def sum (a b : UInt32) : Loading UInt32 := fun c _ =>
  if a.toNat + b.toNat < 2 ^ 32 then some (.ok (a + b, c)) else none

/-- A difference that must not be negative. -/
def difference (a b : ℕ) : Loading ℕ := fun c _ => if b ≤ a then some (.ok (a - b, c)) else none

/-- Run a function on a buffer of its own, a window of this one. -/
def nested {α : Type} (pos n : ℕ) (f : ℕ → Memory → Option (Except ByteString α)) :
    Loading (Except ByteString α) := fun c m => (f n (m.window pos n)).map fun a => .ok (a, c)

/-- Run on a whole buffer. -/
def run {α : Type} (l : Loading α) (len : ℕ) (m : Memory) : Option (Except ByteString α) :=
  (l { len } m).map fun result => Prod.fst <$> result

/-- The bytes as an array of known size. -/
def array (n : ℕ) (bs : ByteString) : List.Vector UInt8 n :=
  if h : bs.length = n then ⟨bs, h⟩ else .replicate n 0

def bytes (n : ℕ) (error : String) : Loading (List.Vector UInt8 n) :=
  guarded (read n (array n) error)

def id {Tag : Type} (error : String) : Loading (Id Tag) := (fun v => ⟨⟨v⟩⟩) <$> bytes 16 error

def gen {Tag : Type} (error : String) : Loading (Gen Tag) := Gen.mk <$> guarded (u64 error)

def digest (error : String) : Loading ResultDigest := ResultDigest.mk <$> bytes 32 error

def boolByte (error : String) : Loading Bool := (· != 0) <$> guarded (u8 error)

def option {α : Type} (error : String) (l : Loading α) : Loading (Option α) := do
  let present ← boolByte error
  if present then some <$> l else pure none

def string (error : String) : Loading ByteString := do
  let n ← guarded (u32 error)
  failIf (ByteReader.maxString < n.toNat) (text error)
  guarded (read n.toNat (fun bs => bs) error)

def skip (n : ℕ) (error : String) : Loading Unit := do
  guarded fun c _ => some (if c.need n then .ok ((), c.advance n) else .error (text error))

/-- Apply a program `n` times. -/
def many {α : Type} (l : Loading α) : ℕ → Loading (List α)
  | 0 => pure []
  | n + 1 => do
    let a ← l
    let rest ← many l n
    pure (a :: rest)

end Loading

/-! ### Records -/

def decodeAttemptAt : Loading AttemptRecord := do
  let id ← Loading.id "record: truncated attempt id"
  let generation ← Loading.gen "record: truncated attempt generation"
  let workerId ← Loading.id "record: truncated attempt worker"
  let workerBootId ← Loading.id "record: truncated attempt boot"
  let dispatchId ← Loading.id "record: truncated attempt dispatch"
  let dispatchGeneration ← Loading.gen "record: truncated attempt dispatch generation"
  let ownershipGeneration ← Loading.gen "record: truncated attempt ownership generation"
  let fenceGeneration ← Loading.gen "record: truncated attempt fence generation"
  let executionStateAtDispatch ← Loading.guarded <| Loading.enum ExecutionState.ofCode?
    "record: truncated attempt exec state" "record: invalid attempt execution state enum"
  let state ← Loading.guarded <| Loading.enum AttemptState.ofCode?
    "record: truncated attempt state" "record: invalid attempt state enum"
  let resultDigest ← Loading.option "record: truncated attempt digest present"
    (Loading.digest "record: truncated attempt digest")
  let resultPayloadHex ← Loading.option "record: truncated attempt payload present"
    (Loading.string "record: truncated attempt payload")
  let failureReason ← Loading.option "record: truncated attempt failure present"
    (Loading.string "record: truncated attempt failure")
  pure { id, generation, workerId, workerBootId, dispatchId, dispatchGeneration,
         ownershipGeneration, fenceGeneration, executionStateAtDispatch, state, resultDigest,
         resultPayloadHex, failureReason }

def decodeAttemptsAt : Loading (List AttemptRecord) := do
  let n ← Loading.guarded (Loading.u32 "record: truncated attempt count")
  Loading.failIf (maxCount < n) (text "record: attempt count too large")
  Loading.many decodeAttemptAt n.toNat

def decodeFieldsAt : Loading ExecutionRecord := do
  let id ← Loading.id "record: truncated execution id"
  let generation ← Loading.gen "record: truncated generation"
  let state ← Loading.guarded <| Loading.enum ExecutionState.ofCode? "record: truncated state"
    "record: invalid execution state enum"
  let coordinatorEpoch ← Loading.gen "record: truncated coordinator epoch"
  let ownershipGeneration ← Loading.gen "record: truncated ownership generation"
  let fenceGeneration ← Loading.gen "record: truncated fence generation"
  let currentAttemptId ← Loading.option "record: truncated attempt-id present"
    (Loading.id "record: truncated attempt id")
  let currentAttemptGeneration ← Loading.option "record: truncated attempt-gen present"
    (Loading.gen "record: truncated attempt generation")
  let ownerWorker ← Loading.option "record: truncated owner-worker present"
    (Loading.id "record: truncated owner worker")
  let ownerWorkerBoot ← Loading.option "record: truncated owner-boot present"
    (Loading.id "record: truncated owner boot")
  let cancellationGeneration ← Loading.gen "record: truncated cancellation generation"
  let preemptionGeneration ← Loading.gen "record: truncated preemption generation"
  let resumeGeneration ← Loading.gen "record: truncated resume generation"
  let completionGeneration ← Loading.gen "record: truncated completion generation"
  let commitGeneration ← Loading.gen "record: truncated commit generation"
  let committedDigest ← Loading.option "record: truncated committed-digest present"
    (Loading.digest "record: truncated committed digest")
  let attempts ← decodeAttemptsAt
  let createdAt ← Loading.string "record: truncated created_at"
  let committedAt ← Loading.string "record: truncated committed_at"
  pure { id, generation, state, coordinatorEpoch, ownershipGeneration, fenceGeneration,
         currentAttemptId, currentAttemptGeneration, ownerWorker, ownerWorkerBoot,
         cancellationGeneration, preemptionGeneration, resumeGeneration, completionGeneration,
         commitGeneration, committedDigest, attempts, createdAt, committedAt }

/-- `decode_record`. No read that succeeds clears the flag of the reader. -/
def decodeRecordAt : Loading ExecutionRecord := do
  let record ← decodeFieldsAt
  let ok ← (fun c : Cursor => c.ok) <$> get
  Loading.failIf (ok = false) (text "record: decode error (bounds)")
  let remaining ← Loading.remaining
  Loading.failIf (remaining ≠ 0) (text "record: trailing garbage after record")
  match validate record with
  | .error e => throw e
  | .ok () => pure record

/-! ### Snapshots -/

/-- The check that every identity comes once. -/
def Loading.unseen {α : Type} [DecidableEq α] (a : α) (seen : List α) (e : ByteString) :
    Loading Unit :=
  failIf (a ∈ seen) e

/-- The loop body of `load`, on a body of `bodyLen` bytes. -/
def decodeEntryAt (bodyLen : ℕ) (seen : List ExecutionId) : Loading ExecutionRecord := do
  let len ← Loading.guarded (Loading.u32 "load: truncated record length")
  Loading.failIf (len = 0 ∨ maxRecordPayload < len) (text "load: invalid record length")
  let needed ← Loading.sum len 8
  let remaining ← Loading.remaining
  Loading.failIf (remaining < needed.toNat) (text "load: record length exceeds file (truncated)")
  let crc ← Loading.guarded (Loading.u64 "load: truncated record crc")
  let remaining ← Loading.remaining
  let pos ← Loading.difference bodyLen remaining
  let payload ← Loading.window pos len.toNat
  Loading.failIf (Crc64.compute payload ≠ crc) (text "load: record crc mismatch (corrupt)")
  let decoded ← Loading.nested pos len.toNat decodeRecordAt.run
  match decoded with
  | .ok record =>
    Loading.unseen record.id seen (text "load: duplicate execution identity")
    Loading.skip len.toNat "load: record read failed"
    pure record
  | .error e => throw (text "load: malformed record (" ++ e ++ text ")")

def decodeEntriesAt (bodyLen : ℕ) (seen : List ExecutionId) : ℕ → Loading (List ExecutionRecord)
  | 0 => pure []
  | n + 1 => do
    let record ← decodeEntryAt bodyLen seen
    let rest ← decodeEntriesAt bodyLen (record.id :: seen) n
    pure (record :: rest)

def decodeBodyAt (bodyLen : ℕ) : Loading (List ExecutionRecord × CoordinatorEpoch) := do
  let magic ← Loading.bytes 8 "load: truncated header"
  Loading.failIf (magic ≠ storeMagic) (text "load: header magic mismatch")
  let version ← Loading.guarded (Loading.u32 "load: truncated version")
  Loading.failIf (version ≠ formatVersion) (text "load: unsupported format version")
  let epoch ← Loading.gen "load: truncated epoch"
  let count ← Loading.guarded (Loading.u32 "load: truncated count")
  Loading.failIf (maxCount < count) (text "load: record count too large")
  let records ← decodeEntriesAt bodyLen [] count.toNat
  pure (records, epoch)

/-- The body, and nothing behind it. -/
def decodeWholeAt (bodyLen : ℕ) : Loading (List ExecutionRecord × CoordinatorEpoch) := do
  let result ← decodeBodyAt bodyLen
  let remaining ← Loading.remaining
  Loading.failIf (remaining ≠ 0) (text "load: trailing garbage after declared records")
  pure result

/-- `load`, on a file of `len` bytes in memory. -/
def loadAt (len : ℕ) (m : Memory) :
    Option (Except ByteString (List ExecutionRecord × CoordinatorEpoch)) :=
  if len < headerSize + trailerSize then some (.error (text "load: file too short (truncated)"))
  else do
    let start := len - trailerSize
    let magic ← m.fetch start 8
    if magic ≠ trailerMagic.toList then
      some (.error (text "load: trailer magic mismatch (corrupt/truncated)"))
    else do
      let stored ← (Loading.guarded (Loading.u64 "load: trailer crc unreadable")).run 8
        (m.window (start + 8) 8)
      match stored with
      | .error e => some (.error e)
      | .ok crc => do
        let body ← m.fetch 0 start
        if crc ≠ Crc64.compute body then
          some (.error (text "load: whole-file crc mismatch (corrupt)"))
        else (decodeWholeAt start).run start (m.window 0 start)

/-! ### Refinement -/

section

variable {m : Memory} {data : ByteString} {α β : Type} {r : ByteReader} {error : String}

theorem RefinesAt.observe (hr : r.Inside data) {f : ℕ → Loading α} {g : ByteReader → Decoder α}
    (h : RefinesAt m data (f r.remaining) (g r) r) :
    RefinesAt m data (Loading.remaining >>= f) (get >>= g) r := by
  have hget := RefinesAt.remaining hr h
  exact ⟨hget.loads, hget.inside⟩

/-- A sum that fits is the sum. -/
theorem RefinesAt.sum {a b : UInt32} (hfits : a.toNat + b.toNat < 2 ^ 32)
    {f : UInt32 → Loading α} {p : Decoder α} (h : RefinesAt m data (f (a + b)) p r) :
    RefinesAt m data (Loading.sum a b >>= f) p r := by
  have hload : (Loading.sum a b >>= f) r.cursor m = f (a + b) r.cursor m := by
    show (Loading.sum a b r.cursor m).bind _ = _
    rw [Loading.sum, if_pos hfits]
    rfl
  exact ⟨hload.trans h.loads, h.inside⟩

theorem RefinesAt.difference {a b : ℕ} (hle : b ≤ a) {f : ℕ → Loading α} {p : Decoder α}
    (h : RefinesAt m data (f (a - b)) p r) :
    RefinesAt m data (Loading.difference a b >>= f) p r := by
  have hload : (Loading.difference a b >>= f) r.cursor m = f (a - b) r.cursor m := by
    show (Loading.difference a b r.cursor m).bind _ = _
    rw [Loading.difference, if_pos hle]
    rfl
  exact ⟨hload.trans h.loads, h.inside⟩

theorem RefinesAt.nested {pos n : ℕ} {g : ℕ → Memory → Option (Except ByteString β)}
    {result : Except ByteString β} (hg : g n (m.window pos n) = some result)
    {f : Except ByteString β → Loading α} {p : Decoder α}
    (h : RefinesAt m data (f result) p r) :
    RefinesAt m data (Loading.nested pos n g >>= f) p r := by
  have hload : (Loading.nested pos n g >>= f) r.cursor m = f result r.cursor m := by
    show (Loading.nested pos n g r.cursor m).bind _ = _
    rw [Loading.nested, hg]
    rfl
  exact ⟨hload.trans h.loads, h.inside⟩

/-- On a whole buffer. -/
theorem Refines.run {l : Loading α} {p : Decoder α} (h : Refines m data l p) :
    l.run data.length m = some (Prod.fst <$> p { data }) := by
  have hloads := (h { data } ⟨rfl, Nat.zero_le _⟩).loads
  have hstart : ({ len := data.length } : Cursor) = ByteReader.cursor { data } := rfl
  rw [Loading.run, hstart, hloads]
  cases p { data } <;> rfl

/-- On a window of the buffer. -/
theorem run_window (hm : m.Holds data) {pos n : ℕ} (hwithin : pos + n ≤ data.length)
    {l : Loading α} {p : Decoder α}
    (h : ∀ m' data', Memory.Holds m' data' → data'.length = n → Refines m' data' l p) :
    l.run n (m.window pos n) = some (Prod.fst <$> p { data := (data.drop pos).take n }) := by
  have hlength : ((data.drop pos).take n).length = n := by
    rw [List.length_take, List.length_drop]
    omega
  have hrun := (h _ _ (hm.window hwithin) hlength).run
  rwa [hlength] at hrun

theorem refines_bytes (hm : m.Holds data) (n : ℕ) :
    Refines m data (Loading.bytes n error) (Decoder.read (ByteReader.bytes n) error) := by
  refine (refines_read hm fun r => ?_).guarded
  unfold ByteReader.bytes
  split
  · rename_i hneed
    have harray : Loading.array n (r.rest.take n) = ⟨_, ByteReader.length_window hneed⟩ :=
      dif_pos _
    rw [harray]
  · rfl

theorem refines_id {Tag : Type} (hm : m.Holds data) :
    Refines m data (Loading.id error : Loading (Id Tag)) (Decoder.id error) :=
  (refines_bytes hm 16).map

theorem refines_gen {Tag : Type} (hm : m.Holds data) :
    Refines m data (Loading.gen error : Loading (Gen Tag)) (Decoder.gen error) :=
  (refines_u64 hm).guarded.map

theorem refines_digest (hm : m.Holds data) :
    Refines m data (Loading.digest error) (Decoder.digest error) :=
  (refines_bytes hm 32).map

theorem refines_boolByte (hm : m.Holds data) :
    Refines m data (Loading.boolByte error) (Decoder.read ByteReader.boolByte error) := by
  have hread : Decoder.read ByteReader.boolByte error =
      (· != 0) <$> Decoder.read ByteReader.u8 error := by
    funext r
    show Decoder.read ByteReader.boolByte error r =
      (Decoder.read ByteReader.u8 error r >>= fun x => .ok (x.1 != 0, x.2))
    unfold Decoder.read ByteReader.boolByte
    obtain ⟨o, t⟩ := r.u8
    cases o <;> rfl
  rw [hread]
  exact (refines_u8 hm).guarded.map

theorem refines_option {l : Loading α} {p : Decoder α} (hm : m.Holds data)
    (h : Refines m data l p) :
    Refines m data (Loading.option error l) (Decoder.option error p) := by
  refine (refines_boolByte hm).bind fun present => ?_
  cases present with
  | false => exact .pure none
  | true => exact h.map

/-- The characters of a string, behind their number. -/
def chars (n : ℕ) (r : ByteReader) : Option ByteString × ByteReader :=
  if r.need n then (some (r.rest.take n), r.advance n) else (none, r)

theorem refines_string (hm : m.Holds data) :
    Refines m data (Loading.string error) (Decoder.read ByteReader.string error) := by
  have hread : Decoder.read ByteReader.string error =
      Decoder.read ByteReader.u32 error >>= fun n =>
        failIf (ByteReader.maxString < n.toNat) (text error) >>= fun _ =>
          Decoder.read (chars n.toNat) error := by
    funext r
    show _ = (Decoder.read ByteReader.u32 error r >>= fun x =>
      (failIf (ByteReader.maxString < x.1.toNat) (text error) >>= fun _ =>
        Decoder.read (chars x.1.toNat) error) x.2)
    unfold Decoder.read ByteReader.string
    obtain ⟨o, t⟩ := r.u32
    cases o with
    | none => rfl
    | some n =>
        show _ = (failIf (ByteReader.maxString < n.toNat) (text error) >>= fun _ =>
          Decoder.read (chars n.toNat) error) t
        by_cases hlong : ByteReader.maxString < n.toNat
        · simp only [failIf, if_pos hlong]
          rfl
        · simp only [failIf, if_neg hlong]
          rfl
  rw [hread]
  exact (refines_u32 hm).guarded.bind fun n => .passes fun _ =>
    (refines_read hm fun _ => rfl).guarded

theorem refines_skip (n : ℕ) :
    Refines m data (Loading.skip n error) (Decoder.read (ByteReader.skip n) error) := by
  refine Refines.guarded fun r hr => .advance hr rfl ?_
  have hneed : r.cursor.need n = r.need n := rfl
  rw [hneed]
  rfl

theorem refines_many {l : Loading α} {p : Decoder α} (h : Refines m data l p) (n : ℕ) :
    Refines m data (Loading.many l n) (readMany p n) := by
  induction n with
  | zero => exact .pure []
  | succ n ih => exact h.bind fun a => ih.bind fun rest => .pure (a :: rest)

theorem refines_attempt (hm : m.Holds data) : Refines m data decodeAttemptAt decodeAttempt := by
  refine (refines_id hm).bind fun id => ?_
  refine (refines_gen hm).bind fun generation => ?_
  refine (refines_id hm).bind fun workerId => ?_
  refine (refines_id hm).bind fun workerBootId => ?_
  refine (refines_id hm).bind fun dispatchId => ?_
  refine (refines_gen hm).bind fun dispatchGeneration => ?_
  refine (refines_gen hm).bind fun ownershipGeneration => ?_
  refine (refines_gen hm).bind fun fenceGeneration => ?_
  refine (refines_enum hm).guarded.bind fun executionStateAtDispatch => ?_
  refine (refines_enum hm).guarded.bind fun state => ?_
  refine (refines_option hm (refines_digest hm)).bind fun resultDigest => ?_
  refine (refines_option hm (refines_string hm)).bind fun resultPayloadHex => ?_
  exact (refines_option hm (refines_string hm)).bind fun failureReason => .pure _

theorem refines_attempts (hm : m.Holds data) :
    Refines m data decodeAttemptsAt decodeAttempts :=
  (refines_u32 hm).guarded.bind fun n => .passes fun _ => refines_many (refines_attempt hm) n.toNat

theorem refines_fields (hm : m.Holds data) : Refines m data decodeFieldsAt decodeFields := by
  refine (refines_id hm).bind fun id => ?_
  refine (refines_gen hm).bind fun generation => ?_
  refine (refines_enum hm).guarded.bind fun state => ?_
  refine (refines_gen hm).bind fun coordinatorEpoch => ?_
  refine (refines_gen hm).bind fun ownershipGeneration => ?_
  refine (refines_gen hm).bind fun fenceGeneration => ?_
  refine (refines_option hm (refines_id hm)).bind fun currentAttemptId => ?_
  refine (refines_option hm (refines_gen hm)).bind fun currentAttemptGeneration => ?_
  refine (refines_option hm (refines_id hm)).bind fun ownerWorker => ?_
  refine (refines_option hm (refines_id hm)).bind fun ownerWorkerBoot => ?_
  refine (refines_gen hm).bind fun cancellationGeneration => ?_
  refine (refines_gen hm).bind fun preemptionGeneration => ?_
  refine (refines_gen hm).bind fun resumeGeneration => ?_
  refine (refines_gen hm).bind fun completionGeneration => ?_
  refine (refines_gen hm).bind fun commitGeneration => ?_
  refine (refines_option hm (refines_digest hm)).bind fun committedDigest => ?_
  refine (refines_attempts hm).bind fun attempts => ?_
  refine (refines_string hm).bind fun createdAt => ?_
  exact (refines_string hm).bind fun committedAt => .pure _

/-- `decodeRecord` as one decoder. -/
def decodeChecked : Decoder ExecutionRecord := do
  let record ← decodeFields
  let r ← get
  failIf (r.ok = false) (text "record: decode error (bounds)")
  failIf (r.remaining ≠ 0) (text "record: trailing garbage after record")
  match validate record with
  | .error e => throw e
  | .ok () => pure record

theorem decodeRecord_eq (data : ByteString) : decodeRecord data = Prod.fst <$> decodeChecked { data } := by
  unfold decodeRecord
  have hrun : decodeChecked { data } = (decodeFields { data } >>= fun x =>
      (failIf (x.2.ok = false) (text "record: decode error (bounds)") >>= fun _ =>
        failIf (x.2.remaining ≠ 0) (text "record: trailing garbage after record") >>= fun _ =>
          match validate x.1 with
          | .error e => throw e
          | .ok () => pure x.1) x.2) := rfl
  rw [hrun]
  cases decodeFields { data } with
  | error e => rfl
  | ok x =>
      obtain ⟨record, r⟩ := x
      show (if !r.ok then _ else _) = Prod.fst <$> (failIf (r.ok = false) _ >>= fun _ => _) r
      by_cases hok : r.ok = false
      · simp only [failIf, hok]
        rfl
      · by_cases hleft : r.remaining ≠ 0
        · simp only [failIf, if_pos hleft, Bool.not_eq_true', hok]
          rfl
        · simp only [failIf, if_neg hleft, Bool.not_eq_true', hok]
          cases validate record <;> rfl

theorem refines_checked (hm : m.Holds data) : Refines m data decodeRecordAt decodeChecked := by
  refine (refines_fields hm).bind fun record r hr => ?_
  have hrest : RefinesAt m data
      (Loading.failIf (r.ok = false) (text "record: decode error (bounds)") >>= fun _ =>
        Loading.remaining >>= fun left =>
          Loading.failIf (left ≠ 0) (text "record: trailing garbage after record") >>= fun _ =>
            match validate record with
            | .error e => throw e
            | .ok () => pure record)
      (failIf (r.ok = false) (text "record: decode error (bounds)") >>= fun _ =>
        failIf (r.remaining ≠ 0) (text "record: trailing garbage after record") >>= fun _ =>
          match validate record with
          | .error e => throw e
          | .ok () => pure record) r := by
    refine .passes fun _ => .remaining hr (.passes fun _ => ?_)
    cases validate record with
    | error e => exact .throw e
    | ok u => exact .pure hr record
  exact ⟨hrest.loads, hrest.inside⟩

/-- `decode_record` on a window of the buffer. -/
theorem decodeRecordAt_eq (hm : m.Holds data) {pos n : ℕ} (hwithin : pos + n ≤ data.length) :
    decodeRecordAt.run n (m.window pos n) = some (decodeRecord ((data.drop pos).take n)) := by
  rw [decodeRecord_eq]
  exact run_window hm hwithin fun _ _ hm' _ => refines_checked hm'

theorem advance_of_u64 {crc : UInt64} {s t : ByteReader}
    (h : Decoder.read ByteReader.u64 error s = .ok (crc, t)) : t = s.advance 8 := by
  rw [read_eq_ok, ByteReader.u64] at h
  split at h
  · exact (Prod.mk.inj h).2.symm
  · cases h

theorem refines_entry (hm : m.Holds data) (seen : List ExecutionId) :
    Refines m data (decodeEntryAt data.length seen) (decodeEntry seen) := by
  intro r hr
  refine ((refines_u32 hm).guarded r hr).bind fun len s _ hs => .passes fun hsize => ?_
  have hsmall : len.toNat ≤ 64 * 1024 * 1024 :=
    UInt32.le_iff_toNat_le.1 (UInt32.not_lt.1 (not_or.1 hsize).2)
  have hneeded : (len + 8).toNat = len.toNat + 8 := by
    rw [UInt32.toNat_add]
    show (len.toNat + 8) % 2 ^ 32 = _
    omega
  refine .sum (by show len.toNat + 8 < 2 ^ 32; omega) (.observe hs (.passes fun hroom => ?_))
  rw [hneeded] at hroom
  refine ((refines_u64 hm).guarded s hs).bind fun crc t hcrc ht => .observe ht ?_
  have hremaining : t.remaining = s.remaining - 8 := by
    rw [advance_of_u64 hcrc]
    exact (Nat.sub_sub _ _ 8).symm
  have hpos : data.length - t.remaining = t.pos := by
    have hin := ht.2
    rw [ByteReader.remaining, ht.1]
    omega
  have hwithin : t.pos + len.toNat ≤ data.length := by
    have hin := ht.2
    rw [ByteReader.remaining, ht.1] at hremaining
    omega
  have hrest : t.rest = data.drop t.pos := by rw [ByteReader.rest, ht.1]
  refine .difference (by rw [ByteReader.remaining, ht.1]; omega) ?_
  rw [hpos]
  refine .window hm hwithin ?_
  rw [hrest]
  refine .passes fun _ => .nested (decodeRecordAt_eq hm hwithin) ?_
  cases decodeRecord ((data.drop t.pos).take len.toNat) with
  | error e => exact .throw _
  | ok record =>
      exact .passes fun _ => (refines_skip len.toNat t ht).bind fun _ u _ hu => .pure hu record

theorem refines_entries (hm : m.Holds data) (seen : List ExecutionId) (n : ℕ) :
    Refines m data (decodeEntriesAt data.length seen n) (decodeEntries seen n) := by
  induction n generalizing seen with
  | zero => exact .pure []
  | succ n ih =>
      exact (refines_entry hm seen).bind fun record => (ih (record.id :: seen)).bind fun rest =>
        .pure (record :: rest)

theorem refines_body (hm : m.Holds data) :
    Refines m data (decodeBodyAt data.length) decodeBody := by
  refine (refines_bytes hm 8).bind fun magic => .passes fun _ => ?_
  refine (refines_u32 hm).guarded.bind fun version => .passes fun _ => ?_
  refine (refines_gen hm).bind fun epoch => ?_
  refine (refines_u32 hm).guarded.bind fun count => .passes fun _ => ?_
  exact (refines_entries hm [] count.toNat).bind fun records => .pure (records, epoch)

/-- The body, and nothing behind it. -/
def decodeWhole : Decoder (List ExecutionRecord × CoordinatorEpoch) := do
  let result ← decodeBody
  let r ← get
  failIf (r.remaining ≠ 0) (text "load: trailing garbage after declared records")
  pure result

theorem refines_whole (hm : m.Holds data) :
    Refines m data (decodeWholeAt data.length) decodeWhole := fun r hr =>
  (refines_body hm r hr).bind fun result _ _ ht => .observe ht (.passes fun _ => .pure ht result)

theorem load_eq (file : ByteString) :
    load (some file) =
      if file.length < headerSize + trailerSize then .error (text "load: file too short (truncated)")
      else checkTrailer (file.take (file.length - trailerSize))
          (file.drop (file.length - trailerSize)) >>= fun _ =>
        Prod.fst <$> decodeWhole { data := file.take (file.length - trailerSize) } := by
  rw [load]
  dsimp only
  by_cases hshort : file.length < headerSize + trailerSize
  · rw [if_pos hshort, if_pos hshort]
  rw [if_neg hshort, if_neg hshort]
  generalize file.take (file.length - trailerSize) = body
  cases checkTrailer body (file.drop (file.length - trailerSize)) with
  | error e => rfl
  | ok u =>
      show _ = Prod.fst <$> (decodeBody { data := body } >>= fun x =>
        (failIf (x.2.remaining ≠ 0) (text "load: trailing garbage after declared records")
          >>= fun _ => pure x.1) x.2)
      cases decodeBody { data := body } with
      | error e => rfl
      | ok x =>
          show (if x.2.remaining ≠ 0 then _ else _) = Prod.fst <$> (failIf _ _ >>= fun _ => _) x.2
          by_cases hleft : x.2.remaining ≠ 0
          · rw [failIf, if_pos hleft, if_pos hleft]
            rfl
          · rw [failIf, if_neg hleft, if_neg hleft]
            rfl

/-- Where the file is in memory, `load` does not fault, and gives what the file
holds. -/
theorem loadAt_eq {file : ByteString} (hm : m.Holds file) :
    loadAt file.length m = some (load (some file)) := by
  rw [load_eq, loadAt]
  by_cases hshort : file.length < headerSize + trailerSize
  · rw [if_pos hshort, if_pos hshort]
  have hstart : file.length - trailerSize + trailerSize = file.length := by omega
  rw [if_neg hshort, if_neg hshort]
  generalize file.length - trailerSize = start at hstart
  have hsize : start + 16 = file.length := hstart
  have hmagic : m.fetch start 8 = some ((file.drop start).take 8) := hm.fetch (by omega)
  have hbody : m.fetch 0 start = some (file.take start) := hm.fetch (by omega)
  have hstored : (Loading.guarded (Loading.u64 "load: trailer crc unreadable")).run 8
      (m.window (start + 8) 8) = some (Prod.fst <$> Decoder.read ByteReader.u64
        "load: trailer crc unreadable" { data := ((file.drop start).drop 8).take 8 }) := by
    rw [List.drop_drop]
    exact run_window hm (by omega) fun _ _ hm' _ => (refines_u64 hm').guarded
  have hwhole : (decodeWholeAt start).run start (m.window 0 start) =
      some (Prod.fst <$> decodeWhole { data := file.take start }) :=
    run_window hm (by omega) fun _ _ hm' hlength => hlength ▸ refines_whole hm'
  unfold checkTrailer
  simp only [hmagic, hbody, hstored, hwhole, Option.bind_eq_bind, Option.bind_some]
  by_cases hne : (file.drop start).take 8 ≠ trailerMagic.toList
  · rw [if_pos hne, if_pos hne]
    rfl
  rw [if_neg hne, if_neg hne]
  cases Decoder.read ByteReader.u64 "load: trailer crc unreadable"
      { data := ((file.drop start).drop 8).take 8 } with
  | error e => rfl
  | ok x =>
      obtain ⟨crc, r⟩ := x
      have hfst : Prod.fst <$> (.ok (crc, r) : Except ByteString (UInt64 × ByteReader)) = .ok crc :=
        rfl
      rw [hfst]
      by_cases hcrc : crc ≠ Crc64.compute (file.take start)
      · simp only [if_pos hcrc]
        rfl
      · simp only [if_neg hcrc]
        rfl

end

/-! ### Completeness -/

/-- A payload behind its length and its checksum. -/
def sealPayload (payload : ByteString) : ByteString :=
  ByteWriter.u32 payload.length.toUInt32
    ++ (ByteWriter.u64 (Crc64.compute payload) ++ payload)

/-- The file is a header, the declared number of payloads, and the trailer. The
payloads decode to the records, whose identities are distinct. -/
def Accounted (file : ByteString) (records : List ExecutionRecord) (epoch : CoordinatorEpoch) :
    Prop :=
  ∃ payloads : List ByteString,
    file = sealBody (ByteWriter.bytes storeMagic ++ (ByteWriter.u32 formatVersion
      ++ (ByteWriter.gen epoch ++ (ByteWriter.u32 payloads.length.toUInt32
      ++ payloads.flatMap sealPayload)))) ∧
    payloads.length ≤ maxCount.toNat ∧
    List.Forall₂ (fun payload r => decodeRecord payload = .ok r) payloads records ∧
    (records.map (·.id)).Nodup

theorem payloads_of_pieces {bs : ByteString} {rs : List ExecutionRecord}
    (h : Pieces EntrySpelled bs rs) (hvalid : ∀ r ∈ rs, r.Valid) :
    ∃ payloads : List ByteString, bs = payloads.flatMap sealPayload ∧
      List.Forall₂ (fun payload r => decodeRecord payload = .ok r) payloads rs := by
  induction h with
  | nil => exact ⟨[], rfl, .nil⟩
  | cons head tail ih =>
      obtain ⟨hr, hrest⟩ := List.forall_mem_cons.1 hvalid
      obtain ⟨payloads, rfl, hdecode⟩ := ih hrest
      obtain @⟨payload, r, hspelled, -⟩ := head
      exact ⟨payload :: payloads, rfl, .cons (decode_iff.2 ⟨hspelled, hr⟩) hdecode⟩

theorem accounted_of_load {file : ByteString} {records : List ExecutionRecord}
    {epoch : CoordinatorEpoch} (h : load (some file) = .ok (records, epoch)) :
    Accounted file records epoch := by
  obtain ⟨⟨body, hspelled, hfile⟩, hvalid, hids⟩ := spelled_of_load h
  obtain ⟨hcount, hpieces⟩ := hspelled
  obtain ⟨payloads, rfl, hdecode⟩ := payloads_of_pieces hpieces hvalid
  rw [← hdecode.length_eq] at hfile hcount
  exact ⟨payloads, Option.some.inj hfile, hcount, hdecode, hids⟩

/-- On every file, `load` ends with a result and without a fault, and it returns
true only if each declared record was decoded and the body was used up. -/
theorem load_in_bounds :
    (∀ file m, Memory.Holds m file → loadAt file.length m = some (load (some file))) ∧
      ∀ file records epoch, load (some file) = .ok (records, epoch) →
        Accounted file records epoch :=
  ⟨fun _ _ hm => loadAt_eq hm, fun _ _ _ h => accounted_of_load h⟩

theorem load_in_bounds_sample :
    loadAt (save [Sample.storedRecord] ⟨5⟩).length (fun i => (save [Sample.storedRecord] ⟨5⟩)[i]?) =
        some (.ok ([Sample.storedRecord], ⟨5⟩)) ∧
      Accounted (save [Sample.storedRecord] ⟨5⟩) [Sample.storedRecord] ⟨5⟩ := by
  have hvalid : ∀ r ∈ [Sample.storedRecord], r.Valid := by
    intro r hr
    obtain rfl := List.mem_singleton.1 hr
    exact validate_iff.1 rfl
  have hload := load_save Sample.storable_storedRecord hvalid ⟨5⟩
  obtain ⟨hbounds, haccounted⟩ := load_in_bounds
  refine ⟨?_, haccounted _ _ _ hload⟩
  rw [hbounds _ _ fun _ _ => rfl, hload]

end ExecutionFabric
