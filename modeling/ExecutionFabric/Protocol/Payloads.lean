import ExecutionFabric.Protocol

/-!
Every payload arrives as it was packed.

The payloads have no length of their own on the wire: that the unpacker stops
where the packer did is a property of each pair. An unpacker that `Delimits`
what was packed takes all of it, runs out on anything less, and leaves over
what is behind it, which `unpack` refuses. Delimiting composes field by field,
so each pair is walked through once, in the order of its fields.
-/

namespace ExecutionFabric

open Reading

/-- The bytes unpack to `a`, and nothing unpacks that they begin or that they
are the beginning of. -/
structure Carries {α : Type} (unpack : ByteString → Except ByteString α) (bytes : ByteString)
    (a : α) : Prop where
  whole : unpack bytes = .ok a
  cut : ∀ part, part <+: bytes → part ≠ bytes → ∃ error, unpack part = .error error
  extended : ∀ tail, tail ≠ [] → ∃ error, unpack (bytes ++ tail) = .error error

theorem unpack_of_reads {α : Type} {p : Decoder α} {bs tail : ByteString} {a : α}
    (h : Reads p bs a) :
    unpack p (bs ++ tail) = if tail = [] then .ok a else .error [] := by
  obtain ⟨t, hread, hok, hremaining⟩ := reads_front h tail
  simp only [unpack, hread, hok, hremaining, true_and, List.length_eq_zero_iff]

theorem carries_unpack {α : Type} {p : Decoder α} {bs : ByteString} {a : α}
    (h : Delimits p bs a) : Carries (unpack p) bs a where
  whole := by
    have hall : unpack p (bs ++ []) = _ := unpack_of_reads h.reads
    rwa [List.append_nil, if_pos rfl] at hall
  cut part hpart hne := by
    obtain ⟨error, herror⟩ := h.starves { data := part } rfl hpart hne
    exact ⟨error, by rw [unpack, herror]⟩
  extended tail htail := ⟨[], by rw [unpack_of_reads h.reads, if_neg htail]⟩

/-! ### Digests and states -/

theorem delimits_digest {error : String} (d : ResultDigest) :
    Delimits (getDigest error) (ByteWriter.bytes d.bytes) d :=
  (delimits_bytes d.bytes).map

/-- A digest that is sent if a flag is set comes back as it was, if it was nil
with the flag not set. -/
theorem delimits_flagged {flag : Bool} {d : ResultDigest} {error error' : String}
    (hnil : flag = false → d = .nil) :
    ∃ o : Option ResultDigest, o.isSome = flag ∧ o.getD .nil = d ∧
      Delimits (Decoder.option error (getDigest error'))
        (ByteWriter.boolByte flag ++ (if flag then ByteWriter.bytes d.bytes else [])) o := by
  cases flag with
  | false =>
      refine ⟨none, rfl, (hnil rfl).symm, ?_⟩
      exact @delimits_option ResultDigest _ _ (fun d => ByteWriter.bytes d.bytes) none
        delimits_digest
  | true =>
      refine ⟨some d, rfl, rfl, ?_⟩
      exact @delimits_option ResultDigest _ _ (fun d => ByteWriter.bytes d.bytes) (some d)
        delimits_digest

theorem delimits_state (unset : UInt8) (st : ExecutionState) :
    Delimits getState (putState unset (some st)) st :=
  delimits_enum (ExecutionState.ofCode?_code st)

theorem delimits_decisionCode (c : DecisionCode) :
    Delimits getDecisionCode (ByteWriter.u8 c.code) c :=
  delimits_enum (DecisionCode.ofCode?_code c)

/-! ### Tickets -/

theorem delimits_dispatchTicket (t : DispatchTicket) :
    Delimits getDispatchTicket (putDispatchTicket t) t := by
  simp only [putDispatchTicket, List.append_assoc]
  refine (delimits_id t.executionId).bind ?_
  refine (delimits_gen t.executionGeneration).bind ?_
  refine (delimits_id t.attemptId).bind ?_
  refine (delimits_gen t.attemptGeneration).bind ?_
  refine (delimits_id t.workerId).bind ?_
  refine (delimits_id t.workerBootId).bind ?_
  refine (delimits_gen t.epoch).bind ?_
  refine (delimits_id t.dispatchId).bind ?_
  refine (delimits_gen t.dispatchGeneration).bind ?_
  refine (delimits_gen t.ownershipGeneration).bind ?_
  exact (delimits_gen t.fenceGeneration).last

theorem delimits_startTicket (t : StartTicket) :
    Delimits getStartTicket (putStartTicket t) t := by
  simp only [putStartTicket, List.append_assoc]
  refine (delimits_id t.executionId).bind ?_
  refine (delimits_gen t.executionGeneration).bind ?_
  refine (delimits_id t.attemptId).bind ?_
  refine (delimits_gen t.attemptGeneration).bind ?_
  refine (delimits_id t.workerId).bind ?_
  refine (delimits_id t.workerBootId).bind ?_
  refine (delimits_gen t.epoch).bind ?_
  refine (delimits_id t.dispatchId).bind ?_
  refine (delimits_gen t.dispatchGeneration).bind ?_
  refine (delimits_gen t.ownershipGeneration).bind ?_
  exact (delimits_gen t.fenceGeneration).last

theorem delimits_completionTicket {t : CompletionTicket}
    (hnil : t.hasResult = false → t.resultDigest = .nil) :
    Delimits getCompletionTicket (putCompletionTicket t) t := by
  obtain @⟨e, eg, a, ag, w, wb, ep, d, dg, og, fg, cg, hasResult, resultDigest⟩ := t
  obtain ⟨o, rfl, rfl, hdigest⟩ := delimits_flagged hnil
  simp only [putCompletionTicket, List.append_assoc]
  refine (delimits_id e).bind ?_
  refine (delimits_gen eg).bind ?_
  refine (delimits_id a).bind ?_
  refine (delimits_gen ag).bind ?_
  refine (delimits_id w).bind ?_
  refine (delimits_id wb).bind ?_
  refine (delimits_gen ep).bind ?_
  refine (delimits_id d).bind ?_
  refine (delimits_gen dg).bind ?_
  refine (delimits_gen og).bind ?_
  refine (delimits_gen fg).bind ?_
  refine (delimits_gen cg).bind ?_
  exact hdigest.last

/-! ### Payloads -/

theorem carries_hello {p : HelloPayload} (htag : p.tag.length ≤ ByteReader.maxString) :
    Carries unpackHello (packHello p) p := by
  refine carries_unpack ?_
  simp only [packHello, List.append_assoc]
  refine (delimits_u8 p.role).bind ?_
  refine (delimits_u8 p.protocolVersion).bind ?_
  refine (delimits_id p.workerId).bind ?_
  refine (delimits_id p.workerBootId).bind ?_
  exact (delimits_string htag).last

theorem carries_welcome {p : WelcomePayload}
    (hid : p.coordinatorId.length ≤ ByteReader.maxString) :
    Carries unpackWelcome (packWelcome p) p := by
  refine carries_unpack ?_
  simp only [packWelcome, List.append_assoc]
  refine (delimits_gen p.epoch).bind ?_
  refine (delimits_string hid).bind ?_
  exact (delimits_u32 p.protocolVersion).last

theorem carries_registerAck {p : RegisterAckPayload}
    (hreason : p.reason.length ≤ ByteReader.maxString) :
    Carries unpackRegisterAck (packRegisterAck p) p := by
  refine carries_unpack ?_
  refine (delimits_boolByte p.accepted).bind ?_
  exact (delimits_string hreason).last

theorem carries_submit (p : SubmitPayload) : Carries unpackSubmit (packSubmit p) p := by
  refine carries_unpack ?_
  refine (delimits_id p.executionId).bind ?_
  exact (delimits_gen p.epoch).last

theorem carries_submitAck {p : SubmitAckPayload} (hstate : p.state.isSome = true)
    (hreason : p.reason.length ≤ ByteReader.maxString) (unset : UInt8) :
    Carries unpackSubmitAck (packSubmitAck unset p) p := by
  obtain @⟨accepted, executionId, generation, state, reason⟩ := p
  obtain ⟨st, rfl⟩ := Option.isSome_iff_exists.1 hstate
  refine carries_unpack ?_
  simp only [packSubmitAck, List.append_assoc]
  refine (delimits_boolByte accepted).bind ?_
  refine (delimits_id executionId).bind ?_
  refine (delimits_gen generation).bind ?_
  refine (delimits_state unset st).bind ?_
  exact (delimits_string hreason).last

theorem carries_dispatch (p : DispatchRequestPayload) :
    Carries unpackDispatch (packDispatch p) p := by
  refine carries_unpack ?_
  simp only [packDispatch, List.append_assoc]
  refine (delimits_id p.executionId).bind ?_
  refine (delimits_gen p.epoch).bind ?_
  refine (delimits_id p.workerId).bind ?_
  exact (delimits_id p.workerBootId).last

theorem carries_dispatchAck {p : DispatchAckPayload}
    (hreason : p.reason.length ≤ ByteReader.maxString) :
    Carries unpackDispatchAck (packDispatchAck p) p := by
  refine carries_unpack ?_
  simp only [packDispatchAck, List.append_assoc]
  refine (delimits_boolByte p.accepted).bind ?_
  refine (delimits_decisionCode p.decision).bind ?_
  refine (delimits_string hreason).bind ?_
  exact (delimits_dispatchTicket p.ticket).last

theorem carries_workerDispatch (p : WorkerDispatchPayload) :
    Carries unpackWorkerDispatch (packWorkerDispatch p) p := by
  refine carries_unpack ?_
  simp only [packWorkerDispatch, List.append_assoc]
  refine (delimits_dispatchTicket p.ticket).bind ?_
  refine (delimits_u32 p.workBytes).bind ?_
  exact (delimits_u32 p.workSeed).last

theorem carries_complete {p : CompletePayload}
    (hnil : p.ticket.hasResult = false → p.ticket.resultDigest = .nil)
    (hresult : p.result.length ≤ ByteReader.maxVector) :
    Carries unpackComplete (packComplete p) p := by
  have hlength : p.result.length.toUInt32.toNat = p.result.length :=
    UInt32.toNat_ofNat_of_lt' (lt_of_le_of_lt hresult (by decide))
  refine carries_unpack ?_
  simp only [packComplete, List.append_assoc]
  refine (delimits_completionTicket hnil).bind ?_
  refine (delimits_u32 _).bind (.passes ?_ ?_)
  · rw [hlength]
    exact Nat.not_lt.2 hresult
  · rw [hlength]
    exact (delimits_vector hresult).last

theorem carries_completeAck {p : CompleteAckPayload}
    (hreason : p.reason.length ≤ ByteReader.maxString)
    (hnil : p.committed = false → p.committedDigest = .nil) :
    Carries unpackCompleteAck (packCompleteAck p) p := by
  obtain @⟨decision, reason, committed, committedDigest⟩ := p
  obtain ⟨o, rfl, rfl, hdigest⟩ := delimits_flagged hnil
  refine carries_unpack ?_
  simp only [packCompleteAck, List.append_assoc]
  refine (delimits_decisionCode decision).bind ?_
  refine (delimits_string hreason).bind ?_
  exact hdigest.last

/-- What of a decision is sent. -/
def Decision.sent (d : Decision) : Decision where
  code := d.code
  reason := d.reason
  executionId := d.executionId
  executionGeneration := d.executionGeneration

theorem carries_decision {d : Decision} (hreason : d.reason.length ≤ ByteReader.maxString) :
    Carries unpackDecision (packDecision d) d.sent := by
  refine carries_unpack ?_
  simp only [packDecision, List.append_assoc]
  refine (delimits_decisionCode d.code).bind ?_
  refine (delimits_string hreason).bind ?_
  refine (delimits_option d.executionId delimits_id).bind ?_
  exact (delimits_option d.executionGeneration delimits_gen).last

theorem carries_execution (p : ExecutionPayload) :
    Carries unpackExecution (packExecution p) p := by
  refine carries_unpack ?_
  refine (delimits_id p.executionId).bind ?_
  exact (delimits_gen p.epoch).last

theorem carries_resume (p : ResumeRequestPayload) : Carries unpackResume (packResume p) p := by
  refine carries_unpack ?_
  simp only [packResume, List.append_assoc]
  refine (delimits_id p.executionId).bind ?_
  refine (delimits_gen p.epoch).bind ?_
  refine (delimits_gen p.resumeGen).bind ?_
  refine (delimits_id p.workerId).bind ?_
  exact (delimits_id p.workerBootId).last

theorem carries_workerLost (p : WorkerLostPayload) :
    Carries unpackWorkerLost (packWorkerLost p) p := by
  refine carries_unpack ?_
  simp only [packWorkerLost, List.append_assoc]
  refine (delimits_id p.executionId).bind ?_
  refine (delimits_id p.workerId).bind ?_
  refine (delimits_id p.workerBootId).bind ?_
  exact (delimits_gen p.epoch).last

theorem carries_query (executionId : ExecutionId) :
    Carries unpackQuery (packQuery executionId) executionId :=
  carries_unpack (delimits_id executionId)

theorem carries_queryResponse {p : QueryResponsePayload} (hstate : p.state.isSome = true)
    (hcount : p.attemptCount < 2 ^ 64) (hdetail : p.detail.length ≤ ByteReader.maxString)
    (unset : UInt8) : Carries unpackQueryResponse (packQueryResponse unset p) p := by
  obtain @⟨found, executionId, state, generation, epoch, currentAttempt, currentAttemptGeneration,
    attemptCount, committedDigest, detail⟩ := p
  obtain ⟨st, rfl⟩ := Option.isSome_iff_exists.1 hstate
  have hback : attemptCount.toUInt64.toNat = attemptCount := UInt64.toNat_ofNat_of_lt' hcount
  refine carries_unpack ?_
  simp only [packQueryResponse, List.append_assoc]
  refine (delimits_boolByte found).bind ?_
  refine (delimits_id executionId).bind ?_
  refine (delimits_state unset st).bind ?_
  refine (delimits_gen generation).bind ?_
  refine (delimits_gen epoch).bind ?_
  refine (delimits_option currentAttempt delimits_id).bind ?_
  refine (delimits_option currentAttemptGeneration delimits_gen).bind ?_
  refine (delimits_u64 attemptCount.toUInt64).bind ?_
  refine (delimits_option committedDigest delimits_digest).bind ?_
  rw [hback]
  exact (delimits_string hdetail).last

/-- The execution generation does not arrive. -/
theorem carries_control (req : ControlRequest) :
    Carries unpackCancel (packCancel req) { req with executionGeneration := ⟨0⟩ } := by
  refine carries_unpack ?_
  simp only [packCancel, putControlRequest, List.append_assoc]
  refine (delimits_id req.executionId).bind ?_
  refine (delimits_gen req.epoch).bind ?_
  refine (delimits_gen req.authorityGeneration).bind ?_
  refine (delimits_gen req.cancellationGeneration).bind ?_
  refine (delimits_gen req.preemptionGeneration).bind ?_
  exact (delimits_gen req.resumeGeneration).last

/-! ### All of them -/

/-- What is sent in a frame, control requests apart. -/
inductive Payload
  | hello (p : HelloPayload)
  | welcome (p : WelcomePayload)
  | registerAck (p : RegisterAckPayload)
  | submit (p : SubmitPayload)
  | submitAck (p : SubmitAckPayload)
  | dispatch (p : DispatchRequestPayload)
  | dispatchAck (p : DispatchAckPayload)
  | workerDispatch (p : WorkerDispatchPayload)
  | start (t : StartTicket)
  | complete (p : CompletePayload)
  | completeAck (p : CompleteAckPayload)
  | decision (d : Decision)
  | ackPreempt (p : ExecutionPayload)
  | markResumable (p : ExecutionPayload)
  | resume (p : ResumeRequestPayload)
  | workerLost (p : WorkerLostPayload)
  | query (executionId : ExecutionId)
  | queryResponse (p : QueryResponsePayload)

namespace Payload

/-- The values are in range, texts and results within the limits of the reader,
and what a flag says is absent is nil. -/
def Sendable : Payload → Prop
  | hello p => p.tag.length ≤ ByteReader.maxString
  | welcome p => p.coordinatorId.length ≤ ByteReader.maxString
  | registerAck p => p.reason.length ≤ ByteReader.maxString
  | submitAck p => p.state.isSome = true ∧ p.reason.length ≤ ByteReader.maxString
  | dispatchAck p => p.reason.length ≤ ByteReader.maxString
  | complete p =>
      (p.ticket.hasResult = false → p.ticket.resultDigest = .nil) ∧
        p.result.length ≤ ByteReader.maxVector
  | completeAck p =>
      p.reason.length ≤ ByteReader.maxString ∧ (p.committed = false → p.committedDigest = .nil)
  | decision d => d.reason.length ≤ ByteReader.maxString
  | queryResponse p =>
      p.state.isSome = true ∧ p.attemptCount < 2 ^ 64 ∧ p.detail.length ≤ ByteReader.maxString
  | submit _ | dispatch _ | workerDispatch _ | start _ | ackPreempt _ | markResumable _
  | resume _ | workerLost _ | query _ => True

/-- The payload is carried by what its packer writes to what its unpacker gives. -/
def Carried : Payload → Prop
  | hello p => Carries unpackHello (packHello p) p
  | welcome p => Carries unpackWelcome (packWelcome p) p
  | registerAck p => Carries unpackRegisterAck (packRegisterAck p) p
  | submit p => Carries unpackSubmit (packSubmit p) p
  | submitAck p => ∀ unset, Carries unpackSubmitAck (packSubmitAck unset p) p
  | dispatch p => Carries unpackDispatch (packDispatch p) p
  | dispatchAck p => Carries unpackDispatchAck (packDispatchAck p) p
  | workerDispatch p => Carries unpackWorkerDispatch (packWorkerDispatch p) p
  | start t => Carries unpackStart (packStart t) t
  | complete p => Carries unpackComplete (packComplete p) p
  | completeAck p => Carries unpackCompleteAck (packCompleteAck p) p
  | decision d => Carries unpackDecision (packDecision d) d.sent
  | ackPreempt p => Carries unpackAckPreempt (packAckPreempt p) p
  | markResumable p => Carries unpackMarkResumable (packMarkResumable p) p
  | resume p => Carries unpackResume (packResume p) p
  | workerLost p => Carries unpackWorkerLost (packWorkerLost p) p
  | query executionId => Carries unpackQuery (packQuery executionId) executionId
  | queryResponse p => ∀ unset, Carries unpackQueryResponse (packQueryResponse unset p) p

end Payload

/-- Every payload arrives as it was packed, and neither a part of it nor more
than it is taken for a payload. -/
theorem payload_carried {p : Payload} (h : p.Sendable) : p.Carried := by
  cases p with
  | hello p => exact carries_hello h
  | welcome p => exact carries_welcome h
  | registerAck p => exact carries_registerAck h
  | submit p => exact carries_submit p
  | submitAck p => exact carries_submitAck h.1 h.2
  | dispatch p => exact carries_dispatch p
  | dispatchAck p => exact carries_dispatchAck h
  | workerDispatch p => exact carries_workerDispatch p
  | start t => exact carries_unpack (delimits_startTicket t)
  | complete p => exact carries_complete h.1 h.2
  | completeAck p => exact carries_completeAck h.1 h.2
  | decision d => exact carries_decision h
  | ackPreempt p => exact carries_execution p
  | markResumable p => exact carries_execution p
  | resume p => exact carries_resume p
  | workerLost p => exact carries_workerLost p
  | query executionId => exact carries_query executionId
  | queryResponse p => exact carries_queryResponse h.1 h.2.1 h.2.2

/-- An answer about an execution that has a current attempt, and no result. -/
theorem payload_carried_sample :
    let answer : QueryResponsePayload :=
      { found := true, executionId := .nil, state := some .running, generation := ⟨1⟩,
        epoch := ⟨7⟩, currentAttempt := some .nil, currentAttemptGeneration := some ⟨3⟩,
        attemptCount := 3, detail := text "RUNNING" }
    (Payload.queryResponse answer).Sendable ∧ (Payload.queryResponse answer).Carried := by
  intro answer
  have hsendable : (Payload.queryResponse answer).Sendable := by
    refine ⟨rfl, by decide, ?_⟩
    decide +kernel
  exact ⟨hsendable, payload_carried hsendable⟩

/-- Cancellations and preemptions arrive as they were sent exactly when the
execution generation they carry is the one that stands for none. -/
theorem control_carried_iff (req : ControlRequest) :
    (unpackCancel (packCancel req) = .ok req ∧ unpackCancel (packPreempt req) = .ok req) ↔
      req.executionGeneration = ⟨0⟩ := by
  have harrives := (carries_control req).whole
  have hpreempt : packPreempt req = packCancel req := rfl
  rw [hpreempt, and_self, harrives]
  constructor
  · intro h
    rw [← Except.ok.inj h]
  · intro h
    rw [← h]

/-- A cancellation of the first generation of an execution loses it. -/
theorem control_generation_lost :
    let req : ControlRequest :=
      { executionId := .nil, executionGeneration := ⟨1⟩, epoch := ⟨7⟩, authorityGeneration := ⟨2⟩ }
    unpackCancel (packCancel req) ≠ .ok req := by
  intro req
  decide +kernel

end ExecutionFabric
