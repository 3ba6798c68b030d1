import ExecutionFabric.Protocol

/-!
Unpacking into a message that was used before.

The unpack functions fill in a message of the caller, field by field, and what
they do not write stays as it was. They write every field that is on the wire,
except those behind a presence flag: these are written when the flag is set,
and not cleared when it is not. A target is clear for a payload when the fields
the payload leaves out are absent in it already, and that is what it takes for
the previous contents not to show (`forgets_iff`).
-/

namespace ExecutionFabric

open Reading

/-! ### The unpack functions -/

def getDispatchTicketInto (t : DispatchTicket) : Decoder DispatchTicket := do
  let t := { t with executionId := ← getId }
  let t := { t with executionGeneration := ← getGen }
  let t := { t with attemptId := ← getId }
  let t := { t with attemptGeneration := ← getGen }
  let t := { t with workerId := ← getId }
  let t := { t with workerBootId := ← getId }
  let t := { t with epoch := ← getGen }
  let t := { t with dispatchId := ← getId }
  let t := { t with dispatchGeneration := ← getGen }
  let t := { t with ownershipGeneration := ← getGen }
  let t := { t with fenceGeneration := ← getGen }
  pure t

def getStartTicketInto (t : StartTicket) : Decoder StartTicket := do
  let t := { t with executionId := ← getId }
  let t := { t with executionGeneration := ← getGen }
  let t := { t with attemptId := ← getId }
  let t := { t with attemptGeneration := ← getGen }
  let t := { t with workerId := ← getId }
  let t := { t with workerBootId := ← getId }
  let t := { t with epoch := ← getGen }
  let t := { t with dispatchId := ← getId }
  let t := { t with dispatchGeneration := ← getGen }
  let t := { t with ownershipGeneration := ← getGen }
  let t := { t with fenceGeneration := ← getGen }
  pure t

def getCompletionTicketInto (t : CompletionTicket) : Decoder CompletionTicket := do
  let t := { t with executionId := ← getId }
  let t := { t with executionGeneration := ← getGen }
  let t := { t with attemptId := ← getId }
  let t := { t with attemptGeneration := ← getGen }
  let t := { t with workerId := ← getId }
  let t := { t with workerBootId := ← getId }
  let t := { t with epoch := ← getGen }
  let t := { t with dispatchId := ← getId }
  let t := { t with dispatchGeneration := ← getGen }
  let t := { t with ownershipGeneration := ← getGen }
  let t := { t with fenceGeneration := ← getGen }
  let t := { t with completionGeneration := ← getGen }
  let has ← Decoder.read ByteReader.boolByte "truncated has_result"
  let t := { t with hasResult := has }
  if has then
    let d ← Decoder.read (ByteReader.bytes 32) "truncated digest"
    pure { t with resultDigest := ⟨d⟩ }
  else pure t

def getControlRequestInto (req : ControlRequest) : Decoder ControlRequest := do
  let req := { req with executionId := ← getId }
  let req := { req with epoch := ← getGen }
  let req := { req with authorityGeneration := ← getGen }
  let req := { req with cancellationGeneration := ← getGen }
  let req := { req with preemptionGeneration := ← getGen }
  let req := { req with resumeGeneration := ← getGen }
  pure req

def unpackHelloInto (p : HelloPayload) : ByteString → Except ByteString HelloPayload := unpack do
  let p := { p with role := ← Decoder.read ByteReader.u8 "truncated role" }
  let p := { p with protocolVersion := ← Decoder.read ByteReader.u8 "truncated version" }
  let p := { p with workerId := ← getId }
  let p := { p with workerBootId := ← getId }
  let p := { p with tag := ← Decoder.read ByteReader.string "truncated tag" }
  pure p

def unpackWelcomeInto (p : WelcomePayload) : ByteString → Except ByteString WelcomePayload :=
  unpack do
    let p := { p with epoch := ← getGen }
    let p := { p with
      coordinatorId := ← Decoder.read ByteReader.string "truncated coordinator id" }
    let p := { p with
      protocolVersion := ← Decoder.read ByteReader.u32 "truncated protocol version" }
    pure p

def unpackRegisterAckInto (p : RegisterAckPayload) :
    ByteString → Except ByteString RegisterAckPayload := unpack do
  let p := { p with accepted := ← Decoder.read ByteReader.boolByte "truncated accepted" }
  let p := { p with reason := ← Decoder.read ByteReader.string "truncated reason" }
  pure p

def unpackSubmitInto (p : SubmitPayload) : ByteString → Except ByteString SubmitPayload :=
  unpack do
    let p := { p with executionId := ← getId }
    let p := { p with epoch := ← getGen }
    pure p

def unpackSubmitAckInto (p : SubmitAckPayload) :
    ByteString → Except ByteString SubmitAckPayload := unpack do
  let p := { p with accepted := ← Decoder.read ByteReader.boolByte "truncated accepted" }
  let p := { p with executionId := ← getId }
  let p := { p with generation := ← getGen }
  let p := { p with state := some (← getState) }
  let p := { p with reason := ← Decoder.read ByteReader.string "truncated reason" }
  pure p

def unpackDispatchInto (p : DispatchRequestPayload) :
    ByteString → Except ByteString DispatchRequestPayload := unpack do
  let p := { p with executionId := ← getId }
  let p := { p with epoch := ← getGen }
  let p := { p with workerId := ← getId }
  let p := { p with workerBootId := ← getId }
  pure p

def unpackDispatchAckInto (p : DispatchAckPayload) :
    ByteString → Except ByteString DispatchAckPayload := unpack do
  let p := { p with accepted := ← Decoder.read ByteReader.boolByte "truncated accepted" }
  let p := { p with decision := ← getDecisionCode }
  let p := { p with reason := ← Decoder.read ByteReader.string "truncated reason" }
  let p := { p with ticket := ← getDispatchTicketInto p.ticket }
  pure p

def unpackWorkerDispatchInto (p : WorkerDispatchPayload) :
    ByteString → Except ByteString WorkerDispatchPayload := unpack do
  let p := { p with ticket := ← getDispatchTicketInto p.ticket }
  let p := { p with workBytes := ← Decoder.read ByteReader.u32 "truncated work hint" }
  let p := { p with workSeed := ← Decoder.read ByteReader.u32 "truncated work hint" }
  pure p

def unpackStartInto (t : StartTicket) : ByteString → Except ByteString StartTicket :=
  unpack (getStartTicketInto t)

def unpackCompleteInto (p : CompletePayload) : ByteString → Except ByteString CompletePayload :=
  unpack do
    let p := { p with ticket := ← getCompletionTicketInto p.ticket }
    let n ← Decoder.read ByteReader.u32 "truncated result length"
    failIf (ByteReader.maxVector < n.toNat) (text "result too large")
    let p := { p with result := ← Decoder.read (ByteReader.vector n.toNat) "truncated result" }
    pure p

def unpackCompleteAckInto (p : CompleteAckPayload) :
    ByteString → Except ByteString CompleteAckPayload := unpack do
  let p := { p with decision := ← getDecisionCode }
  let p := { p with reason := ← Decoder.read ByteReader.string "truncated reason" }
  let c ← Decoder.read ByteReader.boolByte "truncated committed"
  let p := { p with committed := c }
  if c then
    let d ← Decoder.read (ByteReader.bytes 32) "truncated committed digest"
    pure { p with committedDigest := ⟨d⟩ }
  else pure p

/-- A presence flag, and the value to be written if the flag is set. -/
def Decoder.ifPresent {α β : Type} (error : String) (p : Decoder α) (target : β)
    (write : α → β) : Decoder β := do
  let has ← Decoder.read ByteReader.boolByte error
  if has then write <$> p else pure target

def unpackDecisionInto (d : Decision) : ByteString → Except ByteString Decision := unpack do
  let d := { d with code := ← getDecisionCode }
  let d := { d with reason := ← Decoder.read ByteReader.string "truncated reason" }
  let d ← Decoder.ifPresent "truncated opt" getId d fun id => { d with executionId := some id }
  let d ← Decoder.ifPresent "truncated opt" getGen d fun g =>
    { d with executionGeneration := some g }
  pure d

def unpackCancelInto (req : ControlRequest) : ByteString → Except ByteString ControlRequest :=
  unpack (getControlRequestInto req)

def unpackExecutionInto (p : ExecutionPayload) : ByteString → Except ByteString ExecutionPayload :=
  unpack do
    let p := { p with executionId := ← getId }
    let p := { p with epoch := ← getGen }
    pure p

def unpackAckPreemptInto (p : ExecutionPayload) :
    ByteString → Except ByteString ExecutionPayload := unpackExecutionInto p

def unpackMarkResumableInto (p : ExecutionPayload) :
    ByteString → Except ByteString ExecutionPayload := unpackExecutionInto p

def unpackResumeInto (p : ResumeRequestPayload) :
    ByteString → Except ByteString ResumeRequestPayload := unpack do
  let p := { p with executionId := ← getId }
  let p := { p with epoch := ← getGen }
  let p := { p with resumeGen := ← getGen }
  let p := { p with workerId := ← getId }
  let p := { p with workerBootId := ← getId }
  pure p

def unpackWorkerLostInto (p : WorkerLostPayload) :
    ByteString → Except ByteString WorkerLostPayload := unpack do
  let p := { p with executionId := ← getId }
  let p := { p with workerId := ← getId }
  let p := { p with workerBootId := ← getId }
  let p := { p with epoch := ← getGen }
  pure p

def unpackQueryInto (_ : ExecutionId) : ByteString → Except ByteString ExecutionId := unpack getId

def unpackQueryResponseInto (p : QueryResponsePayload) :
    ByteString → Except ByteString QueryResponsePayload := unpack do
  let p := { p with found := ← Decoder.read ByteReader.boolByte "truncated found" }
  let p := { p with executionId := ← getId }
  let p := { p with state := some (← getState) }
  let p := { p with generation := ← getGen }
  let p := { p with epoch := ← getGen }
  let p ← Decoder.ifPresent "truncated opt" getId p fun id => { p with currentAttempt := some id }
  let p ← Decoder.ifPresent "truncated opt" getGen p fun g =>
    { p with currentAttemptGeneration := some g }
  let p := { p with
    attemptCount := (← Decoder.read ByteReader.u64 "truncated count").toNat }
  let p ← Decoder.ifPresent "truncated opt" (getDigest "truncated digest") p fun d =>
    { p with committedDigest := some d }
  let p := { p with detail := ← Decoder.read ByteReader.string "truncated detail" }
  pure p

/-! ### What they leave -/

/-- What unpacking into `t` makes of what unpacking into a fresh ticket gives. -/
def CompletionTicket.onto (t fresh : CompletionTicket) : CompletionTicket :=
  { fresh with resultDigest := if fresh.hasResult then fresh.resultDigest else t.resultDigest }

def CompletePayload.onto (p fresh : CompletePayload) : CompletePayload :=
  { fresh with ticket := p.ticket.onto fresh.ticket }

def CompleteAckPayload.onto (p fresh : CompleteAckPayload) : CompleteAckPayload :=
  { fresh with
    committedDigest := if fresh.committed then fresh.committedDigest else p.committedDigest }

def Decision.onto (d fresh : Decision) : Decision :=
  { d with
    code := fresh.code
    reason := fresh.reason
    executionId := fresh.executionId.or d.executionId
    executionGeneration := fresh.executionGeneration.or d.executionGeneration }

def ControlRequest.onto (req fresh : ControlRequest) : ControlRequest :=
  { fresh with executionGeneration := req.executionGeneration }

def QueryResponsePayload.onto (p fresh : QueryResponsePayload) : QueryResponsePayload :=
  { fresh with
    currentAttempt := fresh.currentAttempt.or p.currentAttempt
    currentAttemptGeneration := fresh.currentAttemptGeneration.or p.currentAttemptGeneration
    committedDigest := fresh.committedDigest.or p.committedDigest }

theorem unpack_map {α β : Type} (f : α → β) (p : Decoder α) (b : ByteString) :
    unpack (f <$> p) b = f <$> unpack p b := by
  have hmap : (f <$> p) { data := b } = (p { data := b } >>= fun x => .ok (f x.1, x.2)) := rfl
  unfold unpack
  rw [hmap]
  cases p { data := b } with
  | error e => rfl
  | ok x =>
      show (if _ then _ else _) = f <$> (if _ then _ else _)
      split <;> rfl

/-- A field is written when its flag is set, and it is left alone otherwise. -/
theorem ifPresent_eq {α β : Type} (error : String) (p : Decoder α) (target : β) (write : α → β) :
    Decoder.ifPresent error p target write =
      (fun o => (o.map write).getD target) <$> Decoder.option error p := by
  unfold Decoder.ifPresent Decoder.option
  rw [map_bind]
  refine bind_congr fun has => ?_
  cases has with
  | false => rfl
  | true =>
      simp only [if_true, Functor.map_map]
      rfl

theorem getCompletionTicketInto_eq (t : CompletionTicket) :
    getCompletionTicketInto t = t.onto <$> getCompletionTicket := by
  unfold getCompletionTicketInto getCompletionTicket Decoder.option
  simp only [map_bind, bind_assoc]
  iterate 12 refine bind_congr fun _ => ?_
  refine bind_congr fun has => ?_
  cases has with
  | false => rfl
  | true =>
      simp only [if_true, map_eq_pure_bind, bind_assoc, pure_bind]
      rfl

theorem unpackCompleteInto_eq (p : CompletePayload) (b : ByteString) :
    unpackCompleteInto p b = p.onto <$> unpackComplete b := by
  unfold unpackCompleteInto unpackComplete
  rw [getCompletionTicketInto_eq, ← unpack_map]
  simp only [map_eq_pure_bind, bind_assoc, pure_bind]
  rfl

theorem unpackCompleteAckInto_eq (p : CompleteAckPayload) (b : ByteString) :
    unpackCompleteAckInto p b = p.onto <$> unpackCompleteAck b := by
  unfold unpackCompleteAckInto unpackCompleteAck Decoder.option
  rw [← unpack_map]
  simp only [map_bind, bind_assoc]
  refine congrArg (unpack · b) ?_
  iterate 2 refine bind_congr fun _ => ?_
  refine bind_congr fun committed => ?_
  cases committed with
  | false => rfl
  | true =>
      simp only [if_true, getDigest, map_eq_pure_bind, bind_assoc, pure_bind]
      rfl

theorem unpackDecisionInto_eq (d : Decision) (b : ByteString) :
    unpackDecisionInto d b = d.onto <$> unpackDecision b := by
  unfold unpackDecisionInto unpackDecision
  rw [← unpack_map]
  simp only [ifPresent_eq, map_eq_pure_bind, bind_assoc, pure_bind]
  refine congrArg (unpack · b) ?_
  iterate 2 refine bind_congr fun _ => ?_
  refine bind_congr fun id => bind_congr fun g => ?_
  cases id <;> cases g <;> rfl

theorem unpackCancelInto_eq (req : ControlRequest) (b : ByteString) :
    unpackCancelInto req b = req.onto <$> unpackCancel b := by
  unfold unpackCancelInto unpackCancel getControlRequestInto getControlRequest
  rw [← unpack_map]
  simp only [map_eq_pure_bind, bind_assoc, pure_bind]
  rfl

theorem unpackQueryResponseInto_eq (p : QueryResponsePayload) (b : ByteString) :
    unpackQueryResponseInto p b = p.onto <$> unpackQueryResponse b := by
  unfold unpackQueryResponseInto unpackQueryResponse
  rw [← unpack_map]
  simp only [ifPresent_eq, map_eq_pure_bind, bind_assoc, pure_bind]
  refine congrArg (unpack · b) ?_
  iterate 5 refine bind_congr fun _ => ?_
  refine bind_congr fun id => bind_congr fun g => ?_
  refine bind_congr fun count => bind_congr fun digest => bind_congr fun detail => ?_
  cases id <;> cases g <;> cases digest <;> rfl

/-! ### Presence flags

Where the flags of a payload are depends on the texts and the optional fields
that come before them.
-/

/-- There is a flag at `i`, and it is not set. -/
def Unset (b : ByteString) (i : ℕ) : Prop := b[i]? = some 0

instance (b : ByteString) (i : ℕ) : Decidable (Unset b i) :=
  inferInstanceAs (Decidable (_ = _))

/-- The end of the text that begins at `i`. -/
def textEnd (b : ByteString) (i : ℕ) : ℕ := i + 4 + leValue ((b.drop i).take 4)

/-- The end of an optional field of `n` bytes that has its flag at `i`. -/
def optionEnd (b : ByteString) (i n : ℕ) : ℕ := if Unset b i then i + 1 else i + 1 + n

section

variable {b xs bs : ByteString} {s t : ByteReader} {α : Type} {a : Option α}

theorem unset_at {W : ByteString → α → Prop} (hxs : Took xs { data := b } s) (hbs : Took bs s t)
    (h : Presence W bs a) : Unset b xs.length ↔ a = none := by
  have hb : b = xs ++ (bs ++ t.rest) := by
    rw [← List.append_assoc]
    exact hxs.trans hbs
  have hskip : b[xs.length]? = (bs ++ t.rest)[0]? := by
    rw [hb, List.getElem?_append_right xs.length.le_refl, Nat.sub_self]
  rw [Unset, hskip]
  cases h with
  | absent => exact iff_of_true rfl rfl
  | present hflag _ => exact iff_of_false (fun h => hflag (Option.some.inj h)) nofun

theorem optionEnd_at {write : α → ByteString} {n : ℕ} (hn : ∀ x, (write x).length = n)
    (hxs : Took xs { data := b } s) (hbs : Took bs s t)
    (h : Presence (fun bs x => bs = write x) bs a) :
    optionEnd b xs.length n = (xs ++ bs).length := by
  have hflag := unset_at hxs hbs h
  rw [optionEnd, List.length_append]
  cases h with
  | absent =>
      rw [if_pos (hflag.2 rfl)]
      rfl
  | @present flag bs x _ hx =>
      have hlength : (ByteWriter.u8 flag ++ bs).length = 1 + n := by
        rw [List.length_append, hx, hn x]
        rfl
      rw [if_neg fun hunset => (nomatch hflag.1 hunset), hlength, Nat.add_assoc]

theorem textEnd_at {v : ByteString} (h : v.length ≤ ByteReader.maxString)
    (hxs : Took xs { data := b } s) (hv : Took (ByteWriter.string v) s t) :
    textEnd b xs.length = (xs ++ ByteWriter.string v).length := by
  have hb : b = xs ++ (ByteWriter.u32 v.length.toUInt32 ++ (v ++ t.rest)) := by
    rw [← List.append_assoc (ByteWriter.u32 _), ← List.append_assoc]
    exact hxs.trans hv
  have hsize : leValue (ByteWriter.u32 v.length.toUInt32) = v.length := by
    rw [ByteWriter.u32, leValue_leBytes (UInt32.toNat_lt _), toNat_size h]
  have hcount : (b.drop xs.length).take 4 = ByteWriter.u32 v.length.toUInt32 := by
    rw [hb, List.drop_left]
    exact List.take_left' (ByteWriter.length_u32 _)
  rw [textEnd, hcount, hsize, List.length_append, ByteWriter.string, List.length_append,
    ByteWriter.length_u32, Nat.add_assoc]

end

theorem isSome_eq_false {α : Type} {a : Option α} : a = none ↔ a.isSome = false :=
  Option.isNone_iff_eq_none.symm.trans Option.isSome_eq_false_iff.symm

theorem unpack_eq_ok {α : Type} {p : Decoder α} {b : ByteString} {a : α} (h : unpack p b = .ok a) :
    ∃ r : ByteReader, p { data := b } = .ok (a, r) := by
  unfold unpack at h
  split at h
  · cases h
  · rename_i x r hread
    split at h
    · cases h
      exact ⟨r, hread⟩
    · cases h

theorem took_getDigest {error : String} {s t : ByteReader} {d : ResultDigest}
    (h : getDigest error s = .ok (d, t)) : Took (ByteWriter.bytes d.bytes) s t := by
  obtain ⟨v, hv, rfl⟩ := map_eq_ok.1 h
  exact took_bytes hv

/-- The five identifiers and seven generations of the ticket come first. -/
theorem unset_complete {b : ByteString} {q : CompletePayload} (h : unpackComplete b = .ok q) :
    Unset b 136 ↔ q.ticket.hasResult = false := by
  obtain ⟨t, h⟩ := unpack_eq_ok h
  obtain ⟨ticket, s, hticket, h⟩ := bind_eq_ok.1 h
  obtain ⟨n, s', hn, h⟩ := bind_eq_ok.1 h
  obtain ⟨-, h⟩ := passes_eq_ok.1 h
  obtain ⟨result, s'', hresult, h⟩ := bind_eq_ok.1 h
  obtain ⟨rfl, rfl⟩ := Prod.mk.inj (Except.ok.inj h)
  obtain ⟨_, s₁, h₁, h⟩ := bind_eq_ok.1 hticket
  obtain ⟨_, s₂, h₂, h⟩ := bind_eq_ok.1 h
  obtain ⟨_, s₃, h₃, h⟩ := bind_eq_ok.1 h
  obtain ⟨_, s₄, h₄, h⟩ := bind_eq_ok.1 h
  obtain ⟨_, s₅, h₅, h⟩ := bind_eq_ok.1 h
  obtain ⟨_, s₆, h₆, h⟩ := bind_eq_ok.1 h
  obtain ⟨_, s₇, h₇, h⟩ := bind_eq_ok.1 h
  obtain ⟨_, s₈, h₈, h⟩ := bind_eq_ok.1 h
  obtain ⟨_, s₉, h₉, h⟩ := bind_eq_ok.1 h
  obtain ⟨_, s₁₀, h₁₀, h⟩ := bind_eq_ok.1 h
  obtain ⟨_, s₁₁, h₁₁, h⟩ := bind_eq_ok.1 h
  obtain ⟨_, s₁₂, h₁₂, h⟩ := bind_eq_ok.1 h
  obtain ⟨digest, s₁₃, h₁₃, h⟩ := bind_eq_ok.1 h
  obtain ⟨rfl, rfl⟩ := Prod.mk.inj (Except.ok.inj h)
  obtain ⟨_, hdigest, htook₁₃⟩ := took_written took_getDigest h₁₃
  have htook := (took_id h₁).trans <| (took_gen h₂).trans <| (took_id h₃).trans <|
    (took_gen h₄).trans <| (took_id h₅).trans <| (took_id h₆).trans <| (took_gen h₇).trans <|
    (took_id h₈).trans <| (took_gen h₉).trans <| (took_gen h₁₀).trans <|
    (took_gen h₁₁).trans (took_gen h₁₂)
  have hunset := unset_at htook htook₁₃ hdigest
  simp only [List.length_append, ByteWriter.length_id, ByteWriter.length_gen] at hunset
  exact hunset.trans isSome_eq_false

theorem unset_completeAck {b : ByteString} {q : CompleteAckPayload}
    (h : unpackCompleteAck b = .ok q) : Unset b (textEnd b 1) ↔ q.committed = false := by
  obtain ⟨t, h⟩ := unpack_eq_ok h
  obtain ⟨decision, s₁, h₁, h⟩ := bind_eq_ok.1 h
  obtain ⟨reason, s₂, h₂, h⟩ := bind_eq_ok.1 h
  obtain ⟨digest, s₃, h₃, h⟩ := bind_eq_ok.1 h
  obtain ⟨rfl, rfl⟩ := Prod.mk.inj (Except.ok.inj h)
  have htook₁ := took_enum DecisionCode.code_of_ofCode? h₁
  obtain ⟨hreason, htook₂⟩ := took_string h₂
  obtain ⟨_, hdigest, htook₃⟩ := took_written took_getDigest h₃
  have htext : textEnd b 1 = _ := textEnd_at hreason htook₁ htook₂
  rw [htext]
  exact (unset_at (htook₁.trans htook₂) htook₃ hdigest).trans isSome_eq_false

theorem unset_decision {b : ByteString} {q : Decision} (h : unpackDecision b = .ok q) :
    (Unset b (textEnd b 1) ↔ q.executionId = none) ∧
      (Unset b (optionEnd b (textEnd b 1) 16) ↔ q.executionGeneration = none) := by
  obtain ⟨t, h⟩ := unpack_eq_ok h
  obtain ⟨code, s₁, h₁, h⟩ := bind_eq_ok.1 h
  obtain ⟨reason, s₂, h₂, h⟩ := bind_eq_ok.1 h
  obtain ⟨id, s₃, h₃, h⟩ := bind_eq_ok.1 h
  obtain ⟨g, s₄, h₄, h⟩ := bind_eq_ok.1 h
  obtain ⟨rfl, rfl⟩ := Prod.mk.inj (Except.ok.inj h)
  have htook₁ := took_enum DecisionCode.code_of_ofCode? h₁
  obtain ⟨hreason, htook₂⟩ := took_string h₂
  obtain ⟨_, hid, htook₃⟩ := took_written took_id h₃
  obtain ⟨_, hg, htook₄⟩ := took_written took_gen h₄
  have htext : textEnd b 1 = _ := textEnd_at hreason htook₁ htook₂
  have hfront := htook₁.trans htook₂
  rw [htext, optionEnd_at ByteWriter.length_id hfront htook₃ hid]
  exact ⟨unset_at hfront htook₃ hid, unset_at (hfront.trans htook₃) htook₄ hg⟩

/-- `found`, an identifier, the state and two generations come first, and the
number of attempts before the digest. -/
theorem unset_queryResponse {b : ByteString} {q : QueryResponsePayload}
    (h : unpackQueryResponse b = .ok q) :
    (Unset b 34 ↔ q.currentAttempt = none) ∧
      (Unset b (optionEnd b 34 16) ↔ q.currentAttemptGeneration = none) ∧
      (Unset b (optionEnd b (optionEnd b 34 16) 8 + 8) ↔ q.committedDigest = none) := by
  obtain ⟨t, h⟩ := unpack_eq_ok h
  obtain ⟨_, s₁, h₁, h⟩ := bind_eq_ok.1 h
  obtain ⟨_, s₂, h₂, h⟩ := bind_eq_ok.1 h
  obtain ⟨_, s₃, h₃, h⟩ := bind_eq_ok.1 h
  obtain ⟨_, s₄, h₄, h⟩ := bind_eq_ok.1 h
  obtain ⟨_, s₅, h₅, h⟩ := bind_eq_ok.1 h
  obtain ⟨attempt, s₆, h₆, h⟩ := bind_eq_ok.1 h
  obtain ⟨generation, s₇, h₇, h⟩ := bind_eq_ok.1 h
  obtain ⟨_, s₈, h₈, h⟩ := bind_eq_ok.1 h
  obtain ⟨digest, s₉, h₉, h⟩ := bind_eq_ok.1 h
  obtain ⟨_, s₁₀, h₁₀, h⟩ := bind_eq_ok.1 h
  obtain ⟨rfl, rfl⟩ := Prod.mk.inj (Except.ok.inj h)
  obtain ⟨found, -, htook₁⟩ := took_boolByte h₁
  obtain ⟨_, hattempt, htook₆⟩ := took_written took_id h₆
  obtain ⟨_, hgeneration, htook₇⟩ := took_written took_gen h₇
  obtain ⟨_, hdigest, htook₉⟩ := took_written took_getDigest h₉
  obtain ⟨xs, hlength, hfront⟩ : ∃ xs : ByteString, xs.length = 34 ∧ Took xs { data := b } s₅ := by
    refine ⟨_, ?_, htook₁.trans <| (took_id h₂).trans <|
      (took_enum ExecutionState.code_of_ofCode? h₃).trans <| (took_gen h₄).trans (took_gen h₅)⟩
    simp [ByteWriter.u8]
  have hmiddle := hfront.trans htook₆
  have hback := hmiddle.trans htook₇
  rw [← hlength, optionEnd_at ByteWriter.length_id hfront htook₆ hattempt,
    optionEnd_at ByteWriter.length_gen hmiddle htook₇ hgeneration]
  refine ⟨unset_at hfront htook₆ hattempt, unset_at hmiddle htook₇ hgeneration, ?_⟩
  have hdigestAt := unset_at (hback.trans (took_u64 h₈)) htook₉ hdigest
  rwa [List.length_append, ByteWriter.length_u64] at hdigestAt

/-! ### Every unpack function -/

/-- The unpack functions of the protocol. -/
inductive Unpacker
  | hello | welcome | registerAck | submit | submitAck | dispatch | dispatchAck | workerDispatch
  | start | complete | completeAck | decision | cancel | ackPreempt | markResumable | resume
  | workerLost | query | queryResponse
  deriving DecidableEq

namespace Unpacker

/-- The message that is filled in. -/
abbrev Target : Unpacker → Type
  | hello => HelloPayload
  | welcome => WelcomePayload
  | registerAck => RegisterAckPayload
  | submit => SubmitPayload
  | submitAck => SubmitAckPayload
  | dispatch => DispatchRequestPayload
  | dispatchAck => DispatchAckPayload
  | workerDispatch => WorkerDispatchPayload
  | start => StartTicket
  | complete => CompletePayload
  | completeAck => CompleteAckPayload
  | decision => Decision
  | cancel => ControlRequest
  | ackPreempt => ExecutionPayload
  | markResumable => ExecutionPayload
  | resume => ResumeRequestPayload
  | workerLost => WorkerLostPayload
  | query => ExecutionId
  | queryResponse => QueryResponsePayload

/-- Unpack into a message that is there already. -/
def into : (u : Unpacker) → u.Target → ByteString → Except ByteString u.Target
  | hello => unpackHelloInto
  | welcome => unpackWelcomeInto
  | registerAck => unpackRegisterAckInto
  | submit => unpackSubmitInto
  | submitAck => unpackSubmitAckInto
  | dispatch => unpackDispatchInto
  | dispatchAck => unpackDispatchAckInto
  | workerDispatch => unpackWorkerDispatchInto
  | start => unpackStartInto
  | complete => unpackCompleteInto
  | completeAck => unpackCompleteAckInto
  | decision => unpackDecisionInto
  | cancel => unpackCancelInto
  | ackPreempt => unpackAckPreemptInto
  | markResumable => unpackMarkResumableInto
  | resume => unpackResumeInto
  | workerLost => unpackWorkerLostInto
  | query => unpackQueryInto
  | queryResponse => unpackQueryResponseInto

/-- Unpack into a message that nothing was written to. -/
def fresh : (u : Unpacker) → ByteString → Except ByteString u.Target
  | hello => unpackHello
  | welcome => unpackWelcome
  | registerAck => unpackRegisterAck
  | submit => unpackSubmit
  | submitAck => unpackSubmitAck
  | dispatch => unpackDispatch
  | dispatchAck => unpackDispatchAck
  | workerDispatch => unpackWorkerDispatch
  | start => unpackStart
  | complete => unpackComplete
  | completeAck => unpackCompleteAck
  | decision => unpackDecision
  | cancel => unpackCancel
  | ackPreempt => unpackAckPreempt
  | markResumable => unpackMarkResumable
  | resume => unpackResume
  | workerLost => unpackWorkerLost
  | query => unpackQuery
  | queryResponse => unpackQueryResponse

/-- What is left of the target. -/
def onto : (u : Unpacker) → u.Target → u.Target → u.Target
  | complete => CompletePayload.onto
  | completeAck => CompleteAckPayload.onto
  | decision => Decision.onto
  | cancel => ControlRequest.onto
  | queryResponse => QueryResponsePayload.onto
  | _ => fun _ q => q

/-- The messages are the same in every field that is on the wire. -/
def Agrees : (u : Unpacker) → u.Target → u.Target → Prop
  | decision => fun d e => d.code = e.code ∧ d.reason = e.reason ∧
      d.executionId = e.executionId ∧ d.executionGeneration = e.executionGeneration
  | cancel => fun req req' => req.executionId = req'.executionId ∧ req.epoch = req'.epoch ∧
      req.authorityGeneration = req'.authorityGeneration ∧
      req.cancellationGeneration = req'.cancellationGeneration ∧
      req.preemptionGeneration = req'.preemptionGeneration ∧
      req.resumeGeneration = req'.resumeGeneration
  | _ => Eq

/-- The fields whose flags are not set in the payload are absent, or nil. -/
def Clear : (u : Unpacker) → ByteString → u.Target → Prop
  | complete => fun b p => Unset b 136 → p.ticket.resultDigest = .nil
  | completeAck => fun b p => Unset b (textEnd b 1) → p.committedDigest = .nil
  | decision => fun b d => (Unset b (textEnd b 1) → d.executionId = none) ∧
      (Unset b (optionEnd b (textEnd b 1) 16) → d.executionGeneration = none)
  | queryResponse => fun b p => (Unset b 34 → p.currentAttempt = none) ∧
      (Unset b (optionEnd b 34 16) → p.currentAttemptGeneration = none) ∧
      (Unset b (optionEnd b (optionEnd b 34 16) 8 + 8) → p.committedDigest = none)
  | _ => fun _ _ => True

variable {b : ByteString}

theorem into_eq (u : Unpacker) (p : u.Target) (b : ByteString) :
    u.into p b = u.onto p <$> u.fresh b := by
  cases u with
  | complete => exact unpackCompleteInto_eq p b
  | completeAck => exact unpackCompleteAckInto_eq p b
  | decision => exact unpackDecisionInto_eq p b
  | cancel => exact unpackCancelInto_eq p b
  | queryResponse => exact unpackQueryResponseInto_eq p b
  | _ => exact (id_map (f := Except ByteString) _).symm

theorem Clear.onto_iff {u : Unpacker} {p q : u.Target} (h : u.fresh b = .ok q) :
    u.Clear b (u.onto p q) ↔ u.Clear b p := by
  cases u with
  | complete =>
      have hflag := unset_complete h
      refine forall_congr' fun hunset => ?_
      show (if q.ticket.hasResult then q.ticket.resultDigest else p.ticket.resultDigest) = _ ↔ _
      rw [hflag.1 hunset, if_neg Bool.false_ne_true]
  | completeAck =>
      have hflag := unset_completeAck h
      refine forall_congr' fun hunset => ?_
      show (if q.committed then q.committedDigest else p.committedDigest) = _ ↔ _
      rw [hflag.1 hunset, if_neg Bool.false_ne_true]
  | decision =>
      obtain ⟨hid, hgeneration⟩ := unset_decision h
      refine and_congr (forall_congr' fun hunset => ?_) (forall_congr' fun hunset => ?_)
      · show q.executionId.or p.executionId = none ↔ _
        rw [hid.1 hunset, Option.none_or]
      · show q.executionGeneration.or p.executionGeneration = none ↔ _
        rw [hgeneration.1 hunset, Option.none_or]
  | queryResponse =>
      obtain ⟨hattempt, hgeneration, hdigest⟩ := unset_queryResponse h
      refine and_congr (forall_congr' fun hunset => ?_)
        (and_congr (forall_congr' fun hunset => ?_) (forall_congr' fun hunset => ?_))
      · show q.currentAttempt.or p.currentAttempt = none ↔ _
        rw [hattempt.1 hunset, Option.none_or]
      · show q.currentAttemptGeneration.or p.currentAttemptGeneration = none ↔ _
        rw [hgeneration.1 hunset, Option.none_or]
      · show q.committedDigest.or p.committedDigest = none ↔ _
        rw [hdigest.1 hunset, Option.none_or]
  | _ => exact Iff.rfl

theorem or_congr_of_absent {α : Type} {o a c : Option α} {unset : Prop} (hflag : unset ↔ o = none)
    (ha : unset → a = none) (hc : unset → c = none) : o.or a = o.or c := by
  cases o with
  | none => rw [ha (hflag.2 rfl), hc (hflag.2 rfl)]
  | some x => rfl

theorem ite_congr_of_absent {α : Type} {d a c n : α} {flag : Bool} {unset : Prop}
    (hflag : unset ↔ flag = false) (ha : unset → a = n) (hc : unset → c = n) :
    (if flag then d else a) = if flag then d else c := by
  cases flag with
  | false => rw [ha (hflag.2 rfl), hc (hflag.2 rfl)]
  | true => rfl

/-- Two clear targets end up the same. -/
theorem Agrees.of_clear {u : Unpacker} {p₁ p₂ q : u.Target} (h : u.fresh b = .ok q)
    (h₁ : u.Clear b p₁) (h₂ : u.Clear b p₂) : u.Agrees (u.onto p₁ q) (u.onto p₂ q) := by
  cases u with
  | complete =>
      show CompletePayload.onto p₁ q = CompletePayload.onto p₂ q
      unfold CompletePayload.onto CompletionTicket.onto
      rw [ite_congr_of_absent (unset_complete h) h₁ h₂]
  | completeAck =>
      show CompleteAckPayload.onto p₁ q = CompleteAckPayload.onto p₂ q
      unfold CompleteAckPayload.onto
      rw [ite_congr_of_absent (unset_completeAck h) h₁ h₂]
  | decision =>
      obtain ⟨hid, hgeneration⟩ := unset_decision h
      exact ⟨rfl, rfl, or_congr_of_absent hid h₁.1 h₂.1,
        or_congr_of_absent hgeneration h₁.2 h₂.2⟩
  | cancel => exact ⟨rfl, rfl, rfl, rfl, rfl, rfl⟩
  | queryResponse =>
      obtain ⟨hattempt, hgeneration, hdigest⟩ := unset_queryResponse h
      show QueryResponsePayload.onto p₁ q = QueryResponsePayload.onto p₂ q
      unfold QueryResponsePayload.onto
      rw [or_congr_of_absent hattempt h₁.1 h₂.1, or_congr_of_absent hgeneration h₁.2.1 h₂.2.1,
        or_congr_of_absent hdigest h₁.2.2 h₂.2.2]
  | _ => exact rfl

/-- The previous contents do not show. What unpacks into the one target unpacks
into the other, the two messages agree, and what the payload leaves out is
absent in both. -/
def Forgets (u : Unpacker) (b : ByteString) (p₁ p₂ : u.Target) : Prop :=
  ∀ q₁, u.into p₁ b = .ok q₁ →
    ∃ q₂, u.into p₂ b = .ok q₂ ∧ u.Agrees q₁ q₂ ∧ u.Clear b q₁ ∧ u.Clear b q₂

/-- The payload is well formed. -/
def Accepts (u : Unpacker) (b : ByteString) : Prop := ∃ q, u.fresh b = .ok q

theorem into_of_fresh {u : Unpacker} {q : u.Target} (p : u.Target) (h : u.fresh b = .ok q) :
    u.into p b = .ok (u.onto p q) := by
  rw [into_eq, h]
  rfl

theorem fresh_of_into {u : Unpacker} {p q : u.Target} (h : u.into p b = .ok q) :
    ∃ r, u.fresh b = .ok r ∧ q = u.onto p r := by
  rw [into_eq] at h
  cases hfresh : u.fresh b with
  | error e =>
      rw [hfresh] at h
      cases h
  | ok r =>
      rw [hfresh] at h
      exact ⟨r, rfl, (Except.ok.inj h).symm⟩

end Unpacker

/-- The previous contents do not show in what a payload unpacks to exactly if
they held nothing in the optional fields that the payload leaves out. -/
theorem forgets_iff (u : Unpacker) (b : ByteString) (p₁ p₂ : u.Target) :
    u.Forgets b p₁ p₂ ↔ (u.Accepts b → u.Clear b p₁ ∧ u.Clear b p₂) := by
  constructor
  · rintro h ⟨q, hq⟩
    obtain ⟨q₂, h₂, -, hclear₁, hclear₂⟩ := h _ (Unpacker.into_of_fresh p₁ hq)
    obtain rfl := Except.ok.inj (h₂.symm.trans (Unpacker.into_of_fresh p₂ hq))
    exact ⟨(Unpacker.Clear.onto_iff hq).1 hclear₁, (Unpacker.Clear.onto_iff hq).1 hclear₂⟩
  · rintro h q₁ h₁
    obtain ⟨q, hq, rfl⟩ := Unpacker.fresh_of_into h₁
    obtain ⟨hclear₁, hclear₂⟩ := h ⟨q, hq⟩
    exact ⟨_, Unpacker.into_of_fresh p₂ hq, .of_clear hq hclear₁ hclear₂,
      (Unpacker.Clear.onto_iff hq).2 hclear₁, (Unpacker.Clear.onto_iff hq).2 hclear₂⟩

/-- A decision that names no execution, unpacked where there was one that did. -/
theorem decision_remembers :
    ¬Unpacker.decision.Forgets (packDecision { code := .defer }) {} { executionId := some .nil } := by
  intro h
  obtain ⟨q₂, h₂, -, -, hclear⟩ := h { code := .defer } rfl
  obtain rfl := Except.ok.inj h₂
  exact nomatch hclear.1 rfl

end ExecutionFabric
