import ExecutionFabric.Fabric

/-!
What a controller sees of the fabric.

Whatever the other programs do, a connection on which a controller speaks is
served one frame at a time, and nothing is sent on it but the answers
(`Process.sentOn_served`). Since the controller waits for each of them, the n-th
thing it is told is the answer to the n-th thing it said (`calls_exact`), even
though no frame says which one it answers. So a call that returns has been one
turn of the coordinator, and what it returned is what this turn replied; in
particular, what a `QUERY` tells was computed by a worker (`told_computed`).
-/

namespace ExecutionFabric

open Collections Reading StepMachine

/-- The frame that was handled. -/
def Handled.question (y : Handled) : DecodedFrame := ⟨y.entry.type, y.entry.payload⟩

/-- What was sent on a connection when it was handled. -/
def Handled.answers (unset : UInt8) (c : ℕ) (y : Handled) : List DecodedFrame :=
  (y.turn.sent.filter fun m => m.conn = c).map (Sent.frame unset)

namespace Process

/-- What was received on a connection and handled, in order. -/
def served (c : ℕ) (h : List (Event × Option Handled)) : List Handled :=
  h.flatMap fun x => x.2.toList.filter fun y => y.entry.conn = c ∧ y.entry.producer = .receiver

/-- The same, as questions and answers. -/
def dialogue (unset : UInt8) (c : ℕ) (h : List (Event × Option Handled)) :
    List (DecodedFrame × List DecodedFrame) :=
  (served c h).map fun y => (y.question, y.answers unset c)

section

variable {p : Process} {c : ℕ} {unset : UInt8} {evs : List Event} {ev : Event} {y : Handled}
  {h : List (Event × Option Handled)}

theorem served_snoc (c : ℕ) (h : List (Event × Option Handled)) (ev : Event)
    (out : Option Handled) :
    served c (h ++ [(ev, out)]) = served c h ++
      out.toList.filter fun y => y.entry.conn = c ∧ y.entry.producer = .receiver := by
  simp [served]

theorem served_entries (c : ℕ) (h : List (Event × Option Handled)) :
    (served c h).map Handled.entry =
      (handledFrom c h).filter fun i => i.producer = .receiver := by
  induction h using List.reverseRecOn with
  | nil => rfl
  | append_singleton h x ih =>
      obtain ⟨ev, out⟩ := x
      rw [served_snoc, handledFrom_snoc, List.map_append, List.filter_append, ih]
      cases out with
      | none => rfl
      | some y =>
          by_cases hconn : y.entry.conn = c <;> by_cases hproducer : y.entry.producer = .receiver <;>
            simp [ofConn, hconn, hproducer]

/-- Of the frames received on a connection the first were handled, the others wait. -/
theorem served_received (hnone : p.queue = []) :
    (served c (process.trace p evs)).map Handled.question ++
        ((ofConn c (process.run p evs).queue).filter fun i => i.producer = .receiver).map
          (fun i => (⟨i.type, i.payload⟩ : DecodedFrame)) =
      receivedOn c p evs := by
  have hall := handledFrom_arrivals c p evs
  rw [hnone, show ofConn c [] = [] from rfl, List.nil_append] at hall
  rw [receivedOn, ← hall, List.filter_append, List.map_append, ← served_entries, List.map_map]
  rfl

/-- When a frame was handled, those handled before it and this one had been
received. -/
theorem served_upon (hnone : p.queue = []) {before : List Handled}
    (h : before ++ [y] <+: served c (process.trace p evs)) :
    ∃ earlier ev, earlier ++ [ev] <+: evs ∧ served c (process.trace p earlier) = before ∧
      process.out (process.run p earlier) ev = some y ∧
      (before ++ [y]).map Handled.question <+: receivedOn c p earlier := by
  induction evs using List.reverseRecOn with
  | nil => exact absurd (List.prefix_nil.1 h) (by simp)
  | append_singleton evs ev ih =>
      rw [Machine.trace_append] at h
      change _ <+: served c (process.trace p evs ++ [(ev, process.out (process.run p evs) ev)]) at h
      have hold : before ++ [y] <+: served c (process.trace p evs) →
          ∃ earlier ev', earlier ++ [ev'] <+: evs ++ [ev] ∧
            served c (process.trace p earlier) = before ∧
            process.out (process.run p earlier) ev' = some y ∧
            (before ++ [y]).map Handled.question <+: receivedOn c p earlier := by
        intro h
        obtain ⟨earlier, ev', hearlier, hrest⟩ := ih h
        exact ⟨earlier, ev', hearlier.trans (List.prefix_append _ _), hrest⟩
      rw [served_snoc] at h
      cases hout : process.out (process.run p evs) ev with
      | none =>
          rw [hout] at h
          exact hold (by simpa using h)
      | some x =>
          rw [hout] at h
          by_cases hx : x.entry.conn = c ∧ x.entry.producer = .receiver
          · have hone : (some x).toList.filter (fun y => decide (y.entry.conn = c ∧
                y.entry.producer = .receiver)) = [x] := by simp [hx]
            rw [hone] at h
            rcases List.prefix_concat_iff.1 h with heq | h
            · obtain ⟨rfl, hxy⟩ := List.append_inj' heq rfl
              obtain rfl := List.singleton_inj.1 hxy
              refine ⟨evs, ev, List.prefix_rfl, rfl, hout, ?_⟩
              obtain ⟨amb, order, rest, -, hqueue, -, -⟩ := out_some hout
              rw [← served_received hnone, hqueue, List.map_append]
              refine (List.prefix_append_right_inj _).2 ?_
              simp only [ofConn, List.filter_cons, hx.1, hx.2, decide_true, if_true, List.map_cons]
              exact List.cons_prefix_cons.2 ⟨rfl, List.nil_prefix⟩
            · exact hold h
          · exact hold (by simpa [hx] using h)

/-- What a turn sends, a ticket apart, is the reply to its entry. -/
theorem turn_sent (halive : p.coordinator.alive = true) {i : Inbound} {amb : Ambient}
    {order : List ℕ} {m : Sent} (hm : m ∈ (p.turn i amb order).sent)
    (htype : m.type ≠ .workerDispatch) :
    m.conn = i.conn ∧ replyTo i.type i.payload = some m.type := by
  have hpairs := (Turn.decide_replies halive i.conn i.type i.payload amb order).1
  have hmem : (m.conn, m.type) ∈ (p.turn i amb order).replies.map fun m => (m.conn, m.type) :=
    List.mem_map_of_mem (List.mem_filter.2 ⟨hm, decide_eq_true htype⟩)
  rw [turn, hpairs] at hmem
  split at hmem
  · obtain ⟨r, hr, heq⟩ := List.mem_map.1 hmem
    obtain ⟨hconn, rfl⟩ := Prod.mk.inj heq
    exact ⟨hconn.symm, Option.mem_toList.1 hr⟩
  · cases hmem

/-- Where no ticket is sent on a connection, a turn sends at most one frame on it. -/
theorem turn_once (halive : p.coordinator.alive = true) (i : Inbound) (amb : Ambient)
    (order : List ℕ) (hquiet : ∀ m ∈ (p.turn i amb order).sent, m.conn = c →
      m.type ≠ .workerDispatch) :
    ((p.turn i amb order).sent.filter fun m => m.conn = c).length ≤ 1 := by
  have hreplies : ((p.turn i amb order).sent.filter fun m => m.conn = c) =
      (p.turn i amb order).replies.filter fun m => m.conn = c := by
    rw [Turn.replies, List.filter_filter]
    refine List.filter_congr fun m hm => ?_
    by_cases hconn : m.conn = c
    · simp [hconn, hquiet m hm hconn]
    · simp [hconn]
  have hpairs := congrArg List.length
    (Turn.decide_replies halive i.conn i.type i.payload amb order).1
  rw [List.length_map] at hpairs
  rw [hreplies]
  refine (List.length_filter_le _ _).trans (hpairs.trans_le ?_)
  split
  · rw [List.length_map]
    cases replyTo i.type i.payload with
    | none => exact Nat.zero_le 1
    | some r => exact Nat.le_refl 1
  · exact Nat.zero_le 1

/-- What the decision thread takes and is no marker or wake-up was received. -/
theorem receiver_of_queue {persistent : Bool} {file : Option ByteString} {e₀ : CoordinatorEpoch}
    {i : Inbound} (hi : i ∈ (process.run (start persistent file e₀) evs).queue)
    (htype : i.type ≠ .shutdown) : i.producer = .receiver := by
  have hall := queue_arrivals (start persistent file e₀) evs
  rw [show (start persistent file e₀).queue = [] from rfl, List.nil_append] at hall
  have harrived : i ∈ (start persistent file e₀).arrivals evs :=
    hall ▸ List.mem_append_right _ hi
  obtain ⟨js, ev, -, hpushed⟩ := Machine.exists_of_mem_collect harrived
  exact received_of_pushed hpushed htype

/-- No ticket is sent on a connection. -/
def Quiet (c : ℕ) (h : List (Event × Option Handled)) : Prop :=
  ∀ x ∈ h, ∀ y ∈ x.2, ∀ m ∈ y.turn.sent, m.conn = c → m.type ≠ .workerDispatch

section

variable {persistent : Bool} {file : Option ByteString} {e₀ : CoordinatorEpoch}

/-- Where no ticket is sent, nothing is sent but the answers. -/
theorem sentOn_served (hquiet : Quiet c (process.trace (start persistent file e₀) evs)) :
    sentOn unset c (process.trace (start persistent file e₀) evs) =
      Dialogue.answers (dialogue unset c (process.trace (start persistent file e₀) evs)) := by
  rw [Dialogue.answers, dialogue, List.flatMap_map, served, List.flatMap_assoc]
  refine List.flatMap_congr fun x hx => ?_
  obtain ⟨ev, out⟩ := x
  cases out with
  | none => rfl
  | some y =>
      have hanswers : (some y).toList.flatMap (fun y =>
          (y.turn.sent.filter fun m => m.conn = c).map (Sent.frame unset)) = y.answers unset c := by
        simp [Handled.answers]
      dsimp only
      rw [hanswers]
      by_cases hserved : y.entry.conn = c ∧ y.entry.producer = .receiver
      · simp [hserved]
      · -- the turn of another connection, or of a marker
        have hnone : y.answers unset c = [] := by
          obtain ⟨before, hbefore, hout⟩ := Machine.exists_of_mem_trace hx
          obtain ⟨amb, order, rest, -, hqueue, htaken, hturn⟩ := out_some hout.symm
          rw [Handled.answers, List.map_eq_nil_iff, List.filter_eq_nil_iff]
          intro m hm hconn
          have hconn' : m.conn = c := of_decide_eq_true hconn
          obtain ⟨hsame, hreply⟩ := turn_sent (alive_of_taken htaken) (hturn ▸ hm)
            (hquiet _ hx y rfl m hm hconn')
          have hwaited : y.entry ∈ (process.run (start persistent file e₀) before).queue :=
            hqueue ▸ List.mem_cons_self
          refine hserved ⟨hsame.symm.trans hconn', receiver_of_queue hwaited ?_⟩
          intro hshutdown
          rw [hshutdown] at hreply
          cases hreply
        simp [hserved, hnone]

theorem quiet_mono {before : List Event} (hbefore : before <+: evs) {q : Process}
    (hquiet : Quiet c (process.trace q evs)) : Quiet c (process.trace q before) := by
  obtain ⟨after, rfl⟩ := hbefore
  rw [Machine.trace_append] at hquiet
  exact fun x hx => hquiet x (List.mem_append_left _ hx)

/-- A frame has one answer at most. -/
theorem dialogue_once (hquiet : Quiet c (process.trace (start persistent file e₀) evs)) :
    ∀ d ∈ dialogue unset c (process.trace (start persistent file e₀) evs), d.2.length ≤ 1 := by
  intro d hd
  obtain ⟨y, hy, rfl⟩ := List.mem_map.1 hd
  obtain ⟨x, hx, hy⟩ := List.mem_flatMap.1 hy
  have hout' := Option.mem_toList.1 (List.mem_filter.1 hy).1
  obtain ⟨before, -, hout⟩ := Machine.exists_of_mem_trace hx
  obtain ⟨amb, order, rest, -, -, htaken, hturn⟩ := out_some (hout.symm.trans hout')
  have honce := turn_once (c := c) (alive_of_taken htaken) y.entry amb order
    (hturn ▸ hquiet x hx y hout')
  rw [← hturn] at honce
  show (y.answers unset c).length ≤ 1
  rw [Handled.answers, List.length_map]
  exact honce

/-! ### The connection of a controller -/

variable {world : World} {driver : Controller.Driver} {bounded : ∀ x, (driver x).Bounded}

/-- A controller is not sent tickets, since it does not say that it is a worker. -/
theorem quiet_of_client (hwired : Wired unset world (start persistent file e₀) evs)
    (hpeer : world c = some (.client driver bounded)) :
    Quiet c (process.trace (start persistent file e₀) evs) := by
  intro x hx y hy m hm hconn htype
  have hsent : m.frame unset ∈ sentOn unset c (process.trace (start persistent file e₀) evs) := by
    refine List.mem_flatMap.2 ⟨x, hx, List.mem_flatMap.2 ⟨y, Option.mem_toList.2 hy, ?_⟩⟩
    exact List.mem_map_of_mem (List.mem_filter.2 ⟨hm, decide_eq_true hconn⟩)
  obtain ⟨-, -, -, before, hp, hbefore, hintroduced, hrole, -⟩ := ticket_of_sentOn hsent htype
  obtain ⟨f, hf, hhello, hunpack⟩ := received_of_introduction hintroduced
  obtain ⟨link⟩ := hwired before hbefore c _ hpeer
  obtain ⟨got, -, hsaid⟩ := link.said
  rcases Controller.mem_conversation (hsaid.subset hf) with rfl | ⟨r, rfl⟩
  · obtain rfl := Except.ok.inj (Controller.unpack_hello.symm.trans hunpack)
    exact absurd hrole (by decide)
  · cases r <;> cases hhello

/-- The questions on the connection of a controller, with their answers. -/
theorem kept (hwired : Wired unset world (start persistent file e₀) evs)
    (hpeer : world c = some (.client driver bounded)) :
    Dialogue.Kept (Controller.conversation driver)
      (dialogue unset c (process.trace (start persistent file e₀) evs)) where
  once := dialogue_once (quiet_of_client hwired hpeer)
  upon before d hbefore := by
    obtain ⟨ys, hys, hserved⟩ : ∃ ys, ys <+: served c (process.trace (start persistent file e₀) evs) ∧
        ys.map (fun y : Handled => (y.question, y.answers unset c)) = before ++ [d] := by
      refine ⟨_, List.take_prefix (before ++ [d]).length _, ?_⟩
      rw [List.map_take]
      exact (List.prefix_iff_eq_take.1 hbefore).symm
    obtain ⟨ys, rest, rfl, rfl, hd⟩ := List.map_eq_append_iff.1 hserved
    obtain ⟨y, rfl, rfl⟩ := List.map_eq_singleton_iff.1 hd
    obtain ⟨earlier, ev, hearlier, rfl, -, hreceived⟩ := served_upon rfl hys
    have hprefix := (List.prefix_append earlier [ev]).trans hearlier
    obtain ⟨link⟩ := hwired earlier hprefix c _ hpeer
    obtain ⟨got, hgot, hsaid⟩ := link.said
    rw [sentOn_served (quiet_mono hprefix (quiet_of_client hwired hpeer))] at hgot
    refine ⟨got, hgot, ?_⟩
    rw [List.map_append, List.map_map]
    rw [List.map_append] at hreceived
    exact hreceived.trans hsaid

/-- A call that returned something: the frame that was served for it, and what it
was answered with. -/
theorem call_served (hwired : Wired unset world (start persistent file e₀) evs)
    (hpeer : world c = some (.client driver bounded))
    (l : Link (.client driver bounded)
      (sentOn unset c (process.trace (start persistent file e₀) evs))
      (receivedOn c (start persistent file e₀) evs))
    {n : ℕ} {x : Controller.Called} {v : x.request.Reply}
    (hx : (Controller.clientMain driver (.ok l.conn)).1[n]? = some x) (hv : x.result = .ok v) :
    ∃ y g, (served c (process.trace (start persistent file e₀) evs))[n + 1]? = some y ∧
      y.question = x.request.frame ∧ y.answers unset c = [g] ∧
      x.request.unpacker.into x.out g.payload = .ok v := by
  obtain ⟨heard, failed, hheard, hcalls, hfailed⟩ :=
    (Controller.clientMain_wrote driver l.good').told
  have hsent := (receiveAll_of_arrived l.size l.good l.down).trans (sendFrames_written _ l.good).1
  have hall := hheard.trans hsent
  rw [sentOn_served (quiet_of_client hwired hpeer)] at hall
  -- the call is one of those that were told something
  have htold : (Controller.results driver heard)[n]? = some x := by
    rw [hcalls] at hx
    by_cases hn : n < (Controller.results driver heard).length
    · rwa [List.getElem?_append_left hn] at hx
    · rw [List.getElem?_append_right (Nat.not_lt.1 hn)] at hx
      obtain ⟨e, he⟩ := hfailed x (List.mem_of_getElem? hx)
      rw [hv] at he
      cases he
  cases heard with
  | nil => cases htold
  | cons f heard =>
      obtain ⟨hsends, g, hg, hresult⟩ := Controller.Script.hears_sends htold
      have hkept := kept hwired hpeer
      have hwaits := Controller.waits driver
      have hanswer : (Dialogue.answers (dialogue unset c
          (process.trace (start persistent file e₀) evs)))[n + 1]? = some g := by
        obtain ⟨more, hmore⟩ := hall
        rw [← hmore, List.getElem?_append_left]
        · exact hg
        · exact Nat.succ_lt_succ (List.getElem?_eq_some_iff.1 hg).1
      obtain ⟨a, hd, ha⟩ := hkept.answer hwaits hanswer
      have hasked : (Controller.conversation driver (Dialogue.answers (dialogue unset c
          (process.trace (start persistent file e₀) evs))))[n + 1]? = some x.request.frame := by
        obtain ⟨more, hmore⟩ := hwaits.grows hall
        rw [← hmore, List.getElem?_append_left]
        · exact hsends
        · exact Nat.succ_lt_succ (List.getElem?_eq_some_iff.1 hsends).1
      obtain rfl := Option.some.inj (ha.symm.trans hasked)
      rw [dialogue, List.getElem?_map] at hd
      obtain ⟨y, hy, hyd⟩ := Option.map_eq_some_iff.1 hd
      obtain ⟨hquestion, hanswers⟩ := Prod.mk.inj hyd
      exact ⟨y, g, hy, hquestion, hanswers, hresult.symm.trans hv⟩

/-- The turn in which a frame was served. -/
theorem turn_of_served (hy : y ∈ served c (process.trace (start persistent file e₀) evs)) :
    ∃ before ev amb order, before ++ [ev] <+: evs ∧
      process.out (process.run (start persistent file e₀) before) ev = some y ∧
      (process.run (start persistent file e₀) before).coordinator.alive = true ∧
      y.entry.conn = c ∧
      y.turn = (process.run (start persistent file e₀) before).turn y.entry amb order := by
  obtain ⟨x, hx, hy⟩ := List.mem_flatMap.1 hy
  obtain ⟨hout', hentry⟩ := List.mem_filter.1 hy
  obtain ⟨before, hbefore, hout⟩ := Machine.exists_of_mem_trace hx
  have hout := hout.symm.trans (Option.mem_toList.1 hout')
  obtain ⟨amb, order, rest, -, -, htaken, hturn⟩ := out_some hout
  exact ⟨before, _, amb, order, hbefore, hout, alive_of_taken htaken,
    (of_decide_eq_true hentry).1, hturn⟩

end

end

end Process

/-- The reply to a call has the type that is meant for it. -/
theorem Controller.Request.replyTo_frame {r : Request} {type : MsgType}
    (h : replyTo r.frame.type r.frame.payload = some type) : type = r.replyType := by
  cases r <;> simp only [frame, replyTo, Option.map_eq_some_iff] at h <;>
    obtain ⟨_, -, rfl⟩ := h <;> rfl

/-- What arrives of the answer to a `QUERY`; the state of an execution that was not
found is whatever byte was there. -/
theorem queryResponse_arrives {unset : UInt8} {p q : QueryResponsePayload}
    (h : unpackQueryResponse (packQueryResponse unset p) = .ok q)
    (hdetail : p.detail.length ≤ ByteReader.maxString) :
    q.committedDigest = p.committedDigest := by
  have hfill : ∃ st, putState unset p.state = putState unset (some st) := by
    cases hstate : p.state with
    | some st => exact ⟨st, rfl⟩
    | none =>
        -- the byte was read as a state
        obtain ⟨t, h⟩ := unpack_eq_ok h
        obtain ⟨_, s₁, h₁, h⟩ := bind_eq_ok.1 h
        obtain ⟨id, s₂, h₂, h⟩ := bind_eq_ok.1 h
        obtain ⟨st, s₃, h₃, h⟩ := bind_eq_ok.1 h
        obtain ⟨flag, -, htook₁⟩ := took_boolByte h₁
        have htook := (htook₁.trans (took_id h₂)).trans
          (took_enum ExecutionState.code_of_ofCode? h₃)
        obtain ⟨tail, htail⟩ : ∃ tail, packQueryResponse unset p =
            (ByteWriter.boolByte p.found ++ ByteWriter.id p.executionId) ++ unset :: tail := by
          unfold packQueryResponse
          rw [hstate]
          simp only [List.append_assoc]
          exact ⟨_, rfl⟩
        have hread : packQueryResponse unset p =
            (ByteWriter.u8 flag ++ ByteWriter.id id) ++ st.code :: s₃.rest := by
          refine Eq.trans (show _ = _ from htook) ?_
          rw [List.append_assoc]
          rfl
        have hcodes := (List.append_inj (htail.symm.trans hread)
          (by simp [ByteWriter.boolByte, ByteWriter.u8])).2
        refine ⟨st, ?_⟩
        rw [putState, putState]
        exact congrArg ByteWriter.u8 (List.cons.inj hcodes).1
  obtain ⟨st, hst⟩ := hfill
  have hcount : (p.attemptCount % 2 ^ 64).toUInt64 = p.attemptCount.toUInt64 :=
    UInt64.ofNat_mod_size
  let r : QueryResponsePayload :=
    { p with state := some st, attemptCount := p.attemptCount % 2 ^ 64 }
  have hsame : packQueryResponse unset p = packQueryResponse unset r := by
    unfold packQueryResponse
    rw [hst, ← hcount]
  have hcarried := carries_queryResponse (p := r) rfl (Nat.mod_lt _ (by decide)) hdetail unset
  rw [hsame, hcarried.whole] at h
  rw [← Except.ok.inj h]

/-- The answer to a `QUERY` tells the register of the execution. -/
theorem Turn.mem_query {k : Coordinator} {conn : ℕ} {id : ExecutionId} {amb : Ambient}
    {order : List ℕ} {m : Sent}
    (hm : m ∈ (Turn.decide { coordinator := k } conn .query (packQuery id) amb order).sent) :
    ∃ qr, m.message = .queryResponse qr ∧ qr.committedDigest = k.engine.ledger id ∧
      qr.detail.length ≤ ByteReader.maxString := by
  have hturn : Turn.decide { coordinator := k } conn .query (packQuery id) amb order =
      Turn.onQuery { coordinator := k } conn id := by
    simp [Turn.decide, Turn.handleFrame, Turn.given, (carries_query id).whole]
  rw [hturn, Turn.onQuery] at hm
  have hstates : ∀ st : ExecutionState,
      (text "state=" ++ st.toText).length ≤ ByteReader.maxString := by
    intro st
    cases st <;> decide +kernel
  have hnone : (text "not found").length ≤ ByteReader.maxString := by decide +kernel
  rcases Turn.mem_send _ _ _ _ hm with hm | rfl
  · exact absurd hm List.not_mem_nil
  · rw [ExecutionEngine.ledger]
    dsimp only
    cases k.engine.find id with
    | none => exact ⟨_, rfl, rfl, hnone⟩
    | some r => exact ⟨_, rfl, rfl, hstates r.state⟩

namespace Sample

open Controller

/-- Submit an execution, have it dispatched, and ask for it. -/
def drives : Driver := fun _ =>
  .call (.submit execution ⟨1⟩) { accepted := false, executionId := .nil, reason := [] }
    fun _ => .call (.dispatch execution worker boot ⟨1⟩)
      { accepted := false, decision := .defer, reason := [] }
      fun _ => .call (.query execution) { executionId := .nil, detail := [] } fun _ => .done

theorem drives_bounded : ∀ x, (drives x).Bounded := by
  refine fun _ => ⟨?_, fun _ => ⟨?_, fun _ => ⟨?_, fun _ => trivial⟩⟩⟩ <;> decide +kernel

/-- The worker and the controller connect; what the controller has submitted and
dispatched is started and completed, and then it asks. -/
def driving : List Process.Event :=
  accepting ++ accepting ++ receiving 1 .hello labourer.hello ++
    receiving 2 .hello Controller.hello.payload ++
    receiving 2 .submit (Request.submit execution ⟨1⟩).frame.payload ++
    [.readerChecks 2, .receives 2 .dispatch (Request.dispatch execution worker boot ⟨1⟩).frame.payload,
      .decides (ambient 10) []] ++
    receiving 1 .start (packStart assignment.ticket.start) ++
    receiving 1 .complete (packComplete (labourer.completion assignment)) ++
    receiving 2 .query (Request.query execution).frame.payload

def office : World := fun c =>
  if c = 1 then some (.worker labourer (fun _ => true) labourer_bounded)
  else if c = 2 then some (.client drives drives_bounded) else none

/-- What was sent on a connection until then can be sent, and what was received is
what the program says upon it. -/
def Spoken (peer : Peer) (c : ℕ) (before : List Process.Event) : Prop :=
  (∀ f ∈ Process.sentOn 0 c (process.trace (.start false none ⟨1⟩) before),
      f.payload.length ≤ maxPayload.toNat) ∧
    Process.receivedOn c (.start false none ⟨1⟩) before <+:
      peer.speaks (Process.sentOn 0 c (process.trace (.start false none ⟨1⟩) before))

instance (peer : Peer) (c : ℕ) (before : List Process.Event) : Decidable (Spoken peer c before) :=
  inferInstanceAs (Decidable (_ ∧ _))

theorem spoken_driving : ∀ before ∈ driving.inits,
    Spoken (.worker labourer (fun _ => true) labourer_bounded) 1 before ∧
      Spoken (.client drives drives_bounded) 2 before := by
  decide +kernel

theorem wired_driving : Process.Wired 0 office (.start false none ⟨1⟩) driving := by
  intro before hbefore c peer hpeer
  obtain ⟨hworker, hclient⟩ := spoken_driving before ((List.mem_inits _ _).2 hbefore)
  unfold office at hpeer
  split at hpeer
  · rename_i hc
    obtain rfl := Option.some.inj hpeer
    exact hc ▸ ⟨link hworker.1 hworker.2⟩
  · split at hpeer
    · rename_i hc
      obtain rfl := Option.some.inj hpeer
      exact hc ▸ ⟨link hclient.1 hclient.2⟩
    · cases hpeer

/-- The last of four frames is what the `QUERY` returns. -/
theorem queried {sent : List DecodedFrame} {f : DecodedFrame} {v : QueryResponsePayload}
    (hlength : sent.length = 4) (hf : sent[3]? = some f)
    (hv : (unpackQueryResponseInto { executionId := .nil, detail := [] } f.payload).toOption =
      some v) :
    ⟨.query execution, { executionId := .nil, detail := [] }, .ok v⟩ ∈ results drives sent := by
  match sent, hlength with
  | [f₀, f₁, f₂, f₃], _ =>
      obtain rfl := Option.some.inj hf
      have hlast : (⟨.query execution, { executionId := .nil, detail := [] }, .ok v⟩ : Called) =
          ⟨.query execution, { executionId := .nil, detail := [] },
            unpackQueryResponseInto { executionId := .nil, detail := [] } f₃.payload⟩ :=
        congrArg (Called.mk (.query execution) _) (eq_ok_of_toOption hv).symm
      rw [hlast]
      exact List.mem_cons_of_mem _ (List.mem_cons_of_mem _ List.mem_cons_self)

end Sample

end ExecutionFabric
