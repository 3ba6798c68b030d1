import ExecutionFabric.Coordinator.Sessions
import ExecutionFabric.Engine.Issuance

/-!
Which tickets are sent, and to whom.

A ticket is sent in the turn in which the engine issued it, on a connection that
the table has as one of the worker it names (`Turn.decide_tickets`). What the
table has of a connection is what the last `HELLO` handled on it said
(`Process.Introduced`). So in every interleaving a ticket goes to a connection
that announced the worker (`tickets_addressed`). That the boot need not be the
one of the ticket is known from `stale_delivery`.
-/

namespace ExecutionFabric

open Collections StepMachine

/-! ### The ticket of a request -/

/-- A decision was returned. -/
theorem Outcome.code_of_result {o : Outcome} {code : DecisionCode} (h : o.result.code = code)
    (hcode : code ≠ .unknown) : o.code? = some code := by
  unfold result at h
  unfold code?
  cases hd : o.decision with
  | none => exact absurd (h.symm.trans (by rw [hd]; rfl)) hcode
  | some d =>
      rw [hd] at h
      exact congrArg some h

section

variable {s : ExecutionEngine} {amb : Ambient} {id : ExecutionId} {worker : WorkerId}
  {boot : WorkerBootId} {e : CoordinatorEpoch}

theorem issue_of_dispatch
    (hcode : (engine.out s ⟨.dispatch id worker boot e, amb⟩).result.code = .allow) :
    ∃ T, History.issue (⟨.dispatch id worker boot e, amb⟩,
        engine.out s ⟨.dispatch id worker boot e, amb⟩) = some T ∧ T.workerId = worker ∧
      ∃ r, s.find id = some r ∧ T.executionId = r.id := by
  have hallow : (engine.out s ⟨.dispatch id worker boot e, amb⟩).allows :=
    Outcome.code_of_result hcode (by decide)
  obtain ⟨r, r', hfind, -, effect⟩ :=
    effect_of_allows (s := s) (c := ⟨.dispatch id worker boot e, amb⟩) id rfl hallow nofun nofun
  generalize (engine.next s ⟨.dispatch id worker boot e, amb⟩).epoch = e' at effect
  generalize hop : Op.dispatch id worker boot e = op at effect hallow ⊢
  generalize engine.out s ⟨op, amb⟩ = o at effect hallow ⊢
  cases effect with
  | dispatched hrec hstate gives =>
      obtain ⟨rfl, rfl, rfl, rfl⟩ := Op.dispatch.inj hop
      exact ⟨_, by rw [History.issue, if_pos hallow, gives.ticket], rfl, r, hfind, rfl⟩
  | dispatchStuck hrec hstate gives => exact absurd hallow (gives.not_allows (by decide))
  | _ => cases hop

theorem Outcome.Refuses.not_resumes {o : Outcome} (h : o.Refuses) :
    o.code? ≠ some .resumeAllowed := by
  intro hcode
  obtain ⟨d, hd, hresume⟩ := Option.map_eq_some_iff.1 hcode
  have hallowed := h.allowed
  simp [Outcome.allowed, hd, Decision.allowed, hresume] at hallowed

theorem issue_of_resume {gen : ResumeGeneration}
    (hcode : (engine.out s ⟨.resume id worker boot e gen, amb⟩).result.code = .resumeAllowed) :
    ∃ T, History.issue (⟨.resume id worker boot e gen, amb⟩,
        engine.out s ⟨.resume id worker boot e gen, amb⟩) = some T ∧ T.workerId = worker ∧
      ∃ r, s.find id = some r ∧ T.executionId = r.id := by
  have hresume := Outcome.code_of_result hcode (by decide)
  have heffects := ExecutionEngine.step_effects s (.resume id worker boot e gen) amb
  generalize hop : Op.resume id worker boot e gen = op at heffects hresume ⊢
  generalize engine.out s ⟨op, amb⟩ = o at heffects hresume ⊢
  generalize engine.next s ⟨op, amb⟩ = s' at heffects
  cases heffects with
  | refused refuses => exact absurd hresume refuses.not_resumes
  | adopted adopts refuses => exact absurd hresume refuses.not_resumes
  | repeated repeats gives => exact absurd (gives.code.symm.trans hresume) (by decide)
  | @acted _ _ _ r _ htarget hfind hcur effect =>
      generalize (s.adoptFor op).epoch = e' at effect
      cases effect with
      | resumed hrec hstate gives =>
          obtain ⟨rfl, rfl, rfl, rfl, rfl⟩ := Op.resume.inj hop
          obtain rfl := Option.some.inj htarget
          exact ⟨_, by rw [History.issue, if_pos hresume, gives.ticket], rfl, r, hfind, rfl⟩
      | _ => cases hop
  | _ => cases hop

end

/-! ### Turns -/

/-- Who is at the other end of a connection. -/
def ConnEntry.identity (entry : ConnEntry) : Bool × WorkerId × WorkerBootId :=
  (entry.isWorker, entry.workerId, entry.boot)

/-- The search finds a connection of the worker, or none. -/
theorem Coordinator.serves_workerConn {k : Coordinator} {order : List ℕ} {worker : WorkerId}
    (h : k.workerConn order worker ≠ 0) : k.serves worker (k.workerConn order worker) = true := by
  have hconn : k.workerConn order worker =
      ((order ++ sortKeys k.conns.keys).find? (k.serves worker)).getD 0 := rfl
  cases hfound : (order ++ sortKeys k.conns.keys).find? (k.serves worker) with
  | none => exact absurd (by rw [hconn, hfound]; rfl) h
  | some c =>
      rw [hconn, hfound]
      exact List.find?_some hfound

namespace Turn

/-- The turn so far, started on `k`: a ticket that it sent was issued in a call
that it made, and went to a connection of the worker; and of the connections that
are in the table it is known who they are, as before. -/
structure Tickets (k : Coordinator) (t : Turn) : Prop where
  issued : ∀ m ∈ t.sent, m.type = .workerDispatch → ∃ p : WorkerDispatchPayload,
    m.message = .workerDispatch p ∧ (∃ ev ∈ t.calls, History.issue ev = some p.ticket) ∧
      k.serves p.ticket.workerId m.conn = true
  known : ∀ c entry, t.coordinator.conns.lookup c = some entry →
    (k.conns.lookup c).map (·.identity) = some entry.identity

section

variable {k : Coordinator} {t : Turn}

theorem Tickets.start (k : Coordinator) : Tickets k { coordinator := k } where
  issued := fun _ hm => absurd hm List.not_mem_nil
  known := fun c entry hentry => by rw [hentry]; rfl

theorem Tickets.call (h : Tickets k t) (c : Call) : Tickets k (t.call c) where
  issued := fun m hm htype => by
    obtain ⟨p, hp, ⟨ev, hev, hissue⟩, hserves⟩ := h.issued m hm htype
    exact ⟨p, hp, ⟨ev, List.mem_append_left _ hev, hissue⟩, hserves⟩
  known := h.known

theorem Tickets.crash (h : Tickets k t) : Tickets k t.crash := ⟨h.issued, h.known⟩

theorem Tickets.persist (h : Tickets k t) : Tickets k t.persist where
  issued := by
    rw [persist_sent, persist_calls]
    exact h.issued
  known := by
    rw [(persist_frame t).2]
    exact h.known

theorem Tickets.send (h : Tickets k t) (conn : ℕ) {type : MsgType} (message : Message)
    (hm : type = .workerDispatch → ∃ p : WorkerDispatchPayload, message = .workerDispatch p ∧
      (∃ ev ∈ t.calls, History.issue ev = some p.ticket) ∧
        k.serves p.ticket.workerId conn = true) :
    Tickets k (t.send conn type message) where
  issued := by
    intro m hsent htype
    rw [send_calls]
    rcases mem_send _ _ _ _ hsent with hold | rfl
    · exact h.issued m hold htype
    · exact hm htype
  known := by
    rw [send_coordinator]
    exact h.known

/-- Other messages carry no tickets. -/
theorem Tickets.reply (h : Tickets k t) (conn : ℕ) {type : MsgType} (htype : type ≠ .workerDispatch)
    (message : Message) : Tickets k (t.send conn type message) :=
  h.send conn message fun heq => absurd heq htype

theorem Tickets.note (h : Tickets k t) {c : ℕ}
    (hc : (t.coordinator.conns.lookup c).isSome = true) {f : ConnEntry → ConnEntry}
    (hf : ∀ entry, (f entry).identity = entry.identity) : Tickets k (t.modifyConn c f) where
  issued := h.issued
  known := by
    obtain ⟨old, hold⟩ := Option.isSome_iff_exists.1 hc
    intro d entry hentry
    by_cases hd : d = c
    · subst hd
      simp only [modifyConn, Finmap.lookup_insert, hold, Option.getD_some] at hentry
      rw [h.known d old hold, ← Option.some.inj hentry, hf]
    · rw [modifyConn, Finmap.lookup_insert_of_ne _ hd] at hentry
      exact h.known d entry hentry

theorem Tickets.assign (h : Tickets k t) {worker : ℕ} {T : DispatchTicket}
    (hissued : ∃ ev ∈ t.calls, History.issue ev = some T)
    (hserves : k.serves T.workerId worker = true) : Tickets k (t.assign worker T) := by
  unfold Turn.assign
  refine Tickets.persist (Tickets.send ?_ worker _ fun _ => ⟨_, rfl, ?_, hserves⟩)
  · split
    · rename_i hfound
      exact h.note hfound fun _ => rfl
    · exact h
  · split <;> exact hissued

theorem Tickets.given {α : Type} (h : Tickets k t) {unpacked : Except ByteString α}
    {handle : α → Turn} (hhandle : ∀ p, Tickets k (handle p)) :
    Tickets k (t.given unpacked handle) := by
  cases unpacked with
  | error _ => exact h
  | ok p => exact hhandle p

/-! ### The branches -/

theorem Tickets.onControl (h : Tickets k t) (conn : ℕ) (amb : Ambient) (op : Op) {reply : MsgType}
    (hreply : reply ≠ .workerDispatch) : Tickets k (t.onControl conn amb op reply) :=
  (h.call _).persist.reply conn hreply _

theorem Tickets.onSubmit (h : Tickets k t) (conn : ℕ) (amb : Ambient) (sp : SubmitPayload) :
    Tickets k (t.onSubmit conn amb sp) := by
  unfold Turn.onSubmit
  dsimp only
  split
  · split
    · exact ((h.call _).call _).crash
    · exact ((h.call _).call _).persist.reply conn (by decide) _
  · exact (h.call _).persist.reply conn (by decide) _

theorem Tickets.onDispatch (k : Coordinator) (conn : ℕ) (amb : Ambient) (order : List ℕ)
    (dp : DispatchRequestPayload) :
    Tickets k (Turn.onDispatch { coordinator := k } conn amb order dp) := by
  have h := Tickets.start k
  unfold Turn.onDispatch
  dsimp only
  split
  · exact h.reply conn (by decide) _
  · rename_i hworker
    split
    · exact (h.call _).crash
    · split
      · rename_i hcode
        obtain ⟨T, hissue, hT, -⟩ := issue_of_dispatch hcode
        have hticket := History.ticket_of_issue hissue
        refine Tickets.reply (Tickets.assign (h.call _) ⟨_, List.mem_singleton.2 rfl, ?_⟩ ?_) conn
          (by decide) _
        · rw [hissue, hticket]
          rfl
        · rw [hticket, Option.getD_some, hT]
          exact Coordinator.serves_workerConn hworker
      · exact (h.call _).reply conn (by decide) _

theorem Tickets.onComplete (h : Tickets k t) (conn : ℕ) (amb : Ambient) (cp : CompletePayload) :
    Tickets k (t.onComplete conn amb cp) := by
  unfold Turn.onComplete
  dsimp only
  split
  · exact (h.call _).persist.reply conn (by decide) _
  · exact (h.call _).reply conn (by decide) _

theorem Tickets.onResume (k : Coordinator) (conn : ℕ) (amb : Ambient) (order : List ℕ)
    (rp : ResumeRequestPayload) :
    Tickets k (Turn.onResume { coordinator := k } conn amb order rp) := by
  have h := Tickets.start k
  unfold Turn.onResume
  dsimp only
  refine Tickets.reply ?_ conn (by decide) _
  split
  · rename_i hguard
    obtain ⟨T, hissue, hT, -⟩ := issue_of_resume hguard.1
    have hticket := History.ticket_of_issue hissue
    refine Tickets.persist ((h.call _).send _ _ fun _ =>
      ⟨_, rfl, ⟨_, List.mem_singleton.2 rfl, ?_⟩, ?_⟩)
    · rw [hissue, hticket]
      rfl
    · show k.serves ((engine.out k.engine _).ticket.getD .blank).workerId _ = true
      rw [hticket, Option.getD_some, hT]
      exact Coordinator.serves_workerConn hguard.2
  · exact h.call _

theorem Tickets.onConnClosed (k : Coordinator) (conn : ℕ) (amb : Ambient) :
    Tickets k (Turn.onConnClosed { coordinator := k } conn amb) where
  issued := by
    have hnone : (Turn.onConnClosed { coordinator := k } conn amb).sent = [] := by
      unfold Turn.onConnClosed
      split
      · rfl
      · dsimp only
        split
        · split
          · rw [persist_sent]
            rfl
          · rfl
        · rfl
    rw [hnone]
    exact fun _ hm => absurd hm List.not_mem_nil
  known := by
    intro c entry hentry
    rw [conns_onConnClosed] at hentry
    by_cases hc : c = conn
    · rw [hc, Finmap.lookup_erase] at hentry
      cases hentry
    · rw [Finmap.lookup_erase_ne hc] at hentry
      rw [hentry]
      rfl

/-- Apart from a `HELLO`, a turn leaves what is known of the connections, and it
sends a ticket only to a connection of the worker. -/
theorem decide_tickets (k : Coordinator) (conn : ℕ) {type : MsgType} (htype : type ≠ .hello)
    (payload : ByteString) (amb : Ambient) (order : List ℕ) :
    Tickets k (decide { coordinator := k } conn type payload amb order) := by
  have h := Tickets.start k
  have hcomplete : MsgType.completeAck ≠ .workerDispatch := by decide
  have hcancel : MsgType.cancelAck ≠ .workerDispatch := by decide
  have hpreempt : MsgType.preemptAck ≠ .workerDispatch := by decide
  unfold decide
  split
  · exact .onConnClosed k conn amb
  · unfold handleFrame
    cases type
    case hello => exact absurd rfl htype
    case registerWorker => exact h.reply conn (by decide) _
    case submit => exact h.given fun sp => h.onSubmit conn amb sp
    case dispatch => exact h.given fun dp => .onDispatch k conn amb order dp
    case start => exact h.given fun ticket => (h.call _).reply conn hcomplete _
    case complete => exact h.given fun cp => h.onComplete conn amb cp
    case cancel => exact h.given fun req => h.onControl conn amb _ hcancel
    case preempt => exact h.given fun req => h.onControl conn amb _ hpreempt
    case ackPreempt => exact h.given fun ap => h.onControl conn amb _ hpreempt
    case markResumable => exact h.given fun mp => h.onControl conn amb _ hpreempt
    case resume => exact h.given fun rp => .onResume k conn amb order rp
    case workerLost => exact h.given fun wp => h.onControl conn amb _ hcomplete
    case query => exact h.given fun id => h.reply conn (by decide) _
    case ping => exact h.reply conn (by decide) _
    case shutdown => exact ⟨h.issued, h.known⟩
    all_goals exact h

/-- A `HELLO` that cannot be unpacked is ignored. -/
theorem decide_hello_error (k : Coordinator) (conn : ℕ) {payload : ByteString}
    (hhello : (unpackHello payload).toOption = none) (amb : Ambient) (order : List ℕ) :
    decide { coordinator := k } conn .hello payload amb order = { coordinator := k } := by
  rw [decide, if_neg fun h => absurd h.1 (by decide), handleFrame]
  cases hunpack : unpackHello payload with
  | error _ => rfl
  | ok hp => rw [hunpack] at hhello; cases hhello

/-- A `HELLO` is answered without a ticket, and says who is at the other end of
its own connection. -/
theorem decide_hello (k : Coordinator) (conn : ℕ) {payload : ByteString} {hp : HelloPayload}
    (hhello : unpackHello payload = .ok hp) (amb : Ambient) (order : List ℕ) :
    (∀ m ∈ (decide { coordinator := k } conn .hello payload amb order).sent,
        m.type ≠ .workerDispatch) ∧
      ∀ c entry, (decide { coordinator := k } conn .hello payload amb order).coordinator.conns.lookup
          c = some entry →
        if c = conn then entry.identity = (hp.role == 1, hp.workerId, hp.workerBootId)
        else k.conns.lookup c = some entry := by
  have hturn : decide { coordinator := k } conn .hello payload amb order =
      Turn.onHello { coordinator := k } conn hp := by
    rw [decide, if_neg fun h => absurd h.1 (by decide), handleFrame, hhello]
    rfl
  rw [hturn]
  unfold Turn.onHello
  dsimp only
  refine ⟨fun m hm => ?_, fun c entry hentry => ?_⟩
  · rcases mem_send _ _ _ _ hm with hold | rfl
    · exact absurd hold List.not_mem_nil
    · show MsgType.welcome ≠ .workerDispatch
      decide
  · rw [send_coordinator] at hentry
    split
    · rename_i hc
      subst hc
      simp only [modifyConn, Finmap.lookup_insert] at hentry
      rw [← Option.some.inj hentry]
      rfl
    · rename_i hc
      rwa [modifyConn, Finmap.lookup_insert_of_ne _ hc] at hentry

/-- Every ticket that a turn sends was issued in it, and goes to a connection of
the worker. -/
theorem decide_ticket {conn : ℕ} {type : MsgType} {payload : ByteString} {amb : Ambient}
    {order : List ℕ} {m : Sent}
    (hm : m ∈ (decide { coordinator := k } conn type payload amb order).sent)
    (htype : m.type = .workerDispatch) :
    ∃ p : WorkerDispatchPayload, m.message = .workerDispatch p ∧
      (∃ c ∈ (decide { coordinator := k } conn type payload amb order).calls,
        History.issue c = some p.ticket) ∧ k.serves p.ticket.workerId m.conn = true := by
  by_cases hhello : type = .hello
  · subst hhello
    refine absurd htype ?_
    cases hunpack : unpackHello payload with
    | error e =>
        rw [decide_hello_error _ _ (by rw [hunpack]; rfl)] at hm
        exact absurd hm List.not_mem_nil
    | ok hp => exact (decide_hello _ _ hunpack amb order).1 m hm
  · exact (decide_tickets k conn hhello payload amb order).issued m hm htype

end

end Turn

/-! ### Runs -/

namespace Process

/-- What is said in a `HELLO`. -/
def helloIn (i : Inbound) : Option HelloPayload :=
  if i.type = .hello then (unpackHello i.payload).toOption else none

/-- The last thing a connection said about itself. -/
def introduction (c : ℕ) (h : List (Event × Option Handled)) : Option HelloPayload :=
  ((handledFrom c h).filterMap helloIn).getLast?

/-- What the table has of a worker is what was said last on its connection. -/
def Introduced (c : ℕ) (p : Process) (h : List (Event × Option Handled)) : Prop :=
  ∀ entry, p.coordinator.conns.lookup c = some entry → entry.isWorker = true →
    ∃ hp, introduction c h = some hp ∧ hp.role = 1 ∧ hp.workerId = entry.workerId ∧
      hp.workerBootId = entry.boot

section

variable {p q : Process} {c : ℕ} {h : List (Event × Option Handled)} {ev : Event}

theorem introduction_idle (c : ℕ) (h : List (Event × Option Handled)) (ev : Event) :
    introduction c (h ++ [(ev, none)]) = introduction c h := by
  rw [introduction, handledFrom_snoc]
  simp [ofConn, introduction]

theorem introduction_handled (c : ℕ) (h : List (Event × Option Handled)) (ev : Event)
    (i : Inbound) (t : Turn) : introduction c (h ++ [(ev, some ⟨i, t⟩)]) =
      if i.conn = c then (helloIn i).or (introduction c h) else introduction c h := by
  have hone : ofConn c ((some (⟨i, t⟩ : Handled)).toList.map Handled.entry) =
      if i.conn = c then [i] else [] := by
    simp only [ofConn, Option.toList_some, List.map_cons, List.map_nil]
    split <;> rename_i hc <;> simp [hc]
  rw [introduction, handledFrom_snoc, hone]
  split
  · cases hhello : helloIn i <;> simp [introduction, hhello]
  · simp [introduction]

/-- A step in which nothing is handled. -/
theorem Introduced.idle (h' : Introduced c p h)
    (hconns : ∀ entry, q.coordinator.conns.lookup c = some entry → entry.isWorker = true →
      p.coordinator.conns.lookup c = some entry) : Introduced c q (h ++ [(ev, none)]) := by
  intro entry hentry hworker
  rw [introduction_idle]
  exact h' entry (hconns entry hentry hworker) hworker

theorem Introduced.handled (h' : Introduced c p h) (i : Inbound) (amb : Ambient) (order : List ℕ)
    (hq : q.coordinator = (p.turn i amb order).coordinator) :
    Introduced c q (h ++ [(ev, some ⟨i, p.turn i amb order⟩)]) := by
  intro entry hentry hworker
  rw [introduction_handled]
  rw [hq] at hentry
  have hknown : (p.coordinator.conns.lookup c).map (·.identity) = some entry.identity →
      ∃ hp, introduction c h = some hp ∧ hp.role = 1 ∧ hp.workerId = entry.workerId ∧
        hp.workerBootId = entry.boot := by
    intro hsame
    obtain ⟨old, hold, hidentity⟩ := Option.map_eq_some_iff.1 hsame
    obtain ⟨hworks, hid, hboot⟩ : old.isWorker = entry.isWorker ∧ old.workerId = entry.workerId ∧
        old.boot = entry.boot := by simpa [ConnEntry.identity] using hidentity
    rw [← hid, ← hboot]
    exact h' old hold (hworks.trans hworker)
  cases hhello : helloIn i with
  | none =>
      have hsame : (if i.conn = c then Option.or none (introduction c h) else introduction c h) =
          introduction c h := by split <;> rfl
      rw [hsame]
      apply hknown
      by_cases htype : i.type = .hello
      · -- the payload could not be unpacked, so the turn did nothing
        rw [helloIn, if_pos htype] at hhello
        rw [turn, htype, Turn.decide_hello_error _ _ hhello] at hentry
        rw [hentry]
        rfl
      · exact (Turn.decide_tickets _ i.conn htype i.payload amb order).known c entry hentry
  | some hp =>
      have htype : i.type = .hello := by
        by_contra hne
        rw [helloIn, if_neg hne] at hhello
        cases hhello
      have hunpack : unpackHello i.payload = .ok hp := by
        rw [helloIn, if_pos htype] at hhello
        cases hpayload : unpackHello i.payload with
        | error _ => rw [hpayload] at hhello; cases hhello
        | ok hp' => rw [hpayload] at hhello; exact congrArg _ (Option.some.inj hhello)
      have hdecided := (Turn.decide_hello p.coordinator i.conn hunpack amb order).2 c entry
        (by rw [turn, htype] at hentry; exact hentry)
      by_cases hc : c = i.conn
      · rw [if_pos hc] at hdecided
        rw [if_pos hc.symm]
        obtain ⟨hworks, hid, hboot⟩ : entry.isWorker = (hp.role == 1) ∧
            entry.workerId = hp.workerId ∧ entry.boot = hp.workerBootId := by
          simpa [ConnEntry.identity] using hdecided
        exact ⟨hp, rfl, by simpa using hworks.symm.trans hworker, hid.symm, hboot.symm⟩
      · rw [if_neg hc] at hdecided
        rw [if_neg (Ne.symm hc)]
        exact h' entry hdecided hworker

theorem Introduced.next (h' : Introduced c p h) (ev : Event) :
    Introduced c (process.next p ev) (h ++ [(ev, process.out p ev)]) := by
  have hmoves := p.step_moves ev
  show Introduced c (p.step ev).1 (h ++ [(ev, (p.step ev).2)])
  generalize p.step ev = y at hmoves
  cases hmoves with
  | accepted =>
      refine h'.idle fun entry hentry hworker => ?_
      by_cases hnew : c = p.coordinator.nextConnId
      · rw [hnew] at hentry
        change (p.coordinator.conns.insert _ _).lookup _ = _ at hentry
        rw [Finmap.lookup_insert] at hentry
        rw [← Option.some.inj hentry] at hworker
        cases hworker
      · change (p.coordinator.conns.insert _ _).lookup _ = _ at hentry
        rwa [Finmap.lookup_insert_of_ne _ hnew] at hentry
  | decided => exact h'.handled _ _ _ rfl
  | _ => exact h'.idle fun _ hentry _ => hentry

theorem introduced (persistent : Bool) (file : Option ByteString) (e₀ : CoordinatorEpoch)
    (evs : List Event) (c : ℕ) : Introduced c (process.run (start persistent file e₀) evs)
      (process.trace (start persistent file e₀) evs) := by
  induction evs using List.reverseRecOn with
  | nil =>
      intro entry hentry
      change (start persistent file e₀).coordinator.conns.lookup c = some entry at hentry
      rw [start, Coordinator.construct_conns] at hentry
      cases hentry
  | append_singleton evs ev ih =>
      rw [Machine.run_snoc, Machine.trace_append]
      exact ih.next ev

theorem introduction_of_serves (persistent : Bool) (file : Option ByteString)
    (e₀ : CoordinatorEpoch) (evs : List Event) {worker : WorkerId}
    (hserves : (process.run (start persistent file e₀) evs).coordinator.serves worker c = true) :
    ∃ hp, introduction c (process.trace (start persistent file e₀) evs) = some hp ∧
      hp.role = 1 ∧ hp.workerId = worker := by
  obtain ⟨entry, hentry, hworker, hid⟩ := Coordinator.serves_iff.1 hserves
  obtain ⟨hp, hsaid, hrole, hsame, -⟩ := introduced persistent file e₀ evs c entry hentry hworker
  exact ⟨hp, hsaid, hrole, hsame.trans hid⟩

end

end Process

/-- In every interleaving, a ticket is sent in the turn in which the engine issued
it, and on a connection that, when it last said who it is, said that it is the
worker named in the ticket. -/
theorem tickets_addressed (persistent : Bool) (file : Option ByteString) (e₀ : CoordinatorEpoch)
    (evs : List Process.Event) {ev : Process.Event} {x : Handled}
    (hout : process.out (process.run (.start persistent file e₀) evs) ev = some x) {m : Sent}
    (hm : m ∈ x.turn.sent) (htype : m.type = .workerDispatch) :
    ∃ (p : WorkerDispatchPayload) (hp : HelloPayload), m.message = .workerDispatch p ∧
      (∃ c ∈ x.turn.calls, History.issue c = some p.ticket) ∧
      Process.introduction m.conn (process.trace (.start persistent file e₀) evs) = some hp ∧
      hp.role = 1 ∧ hp.workerId = p.ticket.workerId := by
  obtain ⟨amb, order, rest, -, -, -, hturn⟩ := Process.out_some hout
  rw [hturn] at hm ⊢
  obtain ⟨p, hp, hissued, hserves⟩ := Turn.decide_ticket hm htype
  obtain ⟨said, hsaid⟩ := Process.introduction_of_serves persistent file e₀ evs hserves
  exact ⟨p, said, hp, hissued, hsaid⟩

/-- Two incarnations of a worker are connected, and a ticket is sent. -/
theorem tickets_addressed_sample :
    ∃ (m : Sent) (p : WorkerDispatchPayload) (hp : HelloPayload), m.message = .workerDispatch p ∧
      Process.introduction m.conn (process.trace (.start false none ⟨1⟩) Sample.restarted) =
        some hp ∧ hp.role = 1 ∧ hp.workerId = p.ticket.workerId := by
  let out := process.out (process.run (.start false none ⟨1⟩) Sample.restarted)
    (.decides (Sample.ambient 10) [])
  have hsent : (out.map fun x => x.turn.sent.any fun m => m.type = .workerDispatch) = some true := by
    decide +kernel
  obtain ⟨x, hx, hany⟩ := Option.map_eq_some_iff.1 hsent
  obtain ⟨m, hm, htype⟩ := List.any_eq_true.1 hany
  obtain ⟨p, hp, hmessage, -, hsaid⟩ :=
    tickets_addressed false none ⟨1⟩ Sample.restarted hx hm (of_decide_eq_true htype)
  exact ⟨m, p, hp, hmessage, hsaid⟩

end ExecutionFabric
