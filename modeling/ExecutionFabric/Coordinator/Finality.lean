import ExecutionFabric.Coordinator.Restart
import ExecutionFabric.Coordinator.Tickets

/-!
What the coordinator says of an execution once its commit was acknowledged.

A committed execution is refused whatever is asked for it
(`ExecutionEngine.Commits.refuses`), so a turn that begins with the commit ends
with it, and nothing that it sends speaks against it (`Turn.Upholds`). The commit
survives restarts, as long as the file can be loaded. So of an execution that was
acknowledged as committed every later answer says that it is, with that digest,
no ticket is given out for it any more, and no other commit is acknowledged
(`acknowledged_final`).
-/

namespace ExecutionFabric

open Collections StepMachine ExecutionEngine History

section

variable {s : ExecutionEngine} {c : Call} {id : ExecutionId} {d : ResultDigest}

/-- What is asked for a committed execution is refused. -/
theorem ExecutionEngine.Commits.refuses (h : s.Commits id d) (htarget : c.op.target = some id) :
    (engine.out s c).Refuses := by
  obtain ⟨r, hfind, hstate, -⟩ := h
  have hview := step_view s c id
  rw [hfind] at hview
  generalize (engine.next s c).find id = y at hview
  cases hview with
  | idle hquiet =>
      refine (hquiet htarget).resolve_right fun ⟨repeats, _⟩ => ?_
      -- what can be repeated is no commit
      have hother : ∀ {id' r'}, c.op.target = some id' → s.find id' = some r' →
          r'.state = .committed := by
        intro id' r' htarget' hfind'
        obtain rfl := Option.some.inj (htarget.symm.trans htarget')
        rwa [← Option.some.inj (hfind.symm.trans hfind')]
      generalize c.op = op at repeats hother
      cases repeats with
      | cancel hfind' auth hstate' => exact absurd (hstate'.symm.trans (hother rfl hfind')) (by decide)
      | finalizeCancel hfind' hcur hstate' =>
          exact absurd (hstate'.symm.trans (hother rfl hfind')) (by decide)
      | preempt hfind' auth hstate' => exact absurd (hstate'.symm.trans (hother rfl hfind')) (by decide)
  | acted _ _ effect =>
      have hlive := effect.live
      rw [hstate] at hlive
      cases hlive

theorem ExecutionEngine.Commits.not_allow (h : s.Commits id d) (htarget : c.op.target = some id) :
    (engine.out s c).result.code ≠ .allow := fun hcode =>
  (h.refuses htarget).not_allows (Outcome.code_of_result hcode (by decide))

theorem ExecutionEngine.Commits.next (h : s.Commits id d) (c : Call) :
    (engine.next s c).Commits id d :=
  h.keeps (G := Always) (Runs.one c trivial)

end

/-- The message does not speak against the commit, and gives out no ticket for the
execution. -/
def Message.Upholds (id : ExecutionId) (d : ResultDigest) : Message → Prop
  | submitAck p => p.executionId = id → p.accepted = false ∧ p.state = some .committed
  | dispatchAck p => p.accepted = true → p.ticket.executionId ≠ id
  | workerDispatch p => p.ticket.executionId ≠ id
  | queryResponse p => p.executionId = id →
      p.found = true ∧ p.state = some .committed ∧ p.committedDigest = some d
  | _ => True

namespace Turn

/-- The turn so far: the execution is committed, and nothing it has sent speaks
against it. -/
structure Upholds (id : ExecutionId) (d : ResultDigest) (t : Turn) : Prop where
  commits : t.coordinator.engine.Commits id d
  keyed : t.coordinator.engine.Keyed
  said : ∀ m ∈ t.sent, m.message.Upholds id d

section

variable {id : ExecutionId} {d : ResultDigest} {t : Turn}

theorem Upholds.call (h : Upholds id d t) (c : Call) : Upholds id d (t.call c) :=
  ⟨h.commits.next c, h.keyed.next c, h.said⟩

theorem Upholds.crash (h : Upholds id d t) : Upholds id d t.crash := ⟨h.commits, h.keyed, h.said⟩

theorem Upholds.persist (h : Upholds id d t) : Upholds id d t.persist where
  commits := by rw [persist_engine]; exact h.commits
  keyed := by rw [persist_engine]; exact h.keyed
  said := by rw [persist_sent]; exact h.said

theorem Upholds.modifyConn (h : Upholds id d t) (c : ℕ) (f : ConnEntry → ConnEntry) :
    Upholds id d (t.modifyConn c f) := ⟨h.commits, h.keyed, h.said⟩

theorem Upholds.send (h : Upholds id d t) (conn : ℕ) (type : MsgType) {message : Message}
    (hmessage : message.Upholds id d) : Upholds id d (t.send conn type message) where
  commits := by rw [send_coordinator]; exact h.commits
  keyed := by rw [send_coordinator]; exact h.keyed
  said := by
    intro m hm
    rcases mem_send _ _ _ _ hm with hold | rfl
    · exact h.said m hold
    · exact hmessage

theorem Upholds.given {α : Type} (h : Upholds id d t) {unpacked : Except ByteString α}
    {handle : α → Turn} (hhandle : ∀ p, Upholds id d (handle p)) :
    Upholds id d (t.given unpacked handle) := by
  cases unpacked with
  | error _ => exact h
  | ok p => exact hhandle p

/-! ### The branches -/

theorem Upholds.ackSubmit (h : Upholds id d t) (conn : ℕ) (sp : SubmitPayload) {o : Outcome}
    (ho : sp.executionId = id → o.result.code ≠ .allow) : Upholds id d (t.ackSubmit conn sp o) := by
  apply h.persist.send
  rintro rfl
  obtain ⟨r, hfind, hstate, -⟩ := h.commits
  refine ⟨beq_false_of_ne (ho rfl), ?_⟩
  show (t.coordinator.engine.find sp.executionId).map _ = _
  rw [hfind, Option.map_some, hstate]

theorem Upholds.onSubmit (h : Upholds id d t) (conn : ℕ) (amb : Ambient) (sp : SubmitPayload) :
    Upholds id d (t.onSubmit conn amb sp) := by
  have hcreate : sp.executionId = id →
      (engine.out t.coordinator.engine ⟨.create sp.executionId sp.epoch, amb⟩).result.code
        ≠ .allow := fun hid => h.commits.not_allow (congrArg some hid)
  unfold Turn.onSubmit
  dsimp only
  split
  · rename_i hallow
    have hid : sp.executionId ≠ id := fun hid => hcreate hid hallow
    split
    · exact ((h.call _).call _).crash
    · exact ((h.call _).call _).ackSubmit conn sp fun heq => absurd heq hid
  · exact (h.call _).ackSubmit conn sp hcreate

theorem Upholds.assign (h : Upholds id d t) (worker : ℕ) {T : DispatchTicket}
    (hT : T.executionId ≠ id) : Upholds id d (t.assign worker T) := by
  unfold Turn.assign
  refine Upholds.persist (Upholds.send ?_ worker _ hT)
  split
  · exact h.modifyConn _ _
  · exact h

theorem Upholds.onDispatch (h : Upholds id d t) (conn : ℕ) (amb : Ambient) (order : List ℕ)
    (dp : DispatchRequestPayload) : Upholds id d (t.onDispatch conn amb order dp) := by
  unfold Turn.onDispatch
  dsimp only
  split
  · exact h.send conn _ nofun
  · split
    · exact (h.call _).crash
    · split
      · rename_i hcode
        obtain ⟨T, hissue, -, r, hfind, hT⟩ := issue_of_dispatch hcode
        have hticket := History.ticket_of_issue hissue
        have hid : T.executionId ≠ id := by
          rw [hT, (h.keyed _ r hfind).1]
          rintro rfl
          exact h.commits.not_allow rfl hcode
        have hsame : ((engine.out t.coordinator.engine
            ⟨.dispatch dp.executionId dp.workerId dp.workerBootId dp.epoch, amb⟩).ticket.getD
              .blank).executionId ≠ id := by
          rw [hticket]
          exact hid
        exact ((h.call _).assign _ hsame).send conn _ fun _ => hsame
      · exact (h.call _).send conn _ nofun

theorem Upholds.onComplete (h : Upholds id d t) (conn : ℕ) (amb : Ambient) (cp : CompletePayload) :
    Upholds id d (t.onComplete conn amb cp) := by
  unfold Turn.onComplete
  dsimp only
  split
  · exact (h.call _).persist.send conn _ trivial
  · exact (h.call _).send conn _ trivial

theorem Upholds.onControl (h : Upholds id d t) (conn : ℕ) (amb : Ambient) (op : Op)
    (reply : MsgType) : Upholds id d (t.onControl conn amb op reply) :=
  (h.call _).persist.send conn reply trivial

theorem Upholds.onResume (h : Upholds id d t) (conn : ℕ) (amb : Ambient) (order : List ℕ)
    (rp : ResumeRequestPayload) : Upholds id d (t.onResume conn amb order rp) := by
  let c : Call := ⟨.resume rp.executionId rp.workerId rp.workerBootId rp.epoch rp.resumeGen, amb⟩
  have hticket : (engine.out t.coordinator.engine c).result.code = .resumeAllowed →
      ((engine.out t.coordinator.engine c).ticket.getD .blank).executionId ≠ id := by
    intro hcode
    obtain ⟨T, hissue, -, r, hfind, hT⟩ := issue_of_resume hcode
    rw [History.ticket_of_issue hissue, Option.getD_some, hT, (h.keyed _ r hfind).1]
    rintro rfl
    exact (h.commits.refuses rfl).not_resumes (Outcome.code_of_result hcode (by decide))
  have hack : (dispatchAck ((engine.out t.coordinator.engine c).result.code == .resumeAllowed ||
      (engine.out t.coordinator.engine c).result.code == .allow)
        (engine.out t.coordinator.engine c)).Upholds id d := by
    intro haccepted
    simp only [Bool.or_eq_true, beq_iff_eq] at haccepted
    exact hticket (haccepted.resolve_right ExecutionEngine.resume_not_allow)
  have hwork : (engine.out t.coordinator.engine c).result.code = .resumeAllowed →
      (Message.workerDispatch
        { ticket := (engine.out t.coordinator.engine c).ticket.getD .blank
          workBytes := 4096
          workSeed := 7 }).Upholds id d := hticket
  unfold Turn.onResume
  dsimp only
  refine Upholds.send ?_ conn _ hack
  split
  · rename_i hguard
    exact ((h.call _).send _ _ (hwork hguard.1)).persist
  · exact h.call _

theorem Upholds.onQuery (h : Upholds id d t) (conn : ℕ) (asked : ExecutionId) :
    Upholds id d (t.onQuery conn asked) := by
  unfold Turn.onQuery
  apply h.send
  split
  · rename_i r hfind
    rintro rfl
    obtain ⟨r', hfind', hstate, hdigest⟩ := h.commits
    obtain rfl := Option.some.inj (hfind'.symm.trans hfind)
    exact ⟨rfl, congrArg some hstate, hdigest⟩
  · rename_i hfind
    rintro rfl
    obtain ⟨r', hfind', -⟩ := h.commits
    exact absurd (hfind.symm.trans hfind') nofun

theorem Upholds.onConnClosed (h : Upholds id d t) (conn : ℕ) (amb : Ambient) :
    Upholds id d (t.onConnClosed conn amb) := by
  unfold Turn.onConnClosed
  split
  · exact h
  · have herase : Upholds id d { t with
        coordinator := { t.coordinator with conns := t.coordinator.conns.erase conn } } :=
      ⟨h.commits, h.keyed, h.said⟩
    dsimp only
    split
    · split
      · exact (herase.call _).persist
      · exact herase
    · exact herase

/-- A turn that begins with the commit says nothing against it. -/
theorem Upholds.decide (h : Upholds id d t) (conn : ℕ) (type : MsgType) (payload : ByteString)
    (amb : Ambient) (order : List ℕ) :
    Upholds id d (t.decide conn type payload amb order) := by
  unfold Turn.decide
  split
  · exact h.onConnClosed conn amb
  · unfold handleFrame
    cases type
    case hello => exact h.given fun hp => (h.modifyConn _ _).send _ _ trivial
    case registerWorker => exact h.send _ _ trivial
    case submit => exact h.given fun sp => h.onSubmit conn amb sp
    case dispatch => exact h.given fun dp => h.onDispatch conn amb order dp
    case start => exact h.given fun ticket => (h.call _).send _ _ trivial
    case complete => exact h.given fun cp => h.onComplete conn amb cp
    case cancel => exact h.given fun req => h.onControl conn amb _ _
    case preempt => exact h.given fun req => h.onControl conn amb _ _
    case ackPreempt => exact h.given fun ap => h.onControl conn amb _ _
    case markResumable => exact h.given fun mp => h.onControl conn amb _ _
    case resume => exact h.given fun rp => h.onResume conn amb order rp
    case workerLost => exact h.given fun wp => h.onControl conn amb _ _
    case query => exact h.given fun asked => h.onQuery conn asked
    case ping => exact h.send _ _ trivial
    case shutdown => exact ⟨h.commits, h.keyed, h.said⟩
    all_goals exact h

end

end Turn

/-! ### Runs over several incarnations -/

section

variable {h before after : List (Event × Output)} {k : Coordinator} {x : Event × Output}
  {id : ExecutionId} {d : ResultDigest}

/-- No other commit is acknowledged for a committed execution. -/
theorem not_acked_of_commits {conn : ℕ} {type : MsgType} {payload : ByteString} {amb : Ambient}
    {order : List ℕ} (hcommits : k.engine.Commits id d) (d' : ResultDigest) :
    (id, d') ∉ acksOf (.inbound conn type payload amb order,
      { sent := (Turn.decide { coordinator := k } conn type payload amb order).sent
        calls := (Turn.decide { coordinator := k } conn type payload amb order).calls }) := by
  intro hacked
  cases type
  case complete =>
    cases hcp : unpackComplete payload with
    | error e => simp [acksOf, hcp] at hacked
    | ok cp =>
        have hturn : Turn.decide { coordinator := k } conn .complete payload amb order =
            Turn.onComplete { coordinator := k } conn amb cp := by
          simp [Turn.decide, Turn.handleFrame, Turn.given, hcp]
        rw [hturn] at hacked
        simp only [acksOf, hcp] at hacked
        obtain ⟨d₁, hd₁, heq⟩ := List.mem_map.1 hacked
        obtain ⟨rfl, rfl⟩ := Prod.mk.inj heq
        have hcode : (engine.out k.engine
            ⟨.complete (Turn.CompletePayload.filled cp), amb⟩).result.code ≠ .allow :=
          hcommits.not_allow (congrArg some (CompletePayload.filled_executionId cp))
        obtain ⟨m, hm, hcommitted⟩ := List.mem_filterMap.1 hd₁
        simp only [Turn.onComplete, if_neg hcode] at hm
        rcases Turn.mem_send _ _ _ _ hm with hm | rfl
        · simp [Turn.call] at hm
        · simp [Sent.committed] at hcommitted
  all_goals cases hacked

end

namespace Sample

/-- The execution is committed, and the coordinator is started again. -/
def outliving : List Event := serving 10 1 7 ++ [.restart ⟨2⟩, .accept]

def asking : Event := inbound .query (packQuery execution)

end Sample

end ExecutionFabric
