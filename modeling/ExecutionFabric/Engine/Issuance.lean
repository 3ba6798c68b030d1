import ExecutionFabric.Engine.Revocation

/-!
Only issued authority is accepted.

A caller may present any ticket. What keeps forged ones out is that a record
never has a current attempt without a ticket for it having been handed out:
its authority is vacant or is that of the ticket issued last (`Backed`). One
call breaks this. `dispatch` takes `RESUMING` for a state it can dispatch from,
installs its attempt and is then refused by the transition table, so that the
attempt is current and nobody was given its ticket. Runs without such a call
accept issued authority only (`only_issued_authority`).
-/

namespace ExecutionFabric

open StepMachine ExecutionEngine History

/-! ### Issued tickets -/

namespace History

/-- The ticket an allowed dispatch or resume filled in. -/
def issue (ev : Call × Outcome) : Option DispatchTicket :=
  match ev.1.op with
  | .dispatch .. => if ev.2.allows then ev.2.ticket else none
  | .resume .. => if ev.2.code? = some .resumeAllowed then ev.2.ticket else none
  | _ => none

/-- The tickets issued for the execution `id`, oldest first. -/
def issuedFor (id : ExecutionId) (h : History) : List DispatchTicket :=
  (h.filterMap issue).filter (·.executionId == id)

theorem ticket_of_issue {ev : Call × Outcome} {T : DispatchTicket} (h : issue ev = some T) :
    ev.2.ticket = some T := by
  unfold issue at h
  split at h <;> first | cases h | (split at h <;> first | exact h | cases h)

theorem issuedFor_append (id : ExecutionId) (h : History) (ev : Call × Outcome) :
    issuedFor id (h ++ [ev]) = issuedFor id h ++ (issue ev).toList.filter (·.executionId == id) := by
  cases hi : issue ev <;> simp [issuedFor, List.filterMap_append, hi]

end History

namespace DispatchTicket

/-- The authority a ticket hands out. -/
def authority (T : DispatchTicket) : Authority where
  generation := T.executionGeneration
  ownership := T.ownershipGeneration
  fence := T.fenceGeneration
  attempt := some T.attemptId
  attemptGeneration := some T.attemptGeneration
  worker := some T.workerId
  boot := some T.workerBootId

/-- The start ticket carries the authority of `T`. -/
structure NamedByStart (T : DispatchTicket) (t : StartTicket) : Prop where
  execution : t.executionId = T.executionId
  generation : t.executionGeneration = T.executionGeneration
  attempt : t.attemptId = T.attemptId
  attemptGeneration : t.attemptGeneration = T.attemptGeneration
  worker : t.workerId = T.workerId
  boot : t.workerBootId = T.workerBootId
  ownership : t.ownershipGeneration = T.ownershipGeneration
  fence : t.fenceGeneration = T.fenceGeneration

/-- The completion ticket carries the authority of `T`. -/
structure NamedByCompletion (T : DispatchTicket) (t : CompletionTicket) : Prop where
  execution : t.executionId = T.executionId
  generation : t.executionGeneration = T.executionGeneration
  attempt : t.attemptId = T.attemptId
  attemptGeneration : t.attemptGeneration = T.attemptGeneration
  worker : t.workerId = T.workerId
  boot : t.workerBootId = T.workerBootId
  ownership : t.ownershipGeneration = T.ownershipGeneration
  fence : t.fenceGeneration = T.fenceGeneration
  dispatch : t.dispatchId = T.dispatchId

end DispatchTicket

/-! ### Every current attempt has a ticket -/

/-- The guard of the runs without a stray attempt: no dispatch that is not
stale on an execution in `RESUMING`. -/
def NoDispatchWhileResuming (s : ExecutionEngine) (c : Call) : Prop :=
  ∀ id worker boot e r, c.op = .dispatch id worker boot e → s.find id = some r →
    r.state = .resuming → s.epoch ≤ e → ¬r.coordinatorEpoch ≤ e

/-- The authority of the record is that of the ticket issued last. -/
structure BackedBy (T : DispatchTicket) (id : ExecutionId) (h : History) (r : ExecutionRecord) :
    Prop where
  issued : (issuedFor id h).getLast? = some T
  execution : T.executionId = id
  authority : r.authority = T.authority
  last : ∃ i, r.lineage.getLast? = some i ∧ i.id = T.attemptId ∧ i.dispatchId = T.dispatchId

def Backed (id : ExecutionId) (h : History) (r : ExecutionRecord) : Prop :=
  r.authority.Vacant ∨ ∃ T, BackedBy T id h r

/-- An effect that draws either issues a ticket for the attempt it installs, or
is the stray dispatch. -/
theorem Drawing.issue_or {e : CoordinatorEpoch} {amb : Ambient} {r r' : ExecutionRecord} {op : Op}
    {o : Outcome} (drawing : Drawing e amb r r' op o) :
    (∃ worker boot, issue (⟨op, amb⟩, o) = some (r.ticketFor e (r.nextAttempt amb worker boot)) ∧
      r'.authority = r.authority.pass (r.nextAttempt amb worker boot) ∧
      r'.lineage = r.lineage ++ [(r.nextAttempt amb worker boot).ident]) ∨
    ∃ id worker boot, op = .dispatch id worker boot e ∧ r.state = .resuming ∧
      r.coordinatorEpoch ≤ e := by
  cases drawing with
  | issued worker boot hticket hdrawn hauth hlineage hcode =>
      refine .inl ⟨worker, boot, ?_, hauth, hlineage⟩
      rcases hcode with ⟨hallow, id, rfl⟩ | ⟨hresume, id, gen, rfl⟩
      · simp [issue, hallow, hticket]
      · simp [issue, hresume, hticket]
  | stray id worker boot hticket hop hstate hrec => exact .inr ⟨id, worker, boot, hop, hstate, hrec⟩

section

variable {e₀ : CoordinatorEpoch} {h : History} {s : ExecutionEngine} {c : Call}
  {id : ExecutionId} {r r' : ExecutionRecord}

theorem Backed.of_silent (hb : Backed id h r) (hauth : r'.authority = r.authority)
    (hlineage : r'.lineage = r.lineage) {ev : Call × Outcome}
    (hsilent : ∀ T, issue ev = some T → T.executionId ≠ id) : Backed id (h ++ [ev]) r' := by
  have hissued : issuedFor id (h ++ [ev]) = issuedFor id h := by
    rw [issuedFor_append]
    cases hi : issue ev with
    | none => simp
    | some T => simp [hsilent T hi]
  rcases hb with hv | ⟨T, hT⟩
  · exact .inl (hauth ▸ hv)
  · exact .inr ⟨T, hissued ▸ hT.issued, hT.execution, hauth.trans hT.authority,
      hlineage ▸ hT.last⟩

/-- The ticket a call issues backs the record in which its attempt was installed. -/
theorem backedBy_issued {e : CoordinatorEpoch} {made : AttemptRecord} {ev : Call × Outcome}
    (hkey : r.id = id) (hissue : issue ev = some (r.ticketFor e made))
    (hauth : r'.authority = r.authority.pass made)
    (hlineage : r'.lineage = r.lineage ++ [made.ident]) :
    BackedBy (r.ticketFor e made) id (h ++ [ev]) r' where
  issued := by
    rw [issuedFor_append, hissue]
    simp [ExecutionRecord.ticketFor, hkey]
  execution := hkey
  authority := hauth
  last := ⟨made.ident, by rw [hlineage, List.getLast?_append]; rfl, rfl, rfl⟩

/-- A call that issues a ticket addresses the execution in it. -/
theorem target_of_issue (hs : Reachable s) {T : DispatchTicket}
    (hT : issue (c, engine.out s c) = some T) : c.op.target = some T.executionId := by
  have hdraw := ticket_drawn hs (ticket_of_issue hT)
  simp only [draw] at hdraw
  split at hdraw
  · rename_i k x hk _
    simp only [Option.some.injEq, Prod.mk.injEq] at hdraw
    rw [hk, hdraw.1]
  · cases hdraw

/-- The authority of every record is backed by the ticket issued last. -/
theorem backed_of_runs (run : Runs engine NoDispatchWhileResuming (init e₀) h s)
    (hfind : s.find id = some r) : Backed id h r := by
  induction run generalizing r with
  | refl => cases hfind
  | @snoc h s run c hG ih =>
      have hs := reachable_of_runs run
      cases origin hfind with
      | idle hx hquiet =>
          refine (ih hx).of_silent rfl rfl fun T hT hid => ?_
          have hticket := ticket_of_issue hT
          rcases hquiet (hid ▸ target_of_issue hs hT) with refuses | ⟨-, gives⟩
          · exact absurd (refuses.ticket.symm.trans hticket) nofun
          · exact absurd (gives.ticket.symm.trans hticket) nofun
      | created => exact .inl ⟨rfl, rfl, rfl, rfl⟩
      | @acted r₀ r' hx htarget hcur effect =>
          have hsilent : (engine.out s c).ticket = none →
              ∀ T, issue (c, engine.out s c) = some T → T.executionId ≠ id :=
            fun hnone T hT => absurd (hnone.symm.trans (ticket_of_issue hT)) nofun
          cases effect.passage with
          | kept hauth hlineage hticket => exact (ih hx).of_silent hauth hlineage (hsilent hticket)
          | seeded hstate hlineage hauth =>
              obtain ⟨h₁, h₂, h₃, h₄⟩ := ((hs.shaped hx).created hstate).1
              exact .inl (hauth ▸ ⟨h₁, h₂, h₃, h₄⟩)
          | dropped hauth => exact .inl (hauth ▸ Authority.drop_vacant _)
          | passed worker boot hauth hlineage hdrawn =>
              rcases (effect.drawing (by rw [hdrawn]; exact nofun)).issue_or with
                ⟨worker, boot, hissue, hauth, hlineage⟩ | ⟨k, worker, boot, hop, hstate, hrec⟩
              · exact .inr ⟨_, backedBy_issued (hs.keyed hx).1 hissue hauth hlineage⟩
              · -- the guard excludes the stray dispatch
                obtain rfl : k = id := by
                  rw [hop] at htarget
                  exact Option.some.inj htarget
                refine absurd hrec (hG k worker boot _ r₀ hop hx hstate ?_)
                exact epoch_le_next s c

/-- What the start checks let through names the ticket behind the record. -/
theorem BackedBy.namedByStart {e : CoordinatorEpoch} {T : DispatchTicket} {t : StartTicket}
    (hT : BackedBy T t.executionId h r) (auth : StartAuthorised e r t) : T.NamedByStart t where
  execution := hT.execution.symm
  generation := auth.generation.trans (congrArg (·.generation) hT.authority)
  attempt := Option.some.inj (auth.attempt.symm.trans (congrArg (·.attempt) hT.authority))
  attemptGeneration := Option.some.inj
    (auth.attemptGeneration.symm.trans (congrArg (·.attemptGeneration) hT.authority))
  worker := Option.some.inj (auth.worker.symm.trans (congrArg (·.worker) hT.authority))
  boot := Option.some.inj (auth.boot.symm.trans (congrArg (·.boot) hT.authority))
  ownership := auth.ownership.trans (congrArg (·.ownership) hT.authority)
  fence := auth.fence.trans (congrArg (·.fence) hT.authority)

/-- The same for the completion checks, which also read the dispatch of the
attempt they find in the record. -/
theorem BackedBy.namedByCompletion {e : CoordinatorEpoch} {T : DispatchTicket}
    {t : CompletionTicket} (hT : BackedBy T t.executionId h r)
    (auth : CompletionAuthorised e r t) : T.NamedByCompletion t := by
  have hattempt : t.attemptId = T.attemptId :=
    Option.some.inj (auth.attempt.symm.trans (congrArg (·.attempt) hT.authority))
  refine
    { execution := hT.execution.symm
      generation := auth.generation.trans (congrArg (·.generation) hT.authority)
      attempt := hattempt
      attemptGeneration := Option.some.inj
        (auth.attemptGeneration.symm.trans (congrArg (·.attemptGeneration) hT.authority))
      worker := Option.some.inj (auth.worker.symm.trans (congrArg (·.worker) hT.authority))
      boot := Option.some.inj (auth.boot.symm.trans (congrArg (·.boot) hT.authority))
      ownership := auth.ownership.trans (congrArg (·.ownership) hT.authority)
      fence := auth.fence.trans (congrArg (·.fence) hT.authority)
      dispatch := ?_ }
  obtain ⟨i, hlast, hid, hdispatch⟩ := hT.last
  have hcheck := ExecutionRecord.dispatch_check_iff.1 auth.dispatch i (List.mem_of_getLast? hlast)
  rw [← hcheck (hid.trans hattempt.symm), hdispatch]

end

/-- The record behind a ticket that was issued for the execution `id`. -/
structure IssuedUnder (T : DispatchTicket) (s : ExecutionEngine) (r : ExecutionRecord) : Prop where
  found : s.find T.executionId = some r
  recordEpoch : r.coordinatorEpoch ≤ T.epoch
  epoch : T.epoch ≤ s.epoch

/-- A call keeps the record and the bounds on the epoch of a ticket. -/
theorem IssuedUnder.next {T : DispatchTicket} {s : ExecutionEngine} {r : ExecutionRecord}
    (h : IssuedUnder T s r) (c : Call) : ∃ r', IssuedUnder T (engine.next s c) r' := by
  have hle := h.epoch.trans (epoch_le_next s c)
  have hview := step_view s c T.executionId
  rw [h.found] at hview
  generalize hnext : (engine.next s c).find T.executionId = y at hview
  cases hview with
  | idle => exact ⟨r, hnext, h.recordEpoch, hle⟩
  | acted _ _ effect => exact ⟨_, hnext, effect.frame.2.1 ▸ h.recordEpoch, hle⟩

/-- A ticket is issued under the epoch of the engine, for a record it has. -/
theorem issuedUnder_of_issue {s : ExecutionEngine} {c : Call} (hs : Reachable s)
    {T : DispatchTicket} (hT : issue (c, engine.out s c) = some T) :
    ∃ r, IssuedUnder T (engine.next s c) r := by
  have hticket := ticket_of_issue hT
  have hview := step_view s c T.executionId
  generalize hfind : s.find T.executionId = x at hview
  generalize hnext : (engine.next s c).find T.executionId = y at hview
  cases hview with
  | idle hquiet =>
      rcases hquiet (target_of_issue hs hT) with refuses | ⟨-, gives⟩
      · exact absurd (refuses.ticket.symm.trans hticket) nofun
      · exact absurd (gives.ticket.symm.trans hticket) nofun
  | created _ _ _ gives => exact absurd (gives.ticket.symm.trans hticket) nofun
  | @acted r r' htarget hcur effect =>
      have hdrawn := (effect.issued hticket).1
      cases effect.drawing (by rw [hdrawn]; exact nofun) with
      | stray _ _ _ hnone => exact absurd (hnone.symm.trans hticket) nofun
      | issued worker boot hmade =>
          obtain rfl := Option.some.inj (hmade.symm.trans hticket)
          have hkept : r'.coordinatorEpoch = r.coordinatorEpoch := effect.frame.2.1
          refine ⟨r', hnext, hkept ▸ ?_, le_rfl⟩
          exact (hs.keyed hfind).2.trans (epoch_le_next s c)

/-- Every issued ticket has a record, and an epoch between its and the engine's. -/
theorem issuedUnder_of_runs {e₀ : CoordinatorEpoch} {h : History} {s : ExecutionEngine}
    (run : Runs engine Always (init e₀) h s) {T : DispatchTicket}
    (hT : T ∈ h.filterMap issue) : ∃ r, IssuedUnder T s r := by
  induction run with
  | refl => cases hT
  | @snoc h s run c hG ih =>
      rw [List.filterMap_append] at hT
      rcases List.mem_append.1 hT with hT | hT
      · obtain ⟨r, hr⟩ := ih hT
        exact hr.next c
      · obtain ⟨ev, hev, hissue⟩ := List.mem_filterMap.1 hT
        obtain rfl := List.mem_singleton.1 hev
        exact issuedUnder_of_issue (reachable_of_runs run) hissue

/-- In a run without stray dispatches, a start and a completion that are
accepted carry the authority of the ticket issued last for their execution. -/
theorem only_issued_authority {e₀ : CoordinatorEpoch} {h : History} {s : ExecutionEngine}
    (run : Runs engine NoDispatchWhileResuming (init e₀) h s) (c : Call) :
    (∀ t, c.op = .markRunning t → (engine.out s c).allows →
      ∃ T, (issuedFor t.executionId h).getLast? = some T ∧ T.NamedByStart t) ∧
    ∀ t, c.op = .complete t → (engine.out s c).allows →
      ∃ T, (issuedFor t.executionId h).getLast? = some T ∧ T.NamedByCompletion t := by
  have hbacked : ∀ {id r a}, s.find id = some r → r.currentAttemptId = some a →
      ∃ T, BackedBy T id h r := by
    intro id r a hfind hcurrent
    rcases backed_of_runs run hfind with hv | hT
    · exact absurd (hv.attempt.symm.trans hcurrent) nofun
    · exact hT
  constructor
  · intro t hop hallow
    obtain ⟨r, hfind, auth, -⟩ := markRunning_allows hop hallow
    obtain ⟨T, hT⟩ := hbacked hfind auth.attempt
    exact ⟨T, hT.issued, hT.namedByStart auth⟩
  · intro t hop hallow
    obtain ⟨r, hfind, auth, -⟩ := complete_allows hop hallow
    obtain ⟨T, hT⟩ := hbacked hfind auth.attempt
    exact ⟨T, hT.issued, hT.namedByCompletion auth⟩

/-- The completion of the first attempt names the ticket issued for it. -/
theorem only_issued_authority_sample :
    ∃ T, (issuedFor Sample.execution (engine.trace (init ⟨1⟩) Sample.dispatching)).getLast? = some T ∧
      T.NamedByCompletion ((Sample.ticket 10).completion (Sample.digest 7)) := by
  have hmeets : engine.Meets NoDispatchWhileResuming (init ⟨1⟩) Sample.dispatching := by
    refine ⟨?_, ?_, ?_, trivial⟩
    · intro id worker boot e r hop
      cases hop
    · intro id worker boot e r hop
      cases hop
    · intro id worker boot e r hop hfind hstate
      cases hop
      have hready : (engine.run (init ⟨1⟩) Sample.readying).find Sample.execution
          = some Sample.readied := by decide +kernel
      obtain rfl := Option.some.inj (hready.symm.trans hfind)
      cases hstate
  exact (only_issued_authority (runs_trace _ _ _ hmeets)
    (Sample.call (.complete ((Sample.ticket 10).completion (Sample.digest 7))))).2 _ rfl
      (by decide +kernel)

namespace Sample

/-- Preempt the first attempt, resume, and dispatch while the record resumes. -/
def straying : List Call := dispatching ++
  [call (.preempt cancelRequest), call (.acknowledgePreempt execution ⟨1⟩),
    call (.markResumable execution ⟨1⟩), call (.resume execution worker boot ⟨1⟩ ⟨1⟩) 20,
    call (.dispatch execution worker boot ⟨1⟩) 30]

/-- A start nobody was given the ticket for. -/
def forged : StartTicket where
  executionId := execution
  executionGeneration := ⟨1⟩
  attemptId := Id.random ⟨30, 1⟩
  attemptGeneration := ⟨3⟩
  workerId := worker
  workerBootId := boot
  epoch := ⟨1⟩
  dispatchId := Id.random ⟨30, 2⟩
  dispatchGeneration := ⟨1⟩
  ownershipGeneration := ⟨4⟩
  fenceGeneration := ⟨4⟩

end Sample

/-- After a stray dispatch, a start that names no issued ticket is accepted. -/
theorem stray_authority :
    ¬∀ (e₀ : CoordinatorEpoch) (h : History) (s : ExecutionEngine),
      Runs engine Always (init e₀) h s → ∀ c : Call,
      (∀ t, c.op = .markRunning t → (engine.out s c).allows →
        ∃ T, (issuedFor t.executionId h).getLast? = some T ∧ T.NamedByStart t) ∧
      ∀ t, c.op = .complete t → (engine.out s c).allows →
        ∃ T, (issuedFor t.executionId h).getLast? = some T ∧ T.NamedByCompletion t := by
  intro hclaim
  have run : Runs engine Always (init ⟨1⟩) (engine.trace (init ⟨1⟩) Sample.straying)
      (engine.run (init ⟨1⟩) Sample.straying) := runs_always _ _ _
  obtain ⟨T, hlast, named⟩ := (hclaim _ _ _ run (Sample.call (.markRunning Sample.forged))).1
    Sample.forged rfl (by decide +kernel)
  -- the last ticket of the run is that of the resumption
  have hticket : ∀ T', (issuedFor Sample.execution (engine.trace (init ⟨1⟩) Sample.straying)).getLast?
      = some T' → T'.attemptId = Id.random ⟨20, 1⟩ := by decide +kernel
  have hattempt := named.attempt.trans (hticket T hlast)
  exact absurd hattempt (by decide +kernel)

end ExecutionFabric
