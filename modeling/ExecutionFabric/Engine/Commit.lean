import ExecutionFabric.Engine.Authority
import ExecutionFabric.Library.WriteOnce

/-!
At most one commit.

The abstract view of the engine is a bank of write-once registers, one for
each execution, holding the committed digest: an accepted completion writes
the register of its execution, and no other call writes any
(`ledger_writes`). What the bank promises is then read off the history. The
record adds that its counter, its digest and its state always agree, so that
there is no half commit to be found between two calls.
-/

namespace ExecutionFabric

open Collections StepMachine WriteOnce ExecutionEngine ExecutionStateMachine

/-! ### Accepted completions -/

namespace History

/-- The ticket of an accepted completion. -/
def accepted (ev : Call × Outcome) : Option CompletionTicket :=
  match ev.1.op with
  | .complete t => if ev.2.allows then some t else none
  | _ => none

/-- The tickets whose completion of the execution `id` was accepted. -/
def acceptedFor (id : ExecutionId) (h : History) : List CompletionTicket :=
  (h.filterMap accepted).filter (·.executionId == id)

/-- The writes an accepted completion makes. -/
def commitWrite (ev : Call × Outcome) : Option (ExecutionId × ResultDigest) :=
  (accepted ev).map fun t => (t.executionId, t.resultDigest)

theorem accepted_eq_some {ev : Call × Outcome} {t : CompletionTicket}
    (h : accepted ev = some t) : ev.1.op = .complete t ∧ ev.2.allows := by
  unfold accepted at h
  split at h
  · rename_i t' hop
    split at h
    · rename_i hallow
      obtain rfl := Option.some.inj h
      exact ⟨hop, hallow⟩
    · cases h
  · cases h

theorem mem_acceptedFor {id : ExecutionId} {h : History} {t : CompletionTicket} :
    t ∈ acceptedFor id h ↔ t.executionId = id ∧ ∃ ev ∈ h, accepted ev = some t := by
  simp only [acceptedFor, List.mem_filter, beq_iff_eq, List.mem_filterMap]
  tauto

end History

open History

/-! ### Counter, digest and state agree -/

namespace ExecutionRecord

/-- The commit fields of a record agree, and the committed digest is the one
stored on the current attempt. -/
structure Ledgered (r : ExecutionRecord) : Prop where
  digest : r.committedDigest.isSome = true ↔ r.state = .committed
  count : r.commitGeneration = if r.state = .committed then ⟨1⟩ else ⟨0⟩
  stored : ∀ d, r.committedDigest = some d →
    ∃ a ∈ r.attempts, some a.id = r.currentAttemptId ∧ a.resultDigest = some d

theorem Ledgered.digest_eq_none {r : ExecutionRecord} (h : r.Ledgered)
    (hstate : r.state ≠ .committed) : r.committedDigest = none :=
  Option.not_isSome_iff_eq_none.1 fun hsome => hstate (h.digest.1 hsome)

theorem ledgered_of_open {r : ExecutionRecord} (hstate : r.state ≠ .committed)
    (hdigest : r.committedDigest = none) (hcount : r.commitGeneration = ⟨0⟩) : r.Ledgered where
  digest := by simp [hdigest, hstate]
  count := by simp [hcount, hstate]
  stored := by simp [hdigest]

/-- The completed attempt carries the digest. -/
theorem exists_completed {r : ExecutionRecord} {id : AttemptId} (digest : ResultDigest)
    (h : ∃ a ∈ r.attempts, a.id = id) :
    ∃ a ∈ (r.completeAttempt id digest).attempts, a.id = id ∧ a.resultDigest = some digest := by
  obtain ⟨a, ha, hid⟩ := h
  obtain ⟨b, -, hb, hmem⟩ := exists_mem_updateFirst
    (f := fun a => { a.move .completed with resultDigest := some digest })
    (p := fun a : AttemptRecord => a.id == id) ⟨a, ha, by simpa using hid⟩
  exact ⟨_, hmem, by simpa using hb, rfl⟩

end ExecutionRecord

namespace Effect

variable {e : CoordinatorEpoch} {amb : Ambient} {r r' : ExecutionRecord} {op : Op} {o : Outcome}

/-- Either the effect is the commit, or it leaves the commit fields alone and
does not lead to `COMMITTED`. -/
theorem commit_or (effect : Effect e amb r op o r') :
    (∃ t, op = .complete t ∧ o.Gives .allow none none ∧ CompletionAuthorised e r t ∧
      r' = r.committedBy amb t) ∨
    (r'.committedDigest = r.committedDigest ∧ r'.commitGeneration = r.commitGeneration ∧
      r'.committedAt = r.committedAt ∧ r'.state ≠ .committed) := by
  have hlive : r.state ≠ .committed := fun h => by
    have := effect.live
    rw [h] at this
    cases this
  cases effect with
  | dispatched => exact .inr (by simp [ExecutionRecord.install, ExecutionRecord.supersedeCurrent_eq])
  | dispatchStuck =>
      exact .inr (by simp [ExecutionRecord.install, ExecutionRecord.supersedeCurrent_eq, hlive])
  | committed auth hstate hresult hdigest gives => exact .inl ⟨_, rfl, gives, auth, rfl⟩
  | completeStuck => exact .inr ⟨rfl, rfl, rfl, hlive⟩
  | cancelStuck => exact .inr ⟨rfl, rfl, rfl, hlive⟩
  | supersedeStuck => exact .inr ⟨rfl, rfl, rfl, hlive⟩
  | lost hcur hrec hworker hboot hstate gives =>
      refine .inr ⟨rfl, rfl, rfl, ?_⟩
      rcases ExecutionState.lossTarget_cases hstate with ⟨_, rfl⟩ | ⟨_, rfl⟩ | ⟨_, rfl⟩ | ⟨_, rfl⟩
        <;> exact ExecutionState.noConfusion
  | _ => exact .inr ⟨rfl, rfl, rfl, ExecutionState.noConfusion⟩

theorem ledgered (effect : Effect e amb r op o r') (hr : r.Shaped) (h : r.Ledgered) :
    r'.Ledgered := by
  have hlive : r.state ≠ .committed := fun hc => by
    have := effect.live
    rw [hc] at this
    cases this
  have hzero : r.commitGeneration = ⟨0⟩ := by simpa [hlive] using h.count
  rcases effect.commit_or with ⟨t, rfl, gives, auth, rfl⟩ | ⟨hdigest, hcount, _, hstate⟩
  · refine ⟨by simp [ExecutionRecord.committedBy], ?_, ?_⟩
    · simp only [ExecutionRecord.committedBy, if_true, hzero]
      rfl
    · intro d hd
      obtain rfl : t.resultDigest = d := Option.some.inj hd
      -- the current attempt is in the history, so the loop finds it
      obtain ⟨a, ha, _, held⟩ := (hr.holding.held auth.attempt).current
      have hid : a.id = t.attemptId := Option.some.inj (held.attempt.symm.trans auth.attempt)
      obtain ⟨b, hb, hbid, hbd⟩ :=
        ExecutionRecord.exists_completed t.resultDigest ⟨a, ha, hid⟩
      exact ⟨b, hb, by rw [hbid]; exact auth.attempt.symm, hbd⟩
  · exact ExecutionRecord.ledgered_of_open hstate (hdigest.trans (h.digest_eq_none hlive))
      (hcount.trans hzero)

end Effect

variable {G : ExecutionEngine → Call → Prop} {e₀ : CoordinatorEpoch} {h : History}
  {s u : ExecutionEngine} {id : ExecutionId} {r : ExecutionRecord}

theorem Reachable.ledgered (hs : Reachable s) (hfind : s.find id = some r) : r.Ledgered := by
  have hboth : r.Shaped ∧ r.Ledgered :=
    hs.record (P := fun r => r.Shaped ∧ r.Ledgered)
      (fun amb id e => ⟨shaped_newRecord amb id e,
        ExecutionRecord.ledgered_of_open nofun rfl rfl⟩)
      (fun effect h => ⟨effect.shaped h.1, effect.ledgered h.1 h.2⟩) hfind
  exact hboth.2

/-! ### The engine is a bank of write-once registers -/

namespace ExecutionEngine

/-- The registers: the committed digest of each execution. -/
def ledger (s : ExecutionEngine) (id : ExecutionId) : Option ResultDigest :=
  (s.find id).bind (·.committedDigest)

theorem ledger_next_of_open {s : ExecutionEngine} {c : Call}
    (hnone : commitWrite (c, engine.out s c) = none) :
    (engine.next s c).ledger = s.ledger := by
  funext id
  have hview := step_view s c id
  unfold ledger
  generalize hx : s.find id = x at hview ⊢
  generalize (engine.next s c).find id = y at hview ⊢
  cases hview with
  | idle => rfl
  | created => rfl
  | acted htarget hcur effect =>
      rcases effect.commit_or with ⟨t, hop, gives, _, _⟩ | ⟨hdigest, _⟩
      · have hallow : (engine.out s c).allows := gives.code
        simp [commitWrite, accepted, hop, hallow] at hnone
      · exact hdigest

theorem ledger_step {s : ExecutionEngine} (c : Call) (hs : Reachable s) :
    StepWrites s.ledger (commitWrite (c, engine.out s c)) (engine.next s c).ledger := by
  cases hw : commitWrite (c, engine.out s c) with
  | none => exact ledger_next_of_open hw
  | some w =>
      obtain ⟨t, haccepted, rfl⟩ := Option.map_eq_some_iff.1 hw
      obtain ⟨hop, hallow⟩ := accepted_eq_some haccepted
      obtain ⟨r, hfind, auth, hstate, -, -, hnext⟩ := complete_allows hop hallow
      have hopen : r.state ≠ .committed := fun hc => by
        rw [hc] at hstate
        cases hstate
      refine ⟨by simp [ledger, hfind, (hs.ledgered hfind).digest_eq_none hopen], ?_⟩
      funext id
      by_cases hid : id = t.executionId
      · subst hid
        simp [ledger, hnext, ExecutionRecord.committedBy]
      · rw [write_of_ne _ _ hid, ledger, ledger, find_next_of_ne]
        rw [hop]
        exact fun htarget => hid (Option.some.inj htarget).symm

end ExecutionEngine

/-- The engine refines the bank: a run writes the digests of its accepted
completions, each to a register that is still empty. -/
theorem ledger_writes (run : Runs engine Always (init e₀) h s) :
    Writes (fun _ => none) (h.filterMap commitWrite) s.ledger :=
  writes_of_runs (P := Reachable) ledger commitWrite (fun _ c _ ht => ht.next c)
    (fun _ c _ ht => ledger_step c ht) (Reachable.init e₀) run

/-! ### Exactly-once logical commit -/

/-- What a run promises about the commits of one execution. -/
structure OnceCommitted (h : History) (s : ExecutionEngine) (id : ExecutionId) : Prop where
  /-- At most one completion was accepted. -/
  accepted : (acceptedFor id h).length ≤ 1
  count : ∀ r, s.find id = some r → r.commitGeneration = ⟨0⟩ ∨ r.commitGeneration = ⟨1⟩
  digest : ∀ r, s.find id = some r →
    (r.committedDigest.isSome = true ↔ r.commitGeneration = ⟨1⟩)
  state : ∀ r, s.find id = some r → (r.commitGeneration = ⟨1⟩ ↔ r.state = .committed)
  /-- There is no half commit. -/
  completed : ∀ r, s.find id = some r → r.state ≠ .completed
  /-- The committed digest is that of the one accepted ticket. -/
  value : ∀ r d, s.find id = some r → r.committedDigest = some d →
    ∃ t, acceptedFor id h = [t] ∧ t.resultDigest = d
  /-- The current attempt is recorded, and stores the digest. -/
  current : ∀ r d, s.find id = some r → r.committedDigest = some d →
    ∃ a ∈ r.attempts, some a.id = r.currentAttemptId
  stored : ∀ r d, s.find id = some r → r.committedDigest = some d →
    ∀ a ∈ r.attempts, some a.id = r.currentAttemptId → a.resultDigest = some d
  /-- A committed record never changes again. -/
  final : ∀ r d k u, s.find id = some r → r.committedDigest = some d →
    Runs engine Always s k u → u.find id = some r

/-- Completions of one execution write one register. -/
theorem acceptedFor_length (run : Runs engine Always (init e₀) h s) (id : ExecutionId) :
    (acceptedFor id h).length ≤ 1 := by
  have hnodup := (ledger_writes run).nodup
  have hkeys : (h.filterMap commitWrite).map Prod.fst
      = (h.filterMap History.accepted).map (·.executionId) := by
    simp only [List.map_filterMap, commitWrite, Option.map_map]
    rfl
  rw [hkeys] at hnodup
  have hsub : ((acceptedFor id h).map (·.executionId)).Nodup :=
    hnodup.sublist (List.filter_sublist.map _)
  have hconst : (acceptedFor id h).map (·.executionId)
      = List.replicate (acceptedFor id h).length id :=
    List.eq_replicate_iff.2 ⟨by simp, fun k hk => by
      obtain ⟨t, ht, rfl⟩ := List.mem_map.1 hk
      exact (mem_acceptedFor.1 ht).1⟩
  rw [hconst, List.nodup_replicate] at hsub
  exact hsub

theorem acceptedFor_of_committed (run : Runs engine Always (init e₀) h s)
    (hfind : s.find id = some r) {d : ResultDigest} (hd : r.committedDigest = some d) :
    ∃ t, acceptedFor id h = [t] ∧ t.resultDigest = d := by
  have hget := ((ledger_writes run).get_iff id d).1 (by simp [ledger, hfind, hd])
  obtain ⟨ev, hev, hwrite⟩ := List.mem_filterMap.1 (hget.resolve_left nofun)
  obtain ⟨t, hacc, heq⟩ := Option.map_eq_some_iff.1 hwrite
  obtain ⟨rfl, rfl⟩ : t.executionId = id ∧ t.resultDigest = d := by simpa using heq
  have hmem : t ∈ acceptedFor t.executionId h := mem_acceptedFor.2 ⟨rfl, ev, hev, hacc⟩
  obtain ⟨t', ht'⟩ := List.length_eq_one_iff.1
    (Nat.le_antisymm (acceptedFor_length run _) (List.length_pos_of_mem hmem))
  rw [ht'] at hmem ⊢
  exact ⟨t, by rw [List.mem_singleton.1 hmem], rfl⟩

/-- The attempts of a record are told apart by their identifiers. -/
theorem eq_of_id_eq (run : Runs engine G (init e₀) h s) (hfresh : FreshIds h)
    (hfind : s.find id = some r) {a b : AttemptRecord} (ha : a ∈ r.attempts)
    (hb : b ∈ r.attempts) (hid : a.id = b.id) : a = b := by
  have hnodup : (r.attempts.map (·.id)).Nodup := by
    simpa [ExecutionRecord.lineage, Function.comp_def] using
      (distinct_of_runs run hfresh _ _ hfind).ids
  exact List.inj_on_of_nodup_map hnodup ha hb hid

theorem at_most_one_commit (run : Runs engine Always (init e₀) h s) (hfresh : FreshIds h)
    (id : ExecutionId) : OnceCommitted h s id := by
  have hs := reachable_of_runs run
  refine ⟨acceptedFor_length run id, ?_, ?_, ?_, ?_, ?_, ?_, ?_, ?_⟩
  · intro r hfind
    have hcount := (hs.ledgered hfind).count
    split at hcount
    · exact .inr hcount
    · exact .inl hcount
  · intro r hfind
    have hl := hs.ledgered hfind
    rw [hl.digest, hl.count]
    by_cases hstate : r.state = .committed <;> simp [hstate]
  · intro r hfind
    rw [(hs.ledgered hfind).count]
    by_cases hstate : r.state = .committed <;> simp [hstate]
  · intro r hfind hstate
    have hvisited := (hs.shaped hfind).visited
    rw [hstate] at hvisited
    cases hvisited
  · exact fun r d hfind hd => acceptedFor_of_committed run hfind hd
  · intro r d hfind hd
    obtain ⟨a, ha, hid, _⟩ := (hs.ledgered hfind).stored d hd
    exact ⟨a, ha, hid⟩
  · intro r d hfind hd b hb hbid
    obtain ⟨a, ha, haid, had⟩ := (hs.ledgered hfind).stored d hd
    have hsame : b.id = a.id := Option.some.inj (hbid.trans haid.symm)
    rw [eq_of_id_eq run hfresh hfind hb ha hsame]
    exact had
  · intro r d k u hfind hd run'
    have hstate : r.state = .committed := (hs.ledgered hfind).digest.1 (by simp [hd])
    exact terminal_stays run' hfind (by rw [hstate]; rfl)

/-- Create, activate, dispatch and complete. -/
theorem at_most_one_commit_sample :
    FreshIds (engine.trace (init ⟨1⟩) Sample.committing) ∧
      (acceptedFor Sample.execution (engine.trace (init ⟨1⟩) Sample.committing)).length = 1 ∧
      OnceCommitted (engine.trace (init ⟨1⟩) Sample.committing)
        (engine.run (init ⟨1⟩) Sample.committing) Sample.execution :=
  have hfresh : FreshIds (engine.trace (init ⟨1⟩) Sample.committing) := by decide +kernel
  ⟨hfresh, by decide +kernel,
    at_most_one_commit (runs_always _ _ _) hfresh Sample.execution⟩

end ExecutionFabric
