import ExecutionFabric.Coordinator.Turns
import ExecutionFabric.Persistence.Survival

/-!
What is left of an acknowledged commit when the coordinator is started again?

A commit is saved before it is acknowledged, so the file holds it, if the file
can be loaded. When it cannot, the constructor starts with an empty engine,
and every commit that was acknowledged can be made again with another digest.
One cancellation of an execution that was never dispatched is enough
(`acknowledged_twice`): the snapshots saved after it are refused.

Runs that avoid such a cancellation keep the file loadable. Their invariant
(`Safe`) says the same two things of the engine and of the state the file was
saved from: that the state is one which a snapshot preserves, and that it
holds every commit acknowledged so far.
-/

namespace ExecutionFabric

open Collections StepMachine ExecutionEngine History

/-! ### Commits -/

/-- The execution is committed with that digest. -/
def ExecutionEngine.Commits (s : ExecutionEngine) (id : ExecutionId) (d : ResultDigest) : Prop :=
  ∃ r, s.find id = some r ∧ r.state = .committed ∧ r.committedDigest = some d

theorem ExecutionEngine.Commits.unique {s : ExecutionEngine} {id : ExecutionId}
    {d d' : ResultDigest} (h : s.Commits id d) (h' : s.Commits id d') : d = d' := by
  obtain ⟨r, hfind, -, hd⟩ := h
  obtain ⟨r', hfind', -, hd'⟩ := h'
  obtain rfl : r = r' := Option.some.inj (hfind.symm.trans hfind')
  exact Option.some.inj (hd.symm.trans hd')

theorem ExecutionEngine.Commits.keeps {G : ExecutionEngine → Call → Prop} {k : History}
    {s t : ExecutionEngine} {id : ExecutionId} {d : ResultDigest} (h : s.Commits id d)
    (run : Runs engine G s k t) : t.Commits id d := by
  obtain ⟨r, hfind, hstate, hd⟩ := h
  exact ⟨r, terminal_stays run hfind (by rw [hstate]; rfl), hstate, hd⟩

/-! ### Reading a run of the coordinator -/

/-- The calls that reached the engine, over all incarnations. -/
def engineCalls (h : List (Event × Output)) : History := h.flatMap (·.2.calls)

theorem engineCalls_snoc (h : List (Event × Output)) (x : Event × Output) :
    engineCalls (h ++ [x]) = engineCalls h ++ x.2.calls := by
  simp [engineCalls]

/-- The digest of a `COMPLETE_ACK` that says `committed`. -/
def Sent.committed (m : Sent) : Option ResultDigest :=
  match m.message with
  | .completeAck p => if p.committed then some p.committedDigest else none
  | _ => none

/-- The commits acknowledged by the replies to a `COMPLETE` frame, with the
execution that the frame names. -/
def acksOf (ev : Event × Output) : List (ExecutionId × ResultDigest) :=
  match ev.1 with
  | .inbound _ .complete payload _ _ =>
    match unpackComplete payload with
    | .error _ => []
    | .ok cp => (ev.2.sent.filterMap Sent.committed).map fun d => (cp.ticket.executionId, d)
  | _ => []

/-- The commits acknowledged so far, over all incarnations. -/
def acks (h : List (Event × Output)) : List (ExecutionId × ResultDigest) := h.flatMap acksOf

theorem acks_snoc (h : List (Event × Output)) (x : Event × Output) :
    acks (h ++ [x]) = acks h ++ acksOf x := by
  simp [acks]

/-- Without a message nothing is acknowledged. -/
theorem acksOf_silent (ev : Event) (calls : List (Call × Outcome)) :
    acksOf (ev, { sent := [], calls }) = [] := by
  unfold acksOf
  split
  · split <;> rfl
  · rfl

/-! ### An acknowledged commit is a saved one -/

@[simp] theorem CompletePayload.filled_executionId (cp : CompletePayload) :
    (Turn.CompletePayload.filled cp).executionId = cp.ticket.executionId := by
  unfold Turn.CompletePayload.filled
  split <;> rfl

theorem commits_of_complete {s : ExecutionEngine} {t : CompletionTicket} {amb : Ambient}
    (hcode : (engine.out s ⟨.complete t, amb⟩).result.code = .allow) :
    (engine.next s ⟨.complete t, amb⟩).Commits t.executionId t.resultDigest := by
  have hallow : (engine.out s ⟨.complete t, amb⟩).allows := congrArg some hcode
  obtain ⟨r, -, -, -, -, -, hnext⟩ := complete_allows rfl hallow
  exact ⟨_, hnext, rfl, rfl⟩

/-- What is acknowledged is committed in the engine, and saved. -/
theorem Turn.onComplete_acks {k : Coordinator} {conn : ℕ} {amb : Ambient} {cp : CompletePayload}
    {d : ResultDigest} (hpersistent : k.persistent = true)
    (hd : d ∈ (Turn.onComplete { coordinator := k } conn amb cp).sent.filterMap Sent.committed) :
    (Turn.onComplete { coordinator := k } conn amb cp).coordinator.Saved ∧
      (Turn.onComplete { coordinator := k } conn amb cp).coordinator.engine.Commits
        cp.ticket.executionId d := by
  obtain ⟨m, hm, hcommitted⟩ := List.mem_filterMap.1 hd
  by_cases hcode : (engine.out k.engine ⟨.complete (CompletePayload.filled cp), amb⟩).result.code
      = .allow
  · have hcommits := commits_of_complete hcode
    rw [CompletePayload.filled_executionId] at hcommits
    simp only [Turn.onComplete, if_pos hcode] at hm ⊢
    rcases mem_send _ _ _ _ hm with hm | rfl
    · simp [Turn.call] at hm
    · rw [send_coordinator, persist_engine]
      refine ⟨persist_saved _ hpersistent, ?_⟩
      obtain ⟨r, hfind, -, hdigest⟩ := id hcommits
      have heq : (CompletePayload.filled cp).resultDigest = d := by
        simpa [Sent.committed, Turn.call, hfind, hdigest] using hcommitted
      exact heq ▸ hcommits
  · simp only [Turn.onComplete, if_neg hcode] at hm
    rcases mem_send _ _ _ _ hm with hm | rfl
    · simp [Turn.call] at hm
    · simp [Sent.committed] at hcommitted

/-! ### Recovered engines -/

namespace ExecutionEngine

theorem lookup_foldl_emplace (rs : List ExecutionRecord)
    (m : Finmap fun _ : ExecutionId => ExecutionRecord) (id : ExecutionId) :
    (rs.foldl emplace m).lookup id = (m.lookup id).or (rs.find? (·.id = id)) := by
  induction rs generalizing m with
  | nil => simp
  | cons r rs ih =>
      rw [List.foldl_cons, ih, emplace, List.find?_cons]
      by_cases hid : r.id = id
      · subst hid
        cases hlookup : m.lookup r.id <;> simp [hlookup]
      · have hne : id ≠ r.id := fun h => hid h.symm
        split
        · simp [hid]
        · simp [Finmap.lookup_insert_of_ne _ hne, hid]

/-- The records of a snapshot are installed as they were. -/
theorem find_replaceRecords {s : ExecutionEngine} (h : s.Keyed) (s₀ : ExecutionEngine)
    (id : ExecutionId) : (s₀.replaceRecords s.recordList).find id = s.find id := by
  have hlookup : (s₀.replaceRecords s.recordList).find id
      = s.recordList.find? (·.id = id) := by
    apply (lookup_foldl_emplace s.recordList ∅ id).trans
    rw [Finmap.lookup_empty, Option.none_or]
  rw [hlookup]
  have hmem : ∀ r ∈ s.recordList, s.find r.id = some r := by
    intro r hr
    obtain ⟨k, hk⟩ := mem_recordList.1 hr
    rw [(h k r hk).1, hk]
  cases hfound : s.recordList.find? (·.id = id) with
  | some r =>
      have hid : r.id = id := by simpa using List.find?_some hfound
      rw [← hid, hmem r (List.mem_of_find?_eq_some hfound)]
  | none =>
      rw [List.find?_eq_none] at hfound
      refine (Option.eq_none_iff_forall_not_mem.2 fun r hr => ?_).symm
      exact hfound r (mem_recordList.2 ⟨id, hr⟩) (by simpa using (h id r hr).1)

/-- Recovery adopts the highest epoch among the records. -/
theorem Keyed.replaceRecords {s : ExecutionEngine} (h : s.Keyed) (s₀ : ExecutionEngine) :
    (s₀.replaceRecords s.recordList).Keyed := by
  intro id r hfind
  have hentry := Finmap.lookup_eq_some_iff.1 hfind
  rw [find_replaceRecords h] at hfind
  exact ⟨(h id r hfind).1, le_fold_max_of_mem _ (Multiset.mem_map.2 ⟨_, hentry, rfl⟩)⟩

end ExecutionEngine

/-! ### Sound states -/

/-- A state that survives a save and a load, if it is not too large, and holds
the commits `acked`. Its attempts are among those drawn in the history `k`. -/
structure ExecutionEngine.Sound (k : History) (acked : List (ExecutionId × ResultDigest))
    (s : ExecutionEngine) : Prop where
  shaped : s.Every (·.Shaped)
  keyed : s.Keyed
  drawn : s.Drawn (draws k)
  distinct : s.Every (·.Distinct)
  named : s.Every (·.Named)
  acked : ∀ x ∈ acked, s.Commits x.1 x.2

namespace ExecutionEngine

variable {k k' : History} {acked : List (ExecutionId × ResultDigest)} {s t : ExecutionEngine}

theorem sound_init (k : History) (e₀ : CoordinatorEpoch) : (init e₀).Sound k [] where
  shaped := fun _ _ => nofun
  keyed := fun _ _ => nofun
  drawn := fun _ _ => nofun
  distinct := fun _ _ => nofun
  named := fun _ _ => nofun
  acked := fun _ => nofun

theorem Sound.next (h : s.Sound k acked) {c : Call} (hG : KeepsNamed s c)
    (hfresh : FreshIds (k ++ [(c, engine.out s c)])) :
    (engine.next s c).Sound (k ++ [(c, engine.out s c)]) acked where
  shaped := h.shaped.next shaped_newRecord fun effect => effect.shaped
  keyed := h.keyed.next c
  drawn := by
    rw [draws_append]
    exact h.drawn.next c
  distinct := distinct_next h.drawn (fun x hx y hy => hfresh.new hx hy) h.distinct
  named := named_next hG h.shaped h.named
  acked := fun x hx => (h.acked x hx).keeps (Runs.one c hG)

theorem Sound.runs (h : s.Sound k acked) (run : Runs engine KeepsNamed s k' t)
    (hfresh : FreshIds (k ++ k')) : t.Sound (k ++ k') acked := by
  induction run with
  | refl => simpa using h
  | snoc run c hG ih =>
      rw [← List.append_assoc] at hfresh ⊢
      exact (ih hfresh.left).next hG hfresh

theorem Sound.later (h : s.Sound k acked) (k' : History) : s.Sound (k ++ k') acked where
  shaped := h.shaped
  keyed := h.keyed
  drawn := by
    rw [draws_append]
    exact fun id r hfind a ha => List.mem_append_left _ (h.drawn id r hfind a ha)
  distinct := h.distinct
  named := h.named
  acked := h.acked

/-- All but the keys is a matter of the records. -/
theorem Sound.of_find (h : s.Sound k acked) (hfind : ∀ id, t.find id = s.find id)
    (hkeyed : t.Keyed) : t.Sound k acked where
  shaped := fun id r hr => h.shaped id r (hfind id ▸ hr)
  keyed := hkeyed
  drawn := fun id r hr => h.drawn id r (hfind id ▸ hr)
  distinct := fun id r hr => h.distinct id r (hfind id ▸ hr)
  named := fun id r hr => h.named id r (hfind id ▸ hr)
  acked := by
    intro x hx
    obtain ⟨r, hr, hcommit⟩ := h.acked x hx
    exact ⟨r, (hfind x.1).trans hr, hcommit⟩

theorem Sound.raiseEpoch (h : s.Sound k acked) (e : CoordinatorEpoch) :
    (s.raiseEpoch e).Sound k acked := by
  refine h.of_find (find_adoptEpoch s e) fun id r hr => ?_
  obtain ⟨hid, hepoch⟩ := h.keyed id r (find_adoptEpoch s e id ▸ hr)
  exact ⟨hid, hepoch.trans ((le_max_left _ _).trans (adoptEpoch_epoch s e).ge)⟩

theorem Sound.survives (h : s.Sound k acked) (hb : s.Bounded) (e : CoordinatorEpoch) :
    s.Survives e :=
  (survives_iff h.shaped h.keyed hb e).2 ⟨h.named, h.distinct⟩

/-- A coordinator started on a snapshot of a sound state has a sound engine. -/
theorem Sound.construct (h : s.Sound k acked) (hb : s.Bounded) (e e₀ : CoordinatorEpoch) :
    (Coordinator.construct true (some (save s.recordList e)) e₀).engine.Sound k acked := by
  have hrecovered : ((init e₀).replaceRecords s.recordList).Sound k acked :=
    h.of_find (find_replaceRecords h.keyed _) (h.keyed.replaceRecords _)
  simp only [Coordinator.construct, (h.survives hb e).2, if_true]
  split
  · exact hrecovered.raiseEpoch e
  · exact hrecovered

end ExecutionEngine

/-! ### Runs over several incarnations -/

/-- The guard of the runs whose snapshots load: the engine stays within the
limits of the file format, and no cancellation is accepted for an execution
that waits for its first dispatch. -/
def KeepsLoadable (k : Coordinator) (ev : Event) : Prop :=
  k.engine.Bounded ∧
    match ev with
    | .inbound _ .cancel payload _ _ =>
      ∀ req r, unpackCancel payload = .ok req → k.engine.find req.executionId = some r →
        r.state = .ready → req.Authorised k.engine.epoch r → r.currentAttemptId ≠ none
    | _ => True

theorem keepsNamed_of_plain {s : ExecutionEngine} {c : Call} (h : c.op.plain = true) :
    KeepsNamed s c := by
  constructor
  · intro req r hop
    rw [hop] at h
    cases h
  · intro id r hop
    rw [hop] at h
    cases h

/-- The file is absent as long as nothing was acknowledged, or a snapshot of a
sound state, perhaps of the engine as it is. -/
def Stored (h : List (Event × Output)) (k : Coordinator) : Prop :=
  (k.file = none ∧ acks h = []) ∨
    ∃ s e, k.file = some (save s.recordList e) ∧ s.Sound (engineCalls h) (acks h) ∧
      (s = k.engine ∨ s.Bounded)

/-- The invariant of the runs that keep the guard. -/
structure Safe (h : List (Event × Output)) (k : Coordinator) : Prop where
  persistent : k.persistent = true
  engine : k.engine.Sound (engineCalls h) (acks h)
  stored : Stored h k

theorem safe_construct (e₀ : CoordinatorEpoch) : Safe [] (.construct true none e₀) :=
  ⟨rfl, sound_init _ _, .inl ⟨rfl, rfl⟩⟩

variable {h : List (Event × Output)} {k : Coordinator} {ev : Event}

/-- What an entry of the queue acknowledges is committed and saved. -/
theorem mem_acksOf {conn : ℕ} {type : MsgType} {payload : ByteString} {amb : Ambient}
    {order : List ℕ} {t : Turn} {x : ExecutionId × ResultDigest}
    (hturn : t = Turn.decide { coordinator := k } conn type payload amb order)
    (hpersistent : k.persistent = true)
    (hx : x ∈ acksOf (.inbound conn type payload amb order,
      { sent := t.sent, calls := t.calls })) :
    t.coordinator.Saved ∧ t.coordinator.engine.Commits x.1 x.2 := by
  cases type
  case complete =>
    cases hcp : unpackComplete payload with
    | error e => simp [acksOf, hcp] at hx
    | ok cp =>
        have hcomplete : t = Turn.onComplete { coordinator := k } conn amb cp := by
          simpa [Turn.decide, Turn.handleFrame, Turn.given, hcp] using hturn
        subst hcomplete
        simp only [acksOf, hcp] at hx
        obtain ⟨d, hd, rfl⟩ := List.mem_map.1 hx
        exact Turn.onComplete_acks hpersistent hd
  all_goals cases hx

/-- A silent event that leaves the file alone and ends in a sound engine. -/
theorem Safe.silent {k' : Coordinator} (hsafe : Safe h k) (ev : Event)
    (hpersistent : k'.persistent = k.persistent) (hfile : k'.file = k.file)
    (hengine : k'.engine.Sound (engineCalls h) (acks h))
    (hsame : k'.engine = k.engine ∨ k.engine.Bounded) :
    Safe (h ++ [(ev, ({} : Output))]) k' := by
  have hcalls : engineCalls (h ++ [(ev, ({} : Output))]) = engineCalls h := by
    rw [engineCalls_snoc, List.append_nil]
  have hacks : acks (h ++ [(ev, ({} : Output))]) = acks h := by
    rw [acks_snoc, acksOf_silent, List.append_nil]
  refine ⟨hpersistent.trans hsafe.persistent, ?_, ?_⟩
  · rw [hcalls, hacks]
    exact hengine
  · rw [Stored, hcalls, hacks, hfile]
    apply hsafe.stored.imp_right
    -- the snapshot stays, and its engine is either still the current one or bounded
    rintro ⟨s, e, hs, hsound, hor⟩
    refine ⟨s, e, hs, hsound, ?_⟩
    rcases hor with rfl | hb
    · exact hsame.imp_left Eq.symm
    · exact .inr hb

theorem Safe.restart (hsafe : Safe h k) (hb : k.engine.Bounded) (e₀ : CoordinatorEpoch) :
    Safe (h ++ [(.restart e₀, ({} : Output))]) (.construct k.persistent k.file e₀) := by
  refine hsafe.silent _ (Coordinator.construct_persistent _ _ _)
    (Coordinator.construct_file _ _ _) ?_ (.inr hb)
  rw [hsafe.persistent]
  rcases hsafe.stored with ⟨hfile, hacks⟩ | ⟨s, e, hfile, hsound, hor⟩
  · rw [hfile, hacks]
    exact sound_init _ _
  · rw [hfile]
    refine hsound.construct ?_ e e₀
    rcases hor with rfl | hb
    · exact hb
    · exact hb

theorem Safe.turn {t : Turn} (hsafe : Safe h k) (hb : k.engine.Bounded)
    (hhandles : Turn.Handles KeepsNamed k t) (hfresh : FreshIds (engineCalls h ++ t.calls))
    (hacked : ∀ x ∈ acksOf (ev, { sent := t.sent, calls := t.calls }),
      t.coordinator.Saved ∧ t.coordinator.engine.Commits x.1 x.2) :
    Safe (h ++ [(ev, { sent := t.sent, calls := t.calls })]) t.coordinator := by
  have hran := hsafe.engine.runs hhandles.ran hfresh
  have hengine : t.coordinator.engine.Sound (engineCalls h ++ t.calls)
      (acks h ++ acksOf (ev, { sent := t.sent, calls := t.calls })) := by
    refine { hran with acked := fun x hx => ?_ }
    rcases List.mem_append.1 hx with hx | hx
    · exact hran.acked x hx
    · exact (hacked x hx).2
  refine ⟨hhandles.persistent.trans hsafe.persistent, ?_, ?_⟩
  · rw [engineCalls_snoc, acks_snoc]
    exact hengine
  · rw [Stored, engineCalls_snoc, acks_snoc]
    by_cases hsaved : t.coordinator.Saved
    · exact .inr ⟨_, _, hsaved, hengine, .inl rfl⟩
    · -- nothing was saved, so nothing was acknowledged
      have hnone : acksOf (ev, { sent := t.sent, calls := t.calls }) = [] :=
        List.eq_nil_iff_forall_not_mem.2 fun x hx => hsaved (hacked x hx).1
      rw [hnone, List.append_nil, hhandles.file.resolve_right hsaved]
      apply hsafe.stored.imp_right
      rintro ⟨s, e, hs, hsound, hor⟩
      refine ⟨s, e, hs, hsound.later _, .inr ?_⟩
      rcases hor with rfl | hb
      · exact hb
      · exact hb

theorem Safe.next (hsafe : Safe h k) (hG : KeepsLoadable k ev)
    (hfresh : FreshIds (engineCalls (h ++ [(ev, coordinator.out k ev)]))) :
    Safe (h ++ [(ev, coordinator.out k ev)]) (coordinator.next k ev) := by
  obtain ⟨hb, hcancel⟩ := hG
  cases ev with
  | accept => exact hsafe.silent _ rfl rfl hsafe.engine (.inl rfl)
  | restart e₀ => exact hsafe.restart hb e₀
  | inbound conn type payload amb order =>
      by_cases halive : k.alive = true
      · let t := Turn.decide { coordinator := k } conn type payload amb order
        have hstep : coordinator.step k (.inbound conn type payload amb order)
            = (t.coordinator, { sent := t.sent, calls := t.calls }) := if_pos halive
        have hout : coordinator.out k (.inbound conn type payload amb order)
            = { sent := t.sent, calls := t.calls } := congrArg Prod.snd hstep
        have hnext : coordinator.next k (.inbound conn type payload amb order) = t.coordinator :=
          congrArg Prod.fst hstep
        rw [hout, engineCalls_snoc] at hfresh
        rw [hout, hnext]
        refine hsafe.turn hb ?_ hfresh fun x hx => mem_acksOf rfl hsafe.persistent hx
        refine Turn.handles (fun s c => keepsNamed_of_plain) k conn type payload amb order ?_
        rintro req rfl hreq
        refine ⟨fun req' r hop hfind hstate auth => ?_, fun _ _ => nofun⟩
        obtain rfl : req = req' := Op.cancel.inj hop
        exact hcancel req r hreq hfind hstate auth
      · have hstep : coordinator.step k (.inbound conn type payload amb order) = (k, {}) :=
          if_neg halive
        rw [Machine.out, Machine.next, hstep]
        exact hsafe.silent _ rfl rfl hsafe.engine (.inl rfl)

theorem safe_of_runs {e₀ : CoordinatorEpoch}
    (run : Runs coordinator KeepsLoadable (.construct true none e₀) h k)
    (hfresh : FreshIds (engineCalls h)) : Safe h k := by
  induction run with
  | refl => exact safe_construct e₀
  | snoc run ev hG ih =>
      have hbefore := hfresh
      rw [engineCalls_snoc] at hbefore
      exact (ih hbefore.left).next hG hfresh

/-- Over all incarnations, the acknowledged commits of an execution carry one
digest. -/
theorem acknowledged_once {e₀ : CoordinatorEpoch}
    (run : Runs coordinator KeepsLoadable (.construct true none e₀) h k)
    (hfresh : FreshIds (engineCalls h)) {id : ExecutionId} {d d' : ResultDigest}
    (hd : (id, d) ∈ acks h) (hd' : (id, d') ∈ acks h) : d = d' := by
  have hsafe := safe_of_runs run hfresh
  exact (hsafe.engine.acked _ hd).unique (hsafe.engine.acked _ hd')

theorem acknowledged_once_sample :
    (Sample.execution, Sample.digest 7) ∈
        acks (coordinator.trace (.construct true none ⟨1⟩)
          (Sample.serving 10 1 7 ++ [.restart ⟨2⟩])) ∧
      ∀ d, (Sample.execution, d) ∈
        acks (coordinator.trace (.construct true none ⟨1⟩)
          (Sample.serving 10 1 7 ++ [.restart ⟨2⟩])) → d = Sample.digest 7 := by
  have hmeets : coordinator.Meets KeepsLoadable (.construct true none ⟨1⟩)
      (Sample.serving 10 1 7 ++ [.restart ⟨2⟩]) := by
    refine ⟨⟨?_, trivial⟩, ⟨?_, trivial⟩, ⟨?_, trivial⟩, ⟨?_, trivial⟩, ⟨?_, trivial⟩,
      ⟨?_, trivial⟩, trivial⟩ <;> decide +kernel
  have hacked : (Sample.execution, Sample.digest 7) ∈
      acks (coordinator.trace (.construct true none ⟨1⟩)
        (Sample.serving 10 1 7 ++ [.restart ⟨2⟩])) := by decide +kernel
  exact ⟨hacked, fun d hd =>
    acknowledged_once (runs_trace _ _ _ hmeets) (by decide +kernel) hd hacked⟩

/-- The condition on restarts: each is given a larger epoch. -/
def Raises (k : Coordinator) : Event → Prop
  | .restart e => k.epoch < e
  | _ => True

set_option maxRecDepth 20000 in
/-- A cancellation of another execution makes the file unreadable, and the
commit of the first is made and acknowledged twice. -/
theorem acknowledged_twice :
    ¬∀ e₀ h k, Runs coordinator Raises (.construct true none e₀) h k → FreshIds (engineCalls h) →
      ∀ id d d', (id, d) ∈ acks h → (id, d') ∈ acks h → d = d' := by
  intro hclaim
  let events := Sample.serving 10 1 7 ++ Sample.withdrawing ++ [.restart ⟨2⟩]
    ++ Sample.serving 20 2 8
  have hmeets : coordinator.Meets Raises (.construct true none ⟨1⟩) events := by
    refine ⟨trivial, trivial, trivial, trivial, trivial, trivial, trivial, ?_, trivial, trivial,
      trivial, trivial, trivial, trivial⟩
    show _ < _
    decide +kernel
  have hfacts : FreshIds (engineCalls (coordinator.trace (.construct true none ⟨1⟩) events)) ∧
      (Sample.execution, Sample.digest 7) ∈
        acks (coordinator.trace (.construct true none ⟨1⟩) events) ∧
      (Sample.execution, Sample.digest 8) ∈
        acks (coordinator.trace (.construct true none ⟨1⟩) events) := by decide +kernel
  obtain ⟨hfresh, hfirst, hsecond⟩ := hfacts
  have hsame : Sample.digest 7 = Sample.digest 8 :=
    hclaim ⟨1⟩ _ _ (runs_trace _ _ _ hmeets) hfresh Sample.execution _ _ hfirst hsecond
  revert hsame
  decide

end ExecutionFabric
