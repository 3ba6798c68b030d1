import ExecutionFabric.Engine.Authority
import ExecutionFabric.Persistence.RoundTrip

/-!
Which states of the engine survive a save and a load?

The validation of `decode_record` was written apart from the transitions. On
the records of a run it asks for two things that are not always there
(`Shaped.valid_iff`). A record in a state with an operation in flight must name
its current attempt: a cancellation accepted before anything was dispatched,
or authority dropped by a `supersede` that is rejected, leave one that does
not. And the identifiers of the attempts must differ, which they do when they
are drawn fresh. One such record makes the snapshot unreadable.
-/

namespace ExecutionFabric

open Collections StepMachine ExecutionEngine ExecutionStateMachine History

/-! ### Records -/

namespace ExecutionState

/-- The states in which an operation on the current attempt is in flight. -/
def inFlight (st : ExecutionState) : Bool :=
  st ∈ [cancellationRequested, preemptionRequested, resuming]

theorem active_iff {st : ExecutionState} :
    st.active = true ↔ (st = dispatched ∨ st = running) ∨ st.inFlight = true := by
  cases st <;> simp [active, inFlight]

end ExecutionState

namespace ExecutionRecord

/-- With an operation in flight, the record names its current attempt. -/
def Named (r : ExecutionRecord) : Prop := r.state.inFlight = true → r.currentAttemptId ≠ none

theorem Held.owned {r : ExecutionRecord} (h : r.Held) :
    r.currentAttemptId ≠ none ∧ r.ownerWorker ≠ none ∧ r.ownerWorkerBoot ≠ none := by
  obtain ⟨a, -, held⟩ := h
  have hattempt : r.currentAttemptId = _ := held.attempt
  have hworker : r.ownerWorker = _ := held.worker
  have hboot : r.ownerWorkerBoot = _ := held.boot
  exact ⟨by rw [hattempt]; exact nofun, by rw [hworker]; exact nofun, by rw [hboot]; exact nofun⟩

/-- The validation of a record of a run. -/
theorem Shaped.valid_iff {r : ExecutionRecord} (h : r.Shaped) : r.Valid ↔ r.Named ∧ r.Distinct := by
  constructor
  · intro hv
    refine ⟨fun hstate => (hv.owned (ExecutionState.active_iff.2 (.inr hstate))).1, ?_, ?_⟩
    · rw [r.map_lineage (·.id) fun _ => rfl]
      exact hv.attemptIds
    · rw [r.map_lineage (·.dispatchId) fun _ => rfl]
      exact hv.dispatchIds
  · rintro ⟨hnamed, hids, hdispatches⟩
    rw [r.map_lineage (·.id) fun _ => rfl] at hids
    rw [r.map_lineage (·.dispatchId) fun _ => rfl] at hdispatches
    refine ⟨h.generation, hids, hdispatches, fun a ha => ?_, fun id hcurrent => ?_, h.committed,
      fun hactive => ?_⟩
    · have hmade := h.made _ (ident_mem_lineage ha)
      exact ⟨hmade.generation, hmade.dispatchGeneration⟩
    · obtain ⟨a, ha, -, held⟩ := (h.holding.held hcurrent).current
      exact ⟨a, ha, Option.some.inj (held.attempt.symm.trans hcurrent), held.attemptGeneration⟩
    · rcases ExecutionState.active_iff.1 hactive with (hstate | hstate) | hstate
      · exact (h.held (by rw [hstate]; rfl)).owned
      · exact (h.held (by rw [hstate]; rfl)).owned
      · obtain ⟨id, hcurrent⟩ := Option.ne_none_iff_exists'.1 (hnamed hstate)
        exact (h.holding.held hcurrent).owned

/-- The texts of a record of a run are short. -/
theorem Shaped.fits {r : ExecutionRecord} (h : r.Shaped) (hcount : r.attempts.length ≤ 2 ^ 20) :
    r.Fits where
  count := hcount
  attempts := by
    intro a ha
    have hmade := h.made _ (ident_mem_lineage ha)
    exact ⟨fun s hs => absurd (hmade.payload.symm.trans hs) nofun,
      fun s hs => absurd (hmade.failure.symm.trans hs) nofun⟩
  createdAt := h.stamped.1.le.trans (by decide)
  committedAt := h.stamped.2.le.trans (by decide)

end ExecutionRecord

/-! ### Snapshots of the engine -/

namespace ExecutionEngine

theorem mem_recordList {s : ExecutionEngine} {r : ExecutionRecord} :
    r ∈ s.recordList ↔ ∃ id, s.find id = some r := by
  simp only [recordList, List.mem_filterMap, mem_sortKeys, Finmap.mem_keys]
  constructor
  · rintro ⟨id, -, hfind⟩
    exact ⟨id, hfind⟩
  · rintro ⟨id, hfind⟩
    exact ⟨id, Finmap.mem_of_lookup_eq_some hfind, hfind⟩

/-- The records are listed once each, by identity. -/
theorem Keyed.map_id {s : ExecutionEngine} (h : s.Keyed) :
    s.recordList.map (·.id) = sortKeys s.records.keys := by
  rw [recordList, List.map_filterMap]
  refine (List.filterMap_congr fun id hid => ?_).trans List.filterMap_some
  rw [mem_sortKeys, Finmap.mem_keys] at hid
  obtain ⟨r, hr⟩ := Finmap.mem_iff.1 hid
  have hfind : s.find id = some r := hr
  rw [hfind, Option.map_some, (h id r hfind).1]

/-- The engine is within the limits of the file format. -/
def Bounded (s : ExecutionEngine) : Prop :=
  s.recordList.length ≤ 2 ^ 20 ∧ ∀ r ∈ s.recordList,
    r.attempts.length ≤ 2 ^ 20 ∧ (encodeRecord r).length ≤ 64 * 1024 * 1024

instance (s : ExecutionEngine) : Decidable s.Bounded := inferInstanceAs (Decidable (_ ∧ _))

/-- Every record is decoded to itself, and the snapshot loads to what was saved. -/
def Survives (s : ExecutionEngine) (e : CoordinatorEpoch) : Prop :=
  (∀ r ∈ s.recordList, decodeRecord (encodeRecord r) = .ok r) ∧
    load (some (save s.recordList e)) = .ok (s.recordList, e)

theorem Bounded.storable {s : ExecutionEngine} (h : s.Bounded) (hshaped : s.Every (·.Shaped))
    (hkeyed : s.Keyed) : Storable s.recordList where
  count := h.1
  fits := by
    intro r hr
    obtain ⟨id, hfind⟩ := mem_recordList.1 hr
    exact (hshaped id r hfind).fits (h.2 r hr).1
  size := fun r hr => (h.2 r hr).2
  ids := by
    rw [hkeyed.map_id]
    exact nodup_sortKeys _

theorem survives_iff {s : ExecutionEngine} (hshaped : s.Every (·.Shaped)) (hkeyed : s.Keyed)
    (hb : s.Bounded) (e : CoordinatorEpoch) :
    s.Survives e ↔ s.Every (·.Named) ∧ s.Every (·.Distinct) := by
  have hstorable := hb.storable hshaped hkeyed
  have hvalid : ∀ r ∈ s.recordList,
      (decodeRecord (encodeRecord r) = .ok r ↔ r.Named ∧ r.Distinct) := by
    intro r hr
    obtain ⟨id, hfind⟩ := mem_recordList.1 hr
    exact (decode_encode_iff (hstorable.fits r hr)).trans (hshaped id r hfind).valid_iff
  constructor
  · rintro ⟨hdecode, -⟩
    have hall : ∀ id r, s.find id = some r → r.Named ∧ r.Distinct := fun id r hfind =>
      have hr := mem_recordList.2 ⟨id, hfind⟩
      (hvalid r hr).1 (hdecode r hr)
    exact ⟨fun id r hfind => (hall id r hfind).1, fun id r hfind => (hall id r hfind).2⟩
  · rintro ⟨hnamed, hdistinct⟩
    have hdecode : ∀ r ∈ s.recordList, decodeRecord (encodeRecord r) = .ok r := by
      intro r hr
      obtain ⟨id, hfind⟩ := mem_recordList.1 hr
      exact (hvalid r hr).2 ⟨hnamed id r hfind, hdistinct id r hfind⟩
    exact ⟨hdecode, load_save hstorable
      (fun r hr => (decode_encode_iff (hstorable.fits r hr)).1 (hdecode r hr)) e⟩

end ExecutionEngine

/-! ### Runs that keep every record named -/

/-- The guard of the runs whose snapshots load: no accepted cancellation of a
waiting execution without an attempt, and no supersession of an execution with
an operation in flight. -/
def KeepsNamed (s : ExecutionEngine) (c : Call) : Prop :=
  (∀ req r, c.op = .cancel req → s.find req.executionId = some r → r.state = .ready →
    req.Authorised s.epoch r → r.currentAttemptId ≠ none) ∧
  ∀ id r, c.op = .supersede id r.coordinatorEpoch → s.find id = some r →
    r.state.inFlight = true → r.coordinatorEpoch ≠ s.epoch

theorem Effect.named {e : CoordinatorEpoch} {amb : Ambient} {r r' : ExecutionRecord} {op : Op}
    {o : Outcome} (effect : Effect e amb r op o r') (hshaped : r.Shaped)
    (hcancel : ∀ req, op = .cancel req → r.state = .ready → req.Authorised e r →
      r.currentAttemptId ≠ none)
    (hsupersede : ∀ id, op = .supersede id e → r.coordinatorEpoch = e → r.state.inFlight = false)
    (h : r.Named) : r'.Named := by
  have hother : ∀ {r' : ExecutionRecord}, r'.state.inFlight = false → r'.Named :=
    fun hstate hflight => absurd (hstate.symm.trans hflight) Bool.false_ne_true
  cases effect with
  | activated => exact hother rfl
  | dispatched => exact hother rfl
  | dispatchStuck => exact fun _ => Option.some_ne_none _
  | started => exact hother rfl
  | committed => exact hother rfl
  | completeStuck => exact h
  | cancelledEarly => exact hother rfl
  | cancelRequested auth hstate gives =>
      intro _
      have hor : r.state = .ready ∨ r.state = .dispatched ∨ r.state = .running := by
        simpa [ExecutionState.cancellable] using hstate
      rcases hor with hstate | hstate | hstate
      · exact hcancel _ rfl hstate auth
      · exact (hshaped.held (by rw [hstate]; rfl)).owned.1
      · exact (hshaped.held (by rw [hstate]; rfl)).owned.1
  | cancelStuck => exact h
  | cancelFinalized => exact hother rfl
  | preemptRequested auth hstate gives =>
      intro _
      rcases hstate with hstate | hstate
      · exact (hshaped.held (by rw [hstate]; rfl)).owned.1
      · exact (hshaped.held (by rw [hstate]; rfl)).owned.1
  | preemptAcknowledged => exact hother rfl
  | madeResumable => exact hother rfl
  | resumed => exact fun _ => Option.some_ne_none _
  | lost hcur hrec hworker hboot hstate gives =>
      rcases ExecutionState.lossTarget_cases hstate with ⟨-, rfl⟩ | ⟨-, rfl⟩ | ⟨-, rfl⟩ | ⟨-, rfl⟩
        <;> exact hother rfl
  | superseded => exact hother rfl
  | supersedeStuck hrec hstate hlive gives => exact hother (hsupersede _ rfl hrec)

theorem named_next {s : ExecutionEngine} {c : Call} (hG : KeepsNamed s c)
    (hshaped : s.Every (·.Shaped)) (h : s.Every (·.Named)) : (engine.next s c).Every (·.Named) := by
  intro id r' hfind'
  cases origin hfind' with
  | idle hx => exact h id r' hx
  | created => exact nofun
  | @acted r _ hx htarget hcur effect =>
      -- neither a cancellation nor a supersession moves the epoch
      refine effect.named (hshaped id r hx) ?_ ?_ (h id r hx)
      · intro req hop hstate auth
        have hsame : (engine.next s c).epoch = s.epoch :=
          epoch_next (by rw [hop]; rfl) (by rw [hop]; exact nofun)
        rw [hop] at htarget
        obtain rfl : req.executionId = id := Option.some.inj htarget
        exact hG.1 req r hop hx hstate (hsame ▸ auth)
      · intro k hop hrec
        have hsame : (engine.next s c).epoch = s.epoch :=
          epoch_next (by rw [hop]; rfl) (by rw [hop]; exact nofun)
        rw [hop] at htarget
        obtain rfl : k = id := Option.some.inj htarget
        by_contra hflight
        exact hG.2 k r (by rw [hop, hrec]) hx (by simpa using hflight) (hrec.trans hsame)

theorem Reachable.everyShaped {s : ExecutionEngine} (hs : Reachable s) : s.Every (·.Shaped) :=
  fun _ _ hfind => hs.shaped hfind

theorem Reachable.allKeyed {s : ExecutionEngine} (hs : Reachable s) : s.Keyed :=
  fun _ _ hfind => hs.keyed hfind

theorem named_of_runs {e₀ : CoordinatorEpoch} {h : History} {s : ExecutionEngine}
    (run : Runs engine KeepsNamed (init e₀) h s) : s.Every (·.Named) := by
  induction run with
  | refl => exact fun _ _ => nofun
  | snoc run c hG ih => exact named_next hG (reachable_of_runs run).everyShaped ih

/-- A state survives a save and a load exactly when its records in flight name
their attempt and its attempts are told apart by their identifiers. Every state
of a run that keeps the guard, with fresh identifiers, does. -/
theorem engine_survives {e₀ : CoordinatorEpoch} {h : History} {s : ExecutionEngine}
    (run : Runs engine Always (init e₀) h s) (hb : s.Bounded) (e : CoordinatorEpoch) :
    (s.Survives e ↔ s.Every (·.Named) ∧ s.Every (·.Distinct)) ∧
      (Runs engine KeepsNamed (init e₀) h s → FreshIds h → s.Survives e) := by
  have hs : Reachable s := reachable_of_runs run
  have hiff := survives_iff hs.everyShaped hs.allKeyed hb e
  exact ⟨hiff, fun hguard hfresh => hiff.2 ⟨named_of_runs hguard, distinct_of_runs run hfresh⟩⟩

theorem engine_survives_sample :
    (engine.run (init ⟨1⟩) Sample.dispatching).Survives ⟨1⟩ := by
  have hmeets : engine.Meets KeepsNamed (init ⟨1⟩) Sample.dispatching := by
    refine ⟨⟨?_, ?_⟩, ⟨?_, ?_⟩, ⟨?_, ?_⟩, trivial⟩ <;>
      · intro _ _ hop
        cases hop
  have hboth := engine_survives (runs_always engine (init ⟨1⟩) Sample.dispatching) (by decide +kernel) ⟨1⟩
  exact hboth.2 (runs_trace _ _ _ hmeets) (by decide +kernel)

/-- The record of an execution cancelled before its first dispatch. -/
def Sample.cancelledEarly : ExecutionRecord :=
  { Sample.readied with cancellationGeneration := ⟨1⟩, state := .cancellationRequested }

/-- A cancellation accepted before the first dispatch makes the snapshot
unreadable. -/
theorem engine_lost :
    ¬∀ s : ExecutionEngine, Reachable s → s.Bounded → ∀ e, s.Survives e := by
  intro hclaim
  let calls := Sample.readying ++ [Sample.call (.cancel
    { Sample.cancelRequest with authorityGeneration := ⟨1⟩ })]
  have hs : Reachable (engine.run (init ⟨1⟩) calls) :=
    reachable_run _ _
  have hfind : (engine.run (init ⟨1⟩) calls).find Sample.execution
      = some Sample.cancelledEarly := by decide +kernel
  have hb : (engine.run (init ⟨1⟩) calls).Bounded := by decide +kernel
  have hall := (survives_iff hs.everyShaped hs.allKeyed hb ⟨1⟩).1 (hclaim _ hs hb ⟨1⟩)
  exact hall.1 Sample.execution _ hfind rfl rfl

end ExecutionFabric
