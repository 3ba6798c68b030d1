import ExecutionFabric.Persistence.RoundTrip

/-!
Impossible histories that load.

The engine relies on more than `decode_record` checks. `Sound` lists it: how
generations run along the attempts, which attempt is the current one, whose it
is, and how commit generation, digest and state go together. The validation
looks at the attempts one at a time and at the current one by its identifier,
so a file can spell a record that is valid and still has no history.

What is missing can be said as a test of the record alone (`linked`): each
attempt against its neighbour, the current attempt against the last one that
was not superseded and against the owner, the commit generation against one,
the digest against the state. On valid records it is exactly what `Sound` asks
(`sound_iff`), and a file loads sound records exactly when all records it
spells pass it.
-/

namespace ExecutionFabric

namespace ExecutionRecord

/-- What the engine relies on. -/
structure Sound (r : ExecutionRecord) : Prop where
  generations : (r.attempts.map (·.generation)).Pairwise (· < ·)
  ownership : (r.attempts.map (·.ownershipGeneration)).Pairwise (· ≤ ·)
  fence : (r.attempts.map (·.fenceGeneration)).Pairwise (· ≤ ·)
  current : ∀ id, r.currentAttemptId = some id → ∃ before a after,
    r.attempts = before ++ a :: after ∧ a.id = id ∧ a.state ≠ .superseded ∧
      ∀ b ∈ after, b.state = .superseded
  commit : r.commitGeneration.value ≤ 1
  digest : r.committedDigest.isSome = true ↔ r.state = .committed
  owner : ∀ a ∈ r.attempts, some a.id = r.currentAttemptId →
    r.ownerWorker = some a.workerId ∧ r.ownerWorkerBoot = some a.workerBootId

/-- An attempt may come right before another. -/
def Precedes (a b : AttemptRecord) : Prop :=
  a.generation < b.generation ∧ a.ownershipGeneration ≤ b.ownershipGeneration ∧
    a.fenceGeneration ≤ b.fenceGeneration

instance : DecidableRel Precedes := fun _ _ => inferInstanceAs (Decidable (_ ∧ _))

/-- The current attempt is the last that was not superseded, and owns the
execution. -/
def currentLinked (r : ExecutionRecord) : Bool :=
  r.currentAttemptId.all fun id =>
    (r.attempts.reverse.find? (·.state != .superseded)).any fun a =>
      a.id == id && r.ownerWorker == some a.workerId && r.ownerWorkerBoot == some a.workerBootId

/-- The checks that `decode_record` leaves out. -/
def linked (r : ExecutionRecord) : Bool :=
  decide (r.attempts.IsChain Precedes) && r.currentLinked && decide (r.commitGeneration.value ≤ 1) &&
    (r.committedDigest.isNone || decide (r.state = .committed))

variable {r : ExecutionRecord}

instance : Trans Precedes Precedes Precedes where
  trans h₁ h₂ := ⟨h₁.1.trans h₂.1, h₁.2.1.trans h₂.2.1, h₁.2.2.trans h₂.2.2⟩

theorem isChain_precedes_iff {as : List AttemptRecord} :
    as.IsChain Precedes ↔ (as.map (·.generation)).Pairwise (· < ·) ∧
      (as.map (·.ownershipGeneration)).Pairwise (· ≤ ·) ∧
      (as.map (·.fenceGeneration)).Pairwise (· ≤ ·) := by
  rw [List.isChain_iff_pairwise, List.pairwise_map, List.pairwise_map, List.pairwise_map,
    ← List.pairwise_and_iff, ← List.pairwise_and_iff]
  rfl

/-- The last attempt that was not superseded, and what comes after it. -/
theorem find?_reverse_iff {as : List AttemptRecord} {a : AttemptRecord} :
    as.reverse.find? (·.state != .superseded) = some a ↔
      a.state ≠ .superseded ∧ ∃ before after, as = before ++ a :: after ∧
        ∀ b ∈ after, b.state = .superseded := by
  rw [List.find?_eq_some_iff_append]
  constructor
  · rintro ⟨hstate, after, before, heq, hafter⟩
    refine ⟨by simpa using hstate, before.reverse, after.reverse, ?_, fun b hb => ?_⟩
    · rw [← List.reverse_reverse as, heq]
      simp
    · simpa using hafter b (List.mem_reverse.1 hb)
  · rintro ⟨hstate, before, after, rfl, hafter⟩
    exact ⟨by simpa using hstate, after.reverse, before.reverse, by simp,
      fun b hb => by simpa using hafter b (List.mem_reverse.1 hb)⟩

theorem currentLinked_iff (h : r.Valid) :
    r.currentLinked = true ↔
      (∀ id, r.currentAttemptId = some id → ∃ before a after,
        r.attempts = before ++ a :: after ∧ a.id = id ∧ a.state ≠ .superseded ∧
          ∀ b ∈ after, b.state = .superseded) ∧
      (∀ a ∈ r.attempts, some a.id = r.currentAttemptId →
        r.ownerWorker = some a.workerId ∧ r.ownerWorkerBoot = some a.workerBootId) := by
  rw [currentLinked]
  cases hcurrent : r.currentAttemptId with
  | none => simp
  | some id =>
      simp only [Option.all_some, Option.any_eq_true, Bool.and_eq_true, beq_iff_eq,
        Option.some.injEq, forall_eq']
      constructor
      · rintro ⟨a, hlast, ⟨hid, hworker⟩, hboot⟩
        obtain ⟨hstate, before, after, heq, hafter⟩ := find?_reverse_iff.1 hlast
        refine ⟨⟨before, a, after, heq, hid, hstate, hafter⟩, fun b hb hbid => ?_⟩
        -- the identifiers are distinct, so that `b` is `a`
        have ha : a ∈ r.attempts := by simp [heq]
        obtain rfl := List.inj_on_of_nodup_map h.attemptIds hb ha (hbid.trans hid.symm)
        exact ⟨hworker, hboot⟩
      · rintro ⟨⟨before, a, after, heq, hid, hstate, hafter⟩, howner⟩
        obtain ⟨hworker, hboot⟩ := howner a (by simp [heq]) hid
        exact ⟨a, find?_reverse_iff.2 ⟨hstate, before, after, heq, hafter⟩, ⟨hid, hworker⟩, hboot⟩

/-- On valid records the missing checks are exactly what is missing. -/
theorem sound_iff (h : r.Valid) : r.Sound ↔ r.linked = true := by
  rw [linked, Bool.and_eq_true, Bool.and_eq_true, Bool.and_eq_true, currentLinked_iff h,
    decide_eq_true_eq, isChain_precedes_iff, decide_eq_true_eq, Bool.or_eq_true,
    decide_eq_true_eq, Option.isNone_iff_eq_none]
  constructor
  · rintro ⟨hgenerations, hownership, hfence, hcurrent, hcommit, hdigest, howner⟩
    refine ⟨⟨⟨⟨hgenerations, hownership, hfence⟩, hcurrent, howner⟩, hcommit⟩, ?_⟩
    by_cases hsome : r.committedDigest = none
    · exact .inl hsome
    · exact .inr (hdigest.1 (Option.isSome_iff_ne_none.2 hsome))
  · rintro ⟨⟨⟨⟨hgenerations, hownership, hfence⟩, hcurrent, howner⟩, hcommit⟩, hdigest⟩
    refine ⟨hgenerations, hownership, hfence, hcurrent, hcommit, ⟨fun hsome => ?_, fun hst => ?_⟩,
      howner⟩
    · exact hdigest.resolve_left (Option.isSome_iff_ne_none.1 hsome)
    · exact Option.isSome_iff_ne_none.2 (h.committed hst).1

end ExecutionRecord

/-- A file loads sound records only, exactly when all records it spells pass
the missing checks. -/
theorem loaded_sound_iff (file : Option ByteString) :
    (∀ rs epoch, load file = .ok (rs, epoch) → ∀ r ∈ rs, r.Sound) ↔
      ∀ rs epoch, FileSpelled file rs epoch → ∀ r ∈ rs, r.linked = true := by
  constructor
  · intro h rs epoch hspelled r hr
    exact (ExecutionRecord.sound_iff (hspelled.valid r hr)).1 (h rs epoch hspelled.load r hr)
  · intro h rs epoch hload r hr
    have hspelled := spelled_of_load hload
    exact (ExecutionRecord.sound_iff (hspelled.valid r hr)).2 (h rs epoch hspelled r hr)

namespace Sample

/-- A record that runs the attempt of one worker, is owned by another, and has
committed twice. -/
def impossibleRecord : ExecutionRecord :=
  { storedRecord with
    state := .running
    ownerWorker := some (Id.random ⟨5, 0⟩)
    commitGeneration := ⟨2⟩ }

theorem impossible_loads : load (some (save [impossibleRecord] ⟨1⟩))
    = .ok ([impossibleRecord], ⟨1⟩) := by
  refine load_save ⟨by decide, fun r hr => ?_, fun r hr => ?_, by simp⟩ (fun r hr => ?_) ⟨1⟩
  · obtain rfl := List.mem_singleton.1 hr
    have hfits := storable_storedRecord.fits storedRecord (List.mem_singleton_self _)
    exact ⟨hfits.count, hfits.attempts, hfits.createdAt, hfits.committedAt⟩
  · obtain rfl := List.mem_singleton.1 hr
    decide +kernel
  · obtain rfl := List.mem_singleton.1 hr
    exact validate_iff.1 rfl

end Sample

/-- The validation lets it pass. -/
theorem impossible_history_loads :
    ¬∀ file rs epoch, load file = .ok (rs, epoch) → ∀ r ∈ rs, r.Sound := by
  intro hclaim
  have hsound := hclaim _ _ _ Sample.impossible_loads _ (List.mem_singleton_self _)
  exact absurd hsound.commit (by decide)

end ExecutionFabric
