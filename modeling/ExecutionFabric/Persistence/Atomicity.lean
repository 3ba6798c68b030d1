import ExecutionFabric.Library.Interruption
import ExecutionFabric.Persistence.RoundTrip

/-!
What does an interrupted save leave behind?

A save writes the new snapshot to a temporary file, byte by byte, and then puts
it in the place of the old one. Where the system has no call that does this in
one step, the source removes the target and then renames the temporary file.
Up to the removal the target holds the old snapshot, after the renaming the
new one. In between there is nothing at the path, although both snapshots were
complete (`save_loses_both`), and a rename that fails leaves it that way.
`save_atomic_iff` says that this is the only such point.
-/

namespace ExecutionFabric

open Interruption

/-! ### The steps of a save -/

/-- The file at the path, and the one at the path with `.tmp` appended. -/
structure Disk where
  target : Option ByteString
  tmp : Option ByteString

namespace Disk

/-- `std::ofstream` with `std::ios::trunc`. -/
def openTmp (d : Disk) : Disk := { d with tmp := some [] }

/-- One byte of `write`. -/
def writeTmp (b : UInt8) (d : Disk) : Disk := { d with tmp := d.tmp.map (· ++ [b]) }

/-- `remove`; that there was nothing to remove is not an error. -/
def removeTarget (d : Disk) : Disk := { d with target := none }

/-- `rename`, which takes the place of whatever is at the path. -/
def renameTmp (d : Disk) : Disk :=
  match d.tmp with
  | some bytes => { target := some bytes, tmp := none }
  | none => d

end Disk

/-- `write_all`. An error that shows only when the stream is closed goes
unnoticed in the source, and is not a failure here. -/
def writeAll (data : ByteString) : List (Disk → Disk) := Disk.openTmp :: data.map Disk.writeTmp

/-- `replace_file`, without the branch for Windows. -/
def replaceFile : List (Disk → Disk) := [Disk.removeTarget, Disk.renameTmp]

/-- The steps of `FilePersistenceStore::save` on the file system. -/
def saveSteps (records : List ExecutionRecord) (epoch : CoordinatorEpoch) : List (Disk → Disk) :=
  writeAll (save records epoch) ++ replaceFile

/-- The save gets past the removal and not past the renaming. -/
def Torn (fate : ℕ → Fate) (data : ByteString) : Prop :=
  (∀ i < data.length + 2, fate i = .performed) ∧ fate (data.length + 2) ≠ .performed

section

variable {data : ByteString} {fate : ℕ → Fate} {d : Disk}

theorem length_writeAll : (writeAll data).length = data.length + 1 := by
  simp [writeAll]

/-- Once everything is written, the temporary file holds it. -/
theorem foldl_writeAll :
    (writeAll data).foldl (fun d step => step d) d = { d with tmp := some data } := by
  have hwrite : ∀ written, (data.map Disk.writeTmp).foldl (fun d step => step d)
      { d with tmp := some written } = { d with tmp := some (written ++ data) } := by
    induction data with
    | nil => simp
    | cons b data ih =>
        intro written
        have hbyte : Disk.writeTmp b { d with tmp := some written }
            = { d with tmp := some (written ++ [b]) } := rfl
        rw [List.map_cons, List.foldl_cons, hbyte, ih]
        simp
  exact hwrite []

/-- Writing the temporary file leaves the target alone, wherever it ends. -/
theorem target_writeAll : (carryOut (writeAll data) fate d).1.target = d.target := by
  refine carryOut_preserves (P := fun d' : Disk => d'.target = d.target) (fun x hx d' hd' => ?_) rfl
  -- the file is opened, or one byte is written
  rcases List.mem_cons.1 hx with rfl | hx
  · exact hd'
  · obtain ⟨b, -, rfl⟩ := List.mem_map.1 hx
    exact hd'

/-- The target after a save that was perhaps interrupted. -/
theorem target_save (data : ByteString) (fate : ℕ → Fate) (d : Disk) :
    (carryOut (writeAll data ++ replaceFile) fate d).1.target =
      if ∀ i < data.length + 2, fate i = .performed then
        if fate (data.length + 2) = .performed then some data else none
      else d.target := by
  by_cases hwritten : ∀ i < data.length + 1, fate i = .performed
  · have hinit : ∀ i < (writeAll data).length, fate i = .performed := by
      rw [length_writeAll]
      exact hwritten
    rw [carryOut_append hinit, foldl_writeAll, length_writeAll]
    have hsplit : (∀ i < data.length + 2, fate i = .performed) ↔
        fate (data.length + 1) = .performed := by
      constructor
      · exact fun h => h _ (Nat.lt_succ_self _)
      · intro hlast i hi
        rcases Nat.lt_succ_iff_lt_or_eq.1 hi with hi | rfl
        · exact hwritten i hi
        · exact hlast
    simp only [hsplit]
    -- the two steps that are left
    rw [replaceFile, carryOut, Nat.zero_add]
    cases hremove : fate (data.length + 1) with
    | failed => simp
    | stopped => simp
    | performed =>
        have hindex : 0 + 1 + (data.length + 1) = data.length + 2 := by omega
        simp only [carryOut, if_true, hindex]
        cases fate (data.length + 2) <;> simp [Disk.removeTarget, Disk.renameTmp]
  · have hnot : ¬∀ i < data.length + 2, fate i = .performed := fun h =>
      hwritten fun i hi => h i (Nat.lt_succ_of_lt hi)
    obtain ⟨i, hi, hfate⟩ : ∃ i, i < data.length + 1 ∧ fate i ≠ .performed := by
      simpa using hwritten
    -- the save ended while the temporary file was being written
    rw [if_neg hnot, carryOut_cut (length_writeAll ▸ hi) hfate, target_writeAll]

end

/-! ### The old snapshot or the new one -/

/-- A save over a loadable snapshot, which may stop or fail at any of its
steps, leaves the old or the new snapshot at the path exactly when it does not
end between the removal and the renaming. -/
theorem save_atomic_iff {old new : List ExecutionRecord} {oldEpoch newEpoch : CoordinatorEpoch}
    {d : Disk} (fate : ℕ → Fate) (htarget : d.target = some (save old oldEpoch))
    (hold : load (some (save old oldEpoch)) = .ok (old, oldEpoch))
    (hnew : load (some (save new newEpoch)) = .ok (new, newEpoch)) :
    (load (carryOut (saveSteps new newEpoch) fate d).1.target = .ok (old, oldEpoch) ∨
      load (carryOut (saveSteps new newEpoch) fate d).1.target = .ok (new, newEpoch)) ↔
      ¬Torn fate (save new newEpoch) := by
  have hnothing : load none ≠ .ok (old, oldEpoch) ∧ load none ≠ .ok (new, newEpoch) :=
    ⟨nofun, nofun⟩
  rw [saveSteps, target_save, Torn]
  by_cases hremoved : ∀ i < (save new newEpoch).length + 2, fate i = .performed
  · rw [if_pos hremoved, and_iff_right hremoved, not_not]
    by_cases hrenamed : fate ((save new newEpoch).length + 2) = .performed
    · rw [if_pos hrenamed]
      exact iff_of_true (.inr hnew) hrenamed
    · rw [if_neg hrenamed]
      exact iff_of_false (fun h => h.elim hnothing.1 hnothing.2) hrenamed
  · rw [if_neg hremoved, htarget]
    exact iff_of_true (.inl hold) fun h => hremoved h.1

namespace Sample

/-- The process stops before the step `n`. -/
def stopsAt (n : ℕ) (i : ℕ) : Fate := if i < n then .performed else .stopped

/-- The rename of a save of the empty snapshot fails. -/
def renameFails (i : ℕ) : Fate := if i < 42 then .performed else .failed

theorem load_empty (e : CoordinatorEpoch) : load (some (save [] e)) = .ok ([], e) :=
  load_save ⟨by simp, by simp, by simp, by simp⟩ (by simp) e

end Sample

/-- The process stops before the removal, with everything written. -/
theorem save_atomic_sample :
    let d : Disk := { target := some (save [] ⟨1⟩), tmp := none }
    let after := (carryOut (saveSteps [] ⟨2⟩) (Sample.stopsAt 41) d).1
    load after.target = .ok ([], ⟨1⟩) ∨ load after.target = .ok ([], ⟨2⟩) := by
  refine (save_atomic_iff (Sample.stopsAt 41) rfl (Sample.load_empty ⟨1⟩)
    (Sample.load_empty ⟨2⟩)).2 fun htorn => ?_
  have hremove := htorn.1 41 (by decide +kernel)
  revert hremove
  decide

/-- The renaming fails after the removal, the save reports it, and nothing can
be loaded any more. -/
theorem save_loses_both :
    ¬∀ (old new : List ExecutionRecord) (oldEpoch newEpoch : CoordinatorEpoch) (d : Disk)
      (fate : ℕ → Fate), d.target = some (save old oldEpoch) →
      load (some (save old oldEpoch)) = .ok (old, oldEpoch) →
      load (some (save new newEpoch)) = .ok (new, newEpoch) →
      load (carryOut (saveSteps new newEpoch) fate d).1.target = .ok (old, oldEpoch) ∨
        load (carryOut (saveSteps new newEpoch) fate d).1.target = .ok (new, newEpoch) := by
  intro hclaim
  let d : Disk := { target := some (save [] ⟨1⟩), tmp := none }
  have hgone : (carryOut (saveSteps [] ⟨2⟩) Sample.renameFails d).1.target = none ∧
      (carryOut (saveSteps [] ⟨2⟩) Sample.renameFails d).2 = some false := by decide +kernel
  have hloads := hclaim [] [] ⟨1⟩ ⟨2⟩ d Sample.renameFails rfl (Sample.load_empty ⟨1⟩)
    (Sample.load_empty ⟨2⟩)
  rw [hgone.1] at hloads
  rcases hloads with h | h <;> cases h

end ExecutionFabric
