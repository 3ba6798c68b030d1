import ExecutionFabric.Persistence.RoundTrip

/-!
Corrupted files.

A file that loads is a body sealed by its trailer. If it differs from a written
file within eight consecutive bytes, either the bodies agree, and with them the
trailers, or the checksums of the bodies differ. In the second case the window
begins in the body, and as the magic of the trailer is eight bytes long it does
not reach the stored checksum, which would have to change as well.
-/

namespace ExecutionFabric

open ShiftRegister

/-- Two sealed bodies do not differ within eight consecutive bytes only. -/
theorem eq_of_sealed {xs ys : ByteString} {k : ℕ}
    (h : DiffersWithin k 8 (sealBody xs) (sealBody ys)) : xs = ys := by
  have hlength : xs.length = ys.length := by
    have hsealed := h.length
    rw [length_sealBody, length_sealBody] at hsealed
    omega
  have htake : ∀ zs : ByteString, (sealBody zs).take zs.length = zs := fun zs => List.take_left
  have hcrc : ∀ zs : ByteString, (sealBody zs).drop (zs.length + 8)
      = ByteWriter.u64 (Crc64.compute zs) := fun zs => by
    rw [sealBody, ← List.drop_drop, List.drop_left, List.drop_left' (ByteWriter.length_bytes _)]
  by_contra hne
  -- the window begins before the trailer
  have hbegin : k < xs.length := by
    by_contra hlate
    have hsame := h.take_eq (Nat.not_lt.1 hlate)
    rw [htake, hlength, htake] at hsame
    exact hne hsame
  have hbodies : DiffersWithin k 8 xs ys := by
    have hcut := h.take xs.length
    rwa [htake, hlength, htake] at hcut
  have hstored := h.drop_eq (j := xs.length + 8) (by omega)
  rw [hcrc, hlength, hcrc] at hstored
  exact Crc64.compute_ne hbodies hne (ByteWriter.u64_injective hstored)

/-- A file that differs from what `save` wrote within eight consecutive bytes
does not load, and two strings that differ so have different checksums. -/
theorem burst_detected :
    (∀ records epoch file k, DiffersWithin k 8 (save records epoch) file →
      file ≠ save records epoch → ∀ out, loadInto (some file) out = (false, [])) ∧
    ∀ xs ys k, DiffersWithin k 8 xs ys → xs ≠ ys → Crc64.compute xs ≠ Crc64.compute ys := by
  refine ⟨fun records epoch file k h hne => ?_, fun xs ys k h hne => Crc64.compute_ne h hne⟩
  obtain hrefused | ⟨rs, e, hload, -⟩ := loadInto_cases (some file)
  · exact hrefused
  · obtain ⟨body, -, hfile⟩ := (spelled_of_load hload).body
    obtain rfl := Option.some.inj hfile
    have hsame : encodeBody records epoch = body := eq_of_sealed h
    exact absurd (congrArg sealBody hsame).symm hne

/-- Count and trailer magic of an empty snapshot overwritten, and two bytes of a
string exchanged. -/
theorem burst_detected_sample :
    loadInto (some ((save [] ⟨1⟩).take 20 ++ text "overflow" ++ (save [] ⟨1⟩).drop 28)) []
        = (false, []) ∧
      Crc64.compute (text "abc") ≠ Crc64.compute (text "acb") := by
  obtain ⟨hfile, hstring⟩ := burst_detected
  constructor
  · exact hfile [] ⟨1⟩ _ 20 (DiffersWithin.overwrite (by decide) (by decide)) (by decide +kernel) []
  · have hsplit : text "acb" = (text "abc").take 1 ++ text "cb" ++ (text "abc").drop 3 := rfl
    rw [hsplit]
    exact hstring _ _ 1 (DiffersWithin.overwrite (by decide) (by decide)) (by decide)

end ExecutionFabric
