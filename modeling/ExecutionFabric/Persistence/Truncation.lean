import ExecutionFabric.Persistence.RoundTrip

/-!
Truncated files, and files with something behind them.

The body of a file says how long it is: the header counts the records, and each
record states its length. So of two files that begin alike, one spelled and one
written by `save`, neither body goes on where the other ends
(`eq_of_same_start`), and with the bodies the trailers agree. No checksum is
looked at for this, and it does not matter what the records contain, nor
whether they would be read back.

What the bodies contain is settled by their bytes, too (`BodySpelled.unique`); so a
file that was saved is loaded as it was saved, if it is loaded.
-/

namespace ExecutionFabric

open Reading

/-- A stated length, eight bytes, and as many as were stated. -/
inductive Framed : ByteString → Prop
  | mk {len : UInt32} {crc : UInt64} {payload : ByteString} (hlength : payload.length = len.toNat) :
      Framed (ByteWriter.u32 len ++ (ByteWriter.u64 crc ++ payload))

theorem Framed.prefix_free {xs ys ps qs : ByteString} (hxs : Framed xs) (hys : Framed ys)
    (heq : xs ++ ps = ys ++ qs) : xs = ys := by
  cases hxs with
  | @mk len crc payload hlength =>
      cases hys with
      | @mk len' crc' payload' hlength' =>
          have hbegin := heq
          simp only [List.append_assoc] at hbegin
          obtain ⟨hlen, -⟩ := List.append_inj hbegin (by simp)
          obtain rfl := ByteWriter.u32_injective hlen
          refine (List.append_inj heq ?_).1
          simp [hlength, hlength']

theorem framed_encodeEntry {r : ExecutionRecord} (hsize : (encodeRecord r).length < 2 ^ 32) :
    Framed (encodeEntry r) := by
  refine .mk ?_
  rw [UInt32.toNat_ofNat']
  exact (Nat.mod_eq_of_lt hsize).symm

theorem EntrySpelled.framed {bs : ByteString} {r : ExecutionRecord} (h : EntrySpelled bs r) :
    Framed bs := by
  cases h with
  | mk h hsize => exact .mk (toNat_length h.pos_length hsize).1.symm

/-- A body that is spelled is the one written, if they begin alike. -/
theorem body_prefix_free {records rs : List ExecutionRecord} {epoch e : CoordinatorEpoch}
    {body ps qs : ByteString} (hcount : records.length < 2 ^ 32)
    (hsize : ∀ r ∈ records, (encodeRecord r).length < 2 ^ 32) (hbody : BodySpelled body rs e)
    (heq : body ++ ps = encodeBody records epoch ++ qs) : body = encodeBody records epoch := by
  obtain @⟨bs, rs, e, hfew, hpieces⟩ := hbody
  have hbegin := heq
  simp only [encodeBody, List.append_assoc] at hbegin
  obtain ⟨-, hbegin⟩ := List.append_inj hbegin rfl
  obtain ⟨-, hbegin⟩ := List.append_inj hbegin rfl
  obtain ⟨hepoch, hbegin⟩ := List.append_inj hbegin (by simp)
  obtain ⟨hnumber, hbegin⟩ := List.append_inj hbegin (by simp)
  have hlength : rs.length = records.length := by
    have hnat := congrArg UInt32.toNat (ByteWriter.u32_injective hnumber)
    rw [UInt32.toNat_ofNat', UInt32.toNat_ofNat', Nat.mod_eq_of_lt hcount] at hnat
    omega
  have hwritten : Pieces (fun bs _ => Framed bs) (records.flatMap encodeEntry) records :=
    pieces_flatMap fun r hr => framed_encodeEntry (hsize r hr)
  have hentries := hpieces.prefix_free (fun h h' => h.framed.prefix_free h') hwritten hlength hbegin
  rw [hentries, hepoch, hnumber]
  rfl

theorem RecordSpelled.unique {bs : ByteString} {r r' : ExecutionRecord} (h : RecordSpelled bs r)
    (h' : RecordSpelled bs r') : r = r' := by
  obtain ⟨t, hrun, -⟩ := reads_whole (reads_fields h)
  obtain ⟨t', hrun', -⟩ := reads_whole (reads_fields h')
  exact (Prod.mk.inj (Except.ok.inj (hrun.symm.trans hrun'))).1

theorem EntrySpelled.unique {bs : ByteString} {r r' : ExecutionRecord} (h : EntrySpelled bs r)
    (h' : EntrySpelled bs r') : r = r' := by
  generalize hbs : bs = cs at h'
  cases h with
  | mk h hsize =>
      cases h' with
      | mk h' hsize' =>
          obtain ⟨-, hbs⟩ := List.append_inj hbs (by simp)
          obtain ⟨-, hbs⟩ := List.append_inj hbs (by simp)
          exact h.unique (hbs ▸ h')

/-- A body spells one list of records and one epoch. -/
theorem BodySpelled.unique {body : ByteString} {rs rs' : List ExecutionRecord}
    {e e' : CoordinatorEpoch} (h : BodySpelled body rs e) (h' : BodySpelled body rs' e') :
    rs = rs' ∧ e = e' := by
  generalize hbody : body = body' at h'
  obtain ⟨hcount, hpieces⟩ := h
  obtain ⟨hcount', hpieces'⟩ := h'
  obtain ⟨-, hbody⟩ := List.append_inj hbody rfl
  obtain ⟨-, hbody⟩ := List.append_inj hbody rfl
  obtain ⟨hepoch, hbody⟩ := List.append_inj hbody (by simp)
  obtain ⟨hnumber, hbody⟩ := List.append_inj hbody (by simp)
  have hlength : rs.length = rs'.length := by
    have hnat := congrArg UInt32.toNat (ByteWriter.u32_injective hnumber)
    rwa [(toNat_count hcount).1, (toNat_count hcount').1] at hnat
  refine ⟨?_, ?_⟩
  · refine Pieces.unique (fun h h' => h.framed.prefix_free h'.framed) (fun h h' => h.unique h')
      [] [] hpieces hpieces' hlength ?_
    rw [hbody]
  · have hvalue := ByteWriter.u64_injective hepoch
    cases e
    cases e'
    exact congrArg Gen.mk hvalue

/-- What was saved is loaded as it was, or not at all. -/
theorem Storable.loaded {records rs : List ExecutionRecord} (hs : Storable records)
    {epoch e : CoordinatorEpoch} (hload : load (some (save records epoch)) = .ok (rs, e)) :
    rs = records ∧ e = epoch := by
  obtain ⟨body, hspelled, hfile⟩ := (spelled_of_load hload).body
  obtain ⟨hbody, -⟩ := List.append_inj' (Option.some.inj hfile) (by simp)
  rw [← hbody] at hspelled
  exact hspelled.unique (hs.bodySpelled epoch)

/-- A file that loads is the one written, if they begin alike. -/
theorem eq_of_same_start {records rs : List ExecutionRecord} {epoch e : CoordinatorEpoch}
    {file ps qs : ByteString} (hcount : records.length < 2 ^ 32)
    (hsize : ∀ r ∈ records, (encodeRecord r).length < 2 ^ 32)
    (hload : load (some file) = .ok (rs, e)) (heq : file ++ ps = save records epoch ++ qs) :
    file = save records epoch := by
  obtain ⟨body, hspelled, hfile⟩ := (spelled_of_load hload).body
  obtain rfl := Option.some.inj hfile
  simp only [sealBody, save, List.append_assoc] at heq
  rw [body_prefix_free hcount hsize hspelled heq]
  rfl

/-- No strict prefix of what `save` writes loads, and nothing loads that has
bytes behind it. -/
theorem cut_or_extended_refused {records : List ExecutionRecord} (hcount : records.length < 2 ^ 32)
    (hsize : ∀ r ∈ records, (encodeRecord r).length < 2 ^ 32) (epoch : CoordinatorEpoch) :
    (∀ file, file <+: save records epoch → file ≠ save records epoch →
      ∀ out, loadInto (some file) out = (false, [])) ∧
    ∀ tail, tail ≠ [] → ∀ out, loadInto (some (save records epoch ++ tail)) out = (false, []) := by
  constructor
  · rintro file ⟨rest, hfile⟩ hne
    obtain hrefused | ⟨rs, e, hload, -⟩ := loadInto_cases (some file)
    · exact hrefused
    · have hsame : file ++ rest = save records epoch ++ [] := by rw [hfile, List.append_nil]
      exact absurd (eq_of_same_start hcount hsize hload hsame) hne
  · intro tail hne
    obtain hrefused | ⟨rs, e, hload, -⟩ := loadInto_cases (some (save records epoch ++ tail))
    · exact hrefused
    · have hsame := eq_of_same_start hcount hsize hload (List.append_assoc _ tail [])
      exact absurd (List.append_right_eq_self.1 hsame) hne

/-- A record whose text spells a whole file, trailer included, cut and extended. -/
theorem cut_or_extended_refused_sample :
    let r := { Sample.storedRecord with createdAt := save [Sample.storedRecord] ⟨1⟩ }
    loadInto (some ((save [r] ⟨1⟩).take 500)) [r] = (false, []) ∧
      loadInto (some (save [r] ⟨1⟩ ++ save [r] ⟨1⟩)) [r] = (false, []) := by
  intro r
  have hcount : [r].length < 2 ^ 32 := by decide
  have hsize : ∀ x ∈ [r], (encodeRecord x).length < 2 ^ 32 := by
    intro x hx
    obtain rfl := List.mem_singleton.1 hx
    decide +kernel
  obtain ⟨hcut, hextended⟩ := cut_or_extended_refused hcount hsize ⟨1⟩
  refine ⟨hcut _ (List.take_prefix _ _) ?_ _, hextended _ ?_ _⟩
  · intro heq
    have hlength := congrArg List.length heq
    revert hlength
    decide +kernel
  · intro heq
    have hlength := congrArg List.length heq
    revert hlength
    decide +kernel

end ExecutionFabric
