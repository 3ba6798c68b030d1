import ExecutionFabric.Binary
import ExecutionFabric.Library.StepMachine

/-!
Is a failed read remembered?

A reader has a flag that every read looks at, and a decoder may leave it to
the end to ask for it. But only the two length limits clear the flag. A read
that asks for more bytes than remain returns false and leaves the reader as it
was, so a narrower one that follows can succeed, and `ok` says nothing of the
failure (`short_read_forgotten`). And a string that is longer than the limit is
refused after its length was consumed. `sticky_iff` says for which calls on which
buffers a failure is remembered and consumes nothing: those among which, as long
as the flag is set, no read runs short and no string is too long.

Whatever is called, the position stays on the buffer.
-/

namespace ExecutionFabric

open Reading StepMachine

namespace ByteReader

/-- A call of a reader. -/
inductive Read
  | u8
  | u16
  | u32
  | u64
  | bytes (n : ℕ)
  | vector (n : ℕ)
  | string
  | skip (n : ℕ)
  | boolByte

/-- The reader that a call leaves, and whether it returned true. -/
def returned {α : Type} (x : Option α × ByteReader) : ByteReader × Bool := (x.2, x.1.isSome)

def perform (r : ByteReader) : Read → ByteReader × Bool
  | .u8 => returned r.u8
  | .u16 => returned r.u16
  | .u32 => returned r.u32
  | .u64 => returned r.u64
  | .bytes n => returned (r.bytes n)
  | .vector n => returned (r.vector n)
  | .string => returned r.string
  | .skip n => returned (r.skip n)
  | .boolByte => returned r.boolByte

end ByteReader

/-- A reader as a machine. -/
def reader : Machine ByteReader ByteReader.Read Bool := ⟨ByteReader.perform⟩

namespace ByteReader

/-- The length that a string begins with. -/
def declared (r : ByteReader) : ℕ := leValue (r.rest.take 4)

/-- The number of bytes that a call asks for, unless a limit refuses it. -/
def asks (r : ByteReader) : Read → Option ℕ
  | .u8 | .boolByte => some 1
  | .u16 => some 2
  | .u32 => some 4
  | .u64 => some 8
  | .bytes n | .skip n => some n
  | .vector n => if maxVector < n then none else some n
  | .string =>
    if r.remaining < 4 then some 4
    else if maxString < r.declared then none
    else some (4 + r.declared)

/-- The call asks for more bytes than remain. -/
def Short (r : ByteReader) (c : Read) : Prop := ∃ n, r.asks c = some n ∧ r.remaining < n

/-- The call is for a string whose length is there, and over the limit. -/
def Overlong (r : ByteReader) (c : Read) : Prop :=
  c = .string ∧ 4 ≤ r.remaining ∧ maxString < r.declared

/-- What a failed call may have consumed: nothing, or the length of a string. -/
def Left (r : ByteReader) (c : Read) (k : ℕ) : Prop :=
  k = 0 ∨ c = .string ∧ k = 4 ∧ r.need 4 = true

/-- What a call does. -/
inductive Performed (r : ByteReader) (c : Read) : ByteReader × Bool → Prop
  | given {n : ℕ} (hok : r.ok = true) (hasks : r.asks c = some n) (hn : n ≤ r.remaining) :
      Performed r c (r.advance n, true)
  | dead (hok : r.ok = false) : Performed r c (r, false)
  | limited {k : ℕ} (hasks : r.asks c = none) (hk : r.Left c k) :
      Performed r c ((r.advance k).fail, false)
  | short {k n : ℕ} (hok : r.ok = true) (hasks : r.asks c = some n) (hn : r.remaining < n)
      (hk : r.Left c k) : Performed r c (r.advance k, false)

variable {r : ByteReader} {c : Read}

theorem need_iff {n : ℕ} : r.need n = true ↔ r.ok = true ∧ n ≤ r.remaining := by
  rw [need, Bool.and_eq_true, decide_eq_true_eq]

/-- A read of a known number of bytes. -/
theorem Performed.read {α : Type} {x : Option α × ByteReader} {n : ℕ} (hasks : r.asks c = some n)
    (hgiven : r.need n = true → ∃ v, x = (some v, r.advance n))
    (hfailed : ¬r.need n = true → x = (none, r)) : Performed r c (returned x) := by
  by_cases hneed : r.need n = true
  · obtain ⟨v, rfl⟩ := hgiven hneed
    obtain ⟨hok, hn⟩ := need_iff.1 hneed
    exact .given hok hasks hn
  · rw [hfailed hneed]
    cases hok : r.ok with
    | false => exact .dead hok
    | true =>
        have hn : r.remaining < n := Nat.not_le.1 fun hn => hneed (need_iff.2 ⟨hok, hn⟩)
        exact .short hok hasks hn (.inl rfl)

/-- A string whose length is there. -/
theorem string_declared (hneed : r.need 4 = true) :
    r.string = if maxString < r.declared then (none, (r.advance 4).fail)
      else if (r.advance 4).need r.declared then
        (some ((r.advance 4).rest.take r.declared), (r.advance 4).advance r.declared)
      else (none, r.advance 4) := by
  have hsize : (leValue (r.rest.take 4)).toUInt32.toNat = r.declared :=
    UInt32.toNat_ofNat_of_lt' (leValue_window_lt hneed)
  rw [string, u32, if_pos hneed]
  simp only [hsize]

theorem performed_string (r : ByteReader) : Performed r .string (returned r.string) := by
  have hasks : r.asks .string = if r.remaining < 4 then some 4
      else if maxString < r.declared then none else some (4 + r.declared) := rfl
  by_cases hneed : r.need 4 = true
  · obtain ⟨hok, hfour⟩ := need_iff.1 hneed
    have hread := string_declared hneed
    rw [if_neg (Nat.not_lt.2 hfour)] at hasks
    have hleft : r.Left .string 4 := .inr ⟨rfl, rfl, hneed⟩
    by_cases hlimit : maxString < r.declared
    · rw [if_pos hlimit] at hread hasks
      rw [hread]
      exact .limited hasks hleft
    · rw [if_neg hlimit] at hread hasks
      have hremaining : (r.advance 4).remaining = r.remaining - 4 := Nat.sub_add_eq _ _ _
      by_cases hbody : (r.advance 4).need r.declared = true
      · rw [if_pos hbody] at hread
        have hn := (need_iff.1 hbody).2
        have hwhole : (r.advance 4).advance r.declared = r.advance (4 + r.declared) :=
          congrArg (fun p => { r with pos := p }) (Nat.add_assoc _ _ _)
        rw [hread, hwhole]
        exact .given hok hasks (by omega)
      · rw [if_neg hbody] at hread
        have hn : ¬r.declared ≤ (r.advance 4).remaining := fun hn => hbody (need_iff.2 ⟨hok, hn⟩)
        rw [hread]
        exact .short hok hasks (by omega) hleft
  · have hread : r.string = (none, r) := by rw [string, u32, if_neg hneed]
    rw [hread]
    cases hok : r.ok with
    | false => exact .dead hok
    | true =>
        have hfour : r.remaining < 4 := Nat.not_le.1 fun hn => hneed (need_iff.2 ⟨hok, hn⟩)
        rw [if_pos hfour] at hasks
        exact .short hok hasks hfour (.inl rfl)

theorem performed (r : ByteReader) (c : Read) : Performed r c (r.perform c) := by
  have hread : ∀ {α : Type} {v : α} {n : ℕ}, r.asks c = some n →
      Performed r c (returned (if r.need n then (some v, r.advance n) else (none, r))) :=
    fun hasks => .read hasks (fun hneed => ⟨_, if_pos hneed⟩) fun hneed => if_neg hneed
  cases c with
  | u8 => exact hread rfl
  | u16 => exact hread rfl
  | u32 => exact hread rfl
  | u64 => exact hread rfl
  | skip n => exact hread rfl
  | bytes n => exact .read rfl (fun hneed => ⟨_, dif_pos hneed⟩) fun hneed => dif_neg hneed
  | string => exact r.performed_string
  | boolByte =>
      refine .read rfl (fun hneed => ⟨r.rest.headD 0 != 0, ?_⟩) fun hneed => ?_
      · rw [boolByte, u8, if_pos hneed]
      · rw [boolByte, u8, if_neg hneed]
  | vector n =>
      have hasks : r.asks (.vector n) = if maxVector < n then none else some n := rfl
      by_cases hlimit : maxVector < n
      · rw [if_pos hlimit] at hasks
        have hfail : r.vector n = (none, (r.advance 0).fail) := if_pos hlimit
        show Performed r _ (returned (r.vector n))
        rw [hfail]
        exact .limited hasks (.inl rfl)
      · rw [if_neg hlimit] at hasks
        have hvector : r.vector n = if r.need n then (some (r.rest.take n), r.advance n)
            else (none, r) := if_neg hlimit
        show Performed r _ (returned (r.vector n))
        rw [hvector]
        exact hread hasks

/-! ### Steps -/

theorem Left.le {k : ℕ} (h : r.Left c k) : k ≤ r.remaining := by
  rcases h with rfl | ⟨-, rfl, hneed⟩
  · exact Nat.zero_le _
  · exact (need_iff.1 hneed).2

theorem next_data : (reader.next r c).data = r.data := by
  have hperformed := r.performed c
  show (r.perform c).1.data = r.data
  generalize r.perform c = x at hperformed
  cases hperformed <;> rfl

/-- No call moves the position off the buffer. -/
theorem next_inside (h : r.pos ≤ r.data.length) : (reader.next r c).pos ≤ r.data.length := by
  have hperformed := r.performed c
  have hadvance : ∀ {k}, k ≤ r.remaining → r.pos + k ≤ r.data.length := fun {k} hk => by
    rw [remaining] at hk
    omega
  show (r.perform c).1.pos ≤ r.data.length
  generalize r.perform c = x at hperformed
  cases hperformed with
  | given hok hasks hn => exact hadvance hn
  | dead hok => exact h
  | limited hasks hk => exact hadvance hk.le
  | short hok hasks hn hk => exact hadvance hk.le

theorem asks_string (h : 4 ≤ r.remaining) :
    r.asks .string = if maxString < r.declared then none else some (4 + r.declared) :=
  if_neg (Nat.not_lt.2 h)

/-- A call that fails consumes nothing, unless it runs short with the flag set,
or has read the length of a string that is too long. -/
theorem next_failed (h : reader.out r c = false) (hshort : r.ok = true → ¬r.Short c)
    (hlong : r.ok = true → ¬r.Overlong c) : (reader.next r c).pos = r.pos := by
  have hperformed := r.performed c
  change (r.perform c).2 = false at h
  show (r.perform c).1.pos = r.pos
  generalize r.perform c = x at hperformed h
  cases hperformed with
  | given hok hasks hn => cases h
  | dead hok => rfl
  | short hok hasks hn hk => exact absurd ⟨_, hasks, hn⟩ (hshort hok)
  | limited hasks hk =>
      rcases hk with rfl | ⟨rfl, rfl, hneed⟩
      · rfl
      · obtain ⟨hok, hfour⟩ := need_iff.1 hneed
        rw [asks_string hfour] at hasks
        have hlimit : maxString < r.declared := by
          by_contra hlimit
          rw [if_neg hlimit] at hasks
          cases hasks
        exact absurd ⟨rfl, hfour, hlimit⟩ (hlong hok)

/-- Of a string that is too long the length is consumed. -/
theorem overlong_consumes (hok : r.ok = true) (h : r.Overlong c) :
    reader.out r c = false ∧ (reader.next r c).pos = r.pos + 4 := by
  obtain ⟨rfl, hfour, hlimit⟩ := h
  have hread := string_declared (need_iff.2 ⟨hok, hfour⟩)
  rw [if_pos hlimit] at hread
  show (returned r.string).2 = false ∧ (returned r.string).1.pos = r.pos + 4
  rw [hread]
  exact ⟨rfl, rfl⟩

/-- Without its flag, a reader fails. -/
theorem next_dead (h : r.ok = false) : reader.out r c = false ∧ (reader.next r c).ok = false := by
  have hperformed := r.performed c
  show (r.perform c).2 = false ∧ (r.perform c).1.ok = false
  generalize r.perform c = x at hperformed
  cases hperformed with
  | given hok => exact absurd (hok.symm.trans h) nofun
  | dead hok => exact ⟨rfl, h⟩
  | limited => exact ⟨rfl, rfl⟩
  | short hok => exact absurd (hok.symm.trans h) nofun

/-- With its flag, a reader keeps it as long as reads succeed, and when one runs
short. -/
theorem next_ok (h : r.ok = true) :
    (reader.next r c).ok = true ↔ reader.out r c = true ∨ r.Short c := by
  have hperformed := r.performed c
  show (r.perform c).1.ok = true ↔ (r.perform c).2 = true ∨ r.Short c
  generalize r.perform c = x at hperformed
  cases hperformed with
  | given hok => exact iff_of_true hok (.inl rfl)
  | dead hok => exact absurd (hok.symm.trans h) nofun
  | limited hasks =>
      refine iff_of_false nofun ?_
      rintro (hout | ⟨n, hn, -⟩)
      · cases hout
      · exact nomatch hasks.symm.trans hn
  | short hok hasks hn => exact iff_of_true hok (.inr ⟨_, hasks, hn⟩)

/-- A read that runs short fails. -/
theorem out_short (h : r.Short c) : reader.out r c = false := by
  have hperformed := r.performed c
  obtain ⟨n, hasks, hn⟩ := h
  show (r.perform c).2 = false
  generalize r.perform c = x at hperformed
  cases hperformed with
  | given hok hasks' hn' =>
      obtain rfl := Option.some.inj (hasks.symm.trans hasks')
      exact absurd hn (Nat.not_lt.2 hn')
  | dead | limited | short => rfl

/-! ### Runs -/

theorem run_data {calls : List Read} : (reader.run r calls).data = r.data := by
  have hstep : ∀ (t : ByteReader) (c : Read), t.data = r.data →
      (reader.next t c).data = r.data := fun t c ht => next_data.trans ht
  exact Machine.run_preserves hstep rfl calls

theorem run_inside {calls : List Read} (h : r.pos ≤ r.data.length) :
    (reader.run r calls).pos ≤ r.data.length := by
  have hstep : ∀ (t : ByteReader) (c : Read), t.pos ≤ t.data.length →
      (reader.next t c).pos ≤ (reader.next t c).data.length := fun t c ht => by
    rw [next_data]
    exact next_inside ht
  have hrun := Machine.run_preserves hstep h calls
  rwa [run_data] at hrun

theorem run_dead (h : r.ok = false) (calls : List Read) :
    (reader.run r calls).ok = false ∧ ∀ x ∈ reader.trace r calls, x.2 = false := by
  induction calls generalizing r with
  | nil => exact ⟨h, List.forall_mem_nil _⟩
  | cons c calls ih =>
      obtain ⟨hout, hnext⟩ := next_dead (c := c) h
      obtain ⟨hlast, hrest⟩ := ih hnext
      exact ⟨hlast, List.forall_mem_cons.2 ⟨hout, hrest⟩⟩

/-- A failure is remembered: after it the flag is clear, and every call fails. -/
def Remembers (r : ByteReader) (calls : List Read) : Prop :=
  ∀ before c after, before ++ c :: after <+: calls →
    reader.out (reader.run r before) c = false →
      (reader.run r (before ++ c :: after)).ok = false ∧
        ∀ x ∈ reader.trace (reader.run r (before ++ [c])) after, x.2 = false

/-- No read runs short as long as the flag is set. -/
def Supplied (r : ByteReader) (c : Read) : Prop := r.ok = true → ¬r.Short c

/-- No string is too long as long as the flag is set. -/
def Limited (r : ByteReader) (c : Read) : Prop := r.ok = true → ¬r.Overlong c

theorem remembers_iff {calls : List Read} :
    r.Remembers calls ↔ reader.Meets Supplied r calls := by
  rw [Machine.meets_iff]
  constructor
  · intro hremembers before c hbefore hok hshort
    have hdead := (hremembers before c [] hbefore (out_short hshort)).1
    rw [Machine.run_snoc, (next_ok hok).2 (.inr hshort)] at hdead
    cases hdead
  · intro hmeets before c after hcalls hout
    have hbefore : before ++ [c] <+: calls :=
      List.IsPrefix.trans ⟨after, (List.append_cons before c after).symm⟩ hcalls
    have hnext : (reader.next (reader.run r before) c).ok = false := by
      cases hok : (reader.run r before).ok with
      | false => exact (next_dead hok).2
      | true =>
          rw [Bool.eq_false_iff, ne_eq, next_ok hok, hout]
          exact fun h => h.elim nofun (hmeets before c hbefore hok)
    rw [Machine.run_append, Machine.run_snoc]
    exact run_dead hnext _

/-- In such a run the flag tells at the end whether all reads succeeded. -/
theorem run_ok {calls : List Read} (h : r.ok = true) (hmeets : reader.Meets Supplied r calls) :
    (reader.run r calls).ok = true ↔ ∀ x ∈ reader.trace r calls, x.2 = true := by
  induction calls generalizing r with
  | nil => exact iff_of_true h (List.forall_mem_nil _)
  | cons c calls ih =>
      have htrace : reader.trace r (c :: calls) =
          (c, reader.out r c) :: reader.trace (reader.next r c) calls := rfl
      have hnext := next_ok (c := c) h
      rw [or_iff_left (hmeets.1 h)] at hnext
      rw [htrace, List.forall_mem_cons]
      cases hout : reader.out r c with
      | true => exact (ih (hnext.2 hout) hmeets.2).trans (and_iff_right rfl).symm
      | false =>
          have hdead : (reader.next r c).ok = false := by
            rw [Bool.eq_false_iff, ne_eq, hnext, hout]
            exact nofun
          refine iff_of_false ?_ fun hall => Bool.noConfusion hall.1
          rw [Bool.not_eq_true]
          exact (run_dead hdead calls).1

/-- What a decoder relies on that makes these calls of a reader, and asks for
the flag at the end. -/
structure Sticky (r : ByteReader) (calls : List Read) : Prop where
  inside : ∀ done, done <+: calls → (reader.run r done).pos ≤ r.data.length
  consumes : ∀ before c, before ++ [c] <+: calls → reader.out (reader.run r before) c = false →
    (reader.run r (before ++ [c])).pos = (reader.run r before).pos
  remembers : r.Remembers calls
  verdict : (reader.run r calls).ok = true ↔ ∀ x ∈ reader.trace r calls, x.2 = true

end ByteReader

/-- A decoder can rely on the flag exactly if, while the flag is set, no read
runs short and no string is too long. -/
theorem sticky_iff (data : ByteString) (calls : List ByteReader.Read) :
    ByteReader.Sticky { data } calls ↔
      reader.Meets ByteReader.Supplied { data } calls ∧
        reader.Meets ByteReader.Limited { data } calls := by
  constructor
  · intro h
    refine ⟨ByteReader.remembers_iff.1 h.remembers, Machine.meets_iff.2 ?_⟩
    intro before c hbefore hok hlong
    obtain ⟨hout, hpos⟩ := ByteReader.overlong_consumes hok hlong
    have hsame := h.consumes before c hbefore hout
    rw [Machine.run_snoc, hpos] at hsame
    omega
  · rintro ⟨hsupplied, hlimited⟩
    refine ⟨fun done _ => ByteReader.run_inside (Nat.zero_le _), fun before c hbefore hout => ?_,
      ByteReader.remembers_iff.2 hsupplied, ByteReader.run_ok rfl hsupplied⟩
    rw [Machine.run_snoc]
    exact ByteReader.next_failed hout (Machine.meets_iff.1 hsupplied before c hbefore)
      (Machine.meets_iff.1 hlimited before c hbefore)

/-- One byte, read as a number of two bytes and then as one of one. -/
theorem short_read_forgotten : ¬∀ data calls, ByteReader.Sticky { data } calls := by
  intro hclaim
  have hverdict := (hclaim [0] [.u16, .u8]).verdict
  have hfailed : reader.trace ({ data := [0] } : ByteReader) [.u16, .u8] =
      [(.u16, false), (.u8, true)] := rfl
  rw [hfailed] at hverdict
  exact Bool.noConfusion (hverdict.1 rfl (.u16, false) List.mem_cons_self)

end ExecutionFabric
