import ExecutionFabric.Cuda

/-!
`run_vector_add` on any device.

Whatever the device answers, each buffer that it gave is given back, once, and after
everything else that is asked of it (`Tidy`); and no vector is returned but one that
the host has checked (`runVectorAdd_checked`).
-/

namespace ExecutionFabric.Cuda

open StepMachine

variable {σ F : Type}

/-- The buffers that a call is about. -/
def Request.uses : Request F → List ℕ
  | malloc _ | lastError | synchronize => []
  | copyIn dst _ => [dst]
  | launch _ _ a b c _ => [a, b, c]
  | copyOut src _ => [src]
  | free p => [p]

/-- The call is neither an allocation nor a deallocation, and about these buffers. -/
def Request.Works (ps : List ℕ) : Request F → Prop
  | malloc _ | free _ => False
  | r => r.uses ⊆ ps

/-- The buffer that was given out. -/
def given : Request F × Answer F → Option ℕ
  | (.malloc _, .allocated p) => some p
  | _ => none

/-- Of these calls the last ones, and none before, give back what was given out, and
all are about what was given out. -/
def Tidy (calls : List (Request F × Answer F)) : Prop :=
  ∃ during after, calls = during ++ after ∧ (∀ x ∈ during, ∀ p, x.1 ≠ .free p) ∧
    after.map Prod.fst = (during.filterMap given).map Request.free ∧
    ∀ x ∈ during, x.1.uses ⊆ during.filterMap given

section

variable {device : Device σ F} {arith : FloatArith F} {ps : List ℕ}

/-! ### Sessions -/

/-- From `x` to `y` the device is asked only what `P` holds of. -/
structure Session.Leads (device : Device σ F) (P : Request F → Prop) (x y : Session σ F) :
    Prop where
  calls : ∃ more, y.calls = x.calls ++ more ∧ (∀ z ∈ more, P z.1) ∧
    Runs device Always x.state more y.state

theorem Session.Leads.refl {P : Request F → Prop} (x : Session σ F) : x.Leads device P x :=
  ⟨[], (List.append_nil _).symm, fun _ hz => absurd hz List.not_mem_nil, .refl⟩

theorem Session.Leads.trans {P : Request F → Prop} {x y z : Session σ F}
    (hxy : x.Leads device P y) (hyz : y.Leads device P z) : x.Leads device P z := by
  obtain ⟨more, hmore, hall, hran⟩ := hxy
  obtain ⟨rest, hrest, hall', hran'⟩ := hyz
  refine ⟨more ++ rest, by rw [hrest, hmore, List.append_assoc], fun z hz => ?_, hran.trans hran'⟩
  exact (List.mem_append.1 hz).elim (hall z) (hall' z)

theorem Session.leads_ask {P : Request F → Prop} (x : Session σ F) {r : Request F} (hr : P r) :
    x.Leads device P (x.ask device r).2 :=
  ⟨[(r, device.out x.state r)], rfl, fun _ hz => List.mem_singleton.1 hz ▸ hr,
    Runs.one r trivial⟩

/-- Steps that are taken as long as nothing has failed. -/
theorem Work.leads_asks {P : Request F → Prop}
    {steps : List (Request F × (ByteString → ByteString))}
    (hsteps : ∀ step ∈ steps, P step.1) (w : Work σ F) :
    w.session.Leads device P (steps.foldl (Work.ask device) w).session := by
  induction steps generalizing w with
  | nil => exact .refl _
  | cons step steps ih =>
      have hstep : w.session.Leads device P (w.ask device step).session := by
        have hask : w.session.Leads device P (w.session.ask device step.1).2 :=
          w.session.leads_ask (hsteps step List.mem_cons_self)
        unfold Work.ask
        split
        · exact .refl _
        · dsimp only
          split
          · exact hask
          · exact hask
      exact hstep.trans (ih (fun s hs => hsteps s (List.mem_cons_of_mem step hs)) _)

/-! ### The work -/

theorem mismatch_none {a b c : List F} (h : mismatch arith a b c = none) {i : ℕ}
    (hi : i < a.length) :
    arith.eq (c.getD i arith.zero) (arith.add (a.getD i arith.zero) (b.getD i arith.zero)) =
      true := by
  have hall := List.find?_eq_none.1 h i (List.mem_range.2 hi)
  simpa using hall

variable {x : Session σ F} {n : UInt32} {a b : List F} {da db dc : ℕ}

theorem works_steps (n : UInt32) (a b : List F) (da db dc : ℕ) :
    ∀ step ∈ steps n a b da db dc, step.1.Works [da, db, dc] := by
  simp [steps, Request.Works, Request.uses]

/-- What `work` asks of the device. -/
theorem leads_work (device : Device σ F) (arith : FloatArith F) (x : Session σ F) (n : UInt32)
    (a b : List F) (da db dc : ℕ) :
    x.Leads device (Request.Works [da, db, dc]) (work device arith x n a b da db dc).2 := by
  unfold work
  dsimp only
  refine (Work.leads_asks (works_steps n a b da db dc) (Work.mk x none)).trans ?_
  generalize (steps n a b da db dc).foldl (Work.ask device) _ = w
  split
  · exact .refl _
  · have hcopy : w.session.Leads device (Request.Works [da, db, dc])
        (w.session.ask device (.copyOut dc n.toNat)).2 :=
      w.session.leads_ask (by simp [Request.Works, Request.uses])
    split
    · rename_i hasked
      rw [hasked] at hcopy
      split
      · exact hcopy
      · exact hcopy
    · rename_i hasked
      rw [hasked] at hcopy
      exact hcopy

/-- A vector that is returned was checked. -/
theorem checked_of_work {c : List F} (ha : a.length = n.toNat)
    (hc : (work device arith x n a b da db dc).1 = .ok c) :
    c.length = n.toNat ∧ ∀ i < n.toNat,
      arith.eq (c.getD i arith.zero) (arith.add (a.getD i arith.zero) (b.getD i arith.zero)) =
        true := by
  unfold work at hc
  dsimp only at hc
  generalize (steps n a b da db dc).foldl (Work.ask device) _ = w at hc
  split at hc
  · cases hc
  · split at hc
    · rename_i xs _ _
      split at hc
      · cases hc
      · rename_i hmatch
        obtain rfl := Except.ok.inj hc
        refine ⟨?_, fun i hi => mismatch_none hmatch (ha ▸ hi)⟩
        rw [List.length_append, List.length_take, List.length_replicate]
        omega
    · cases hc

/-- What fails says so. -/
theorem failure_of_work {e : ByteString} (he : (work device arith x n a b da db dc).1 = .error e) :
    e ≠ [] := by
  have hsteps : ∀ step ∈ steps n a b da db dc, ∀ t, step.2 t ≠ [] := by
    simp [steps, text]
  have hwork : ∀ (l : List (Request F × (ByteString → ByteString))) (w : Work σ F),
      (∀ step ∈ l, ∀ t, step.2 t ≠ []) → w.failure ≠ some [] →
        (l.foldl (Work.ask device) w).failure ≠ some [] := by
    intro l
    induction l with
    | nil => exact fun w _ hw => hw
    | cons step l ih =>
        intro w hl hw
        refine ih _ (fun s hs => hl s (List.mem_cons_of_mem step hs)) ?_
        unfold Work.ask
        split
        · exact hw
        · dsimp only
          split
          · exact fun h => hl step List.mem_cons_self _ (Option.some.inj h)
          · exact fun h => Option.some_ne_none _ h.symm
  have hfailure := hwork _ (Work.mk x none) hsteps (fun h => Option.some_ne_none _ h.symm)
  unfold work at he
  dsimp only at he
  generalize (steps n a b da db dc).foldl (Work.ask device) _ = w at he hfailure
  split at he
  · rename_i failure hw
    obtain rfl := Except.error.inj he
    exact fun h => hfailure (h ▸ hw)
  · split at he
    · split at he
      · rw [← Except.error.inj he]
        simp [text]
      · cases he
    · rw [← Except.error.inj he]
      simp [text]

theorem given_of_works {z : Request F × Answer F} (h : z.1.Works ps) :
    given z = none ∧ (∀ p, z.1 ≠ .free p) ∧ z.1.uses ⊆ ps := by
  obtain ⟨r, answer⟩ := z
  cases r with
  | malloc | free => cases h
  | lastError | synchronize | copyIn | copyOut | launch => exact ⟨rfl, fun _ => nofun, h⟩

end

/-! ### The whole -/

/-- The sum at a global index. -/
def sumAt (arith : FloatArith F) (seed gi : UInt32) : F :=
  arith.add (operandA arith seed gi) (operandB arith seed gi)

/-- The bytes of a vector. -/
def vectorBytes (arith : FloatArith F) (c : List F) : ByteString :=
  c.flatMap fun x => (arith.bytes x).toList

theorem length_operands (operand : UInt32 → F) (n base : UInt32) :
    (operands operand n base).length = n.toNat := by
  rw [operands, List.length_map, List.length_range]

theorem getD_operands (operand : UInt32 → F) {n : UInt32} (base : UInt32) (zero : F) {i : ℕ}
    (hi : i < n.toNat) : (operands operand n base).getD i zero = operand (base + i.toUInt32) := by
  rw [List.getD_eq_getElem _ _ (by rw [length_operands]; exact hi)]
  simp [operands]

/-- What a run did on the device that was in the state `s`, returned and wrote. -/
structure Run.Proper (device : Device σ F) (arith : FloatArith F) (s : σ) (n seed base : UInt32)
    (o : Output) (r : Run σ F) : Prop where
  tidy : Tidy r.session.calls
  ran : Runs device Always s r.session.calls r.session.state
  failed : r.returned = false →
    r.output.outBytes = o.outBytes ∧ r.output.digest = o.digest ∧ r.output.err ≠ []
  succeeded : r.returned = true → r.output.err = o.err ∧
    r.output.digest = .ofBuffer r.output.outBytes ∧
    ∃ c : List F, r.output.outBytes = vectorBytes arith c ∧ c.length = n.toNat ∧
      ∀ i < n.toNat, arith.eq (c.getD i arith.zero) (sumAt arith seed (base + i.toUInt32)) = true

section

variable {device : Device σ F} {arith : FloatArith F} {s : σ} {n seed base : UInt32} {o : Output}

theorem proper_fail {session : Session σ F} (htidy : Tidy session.calls)
    (hran : Runs device Always s session.calls session.state) {err : ByteString} (herr : err ≠ []) :
    Run.Proper device arith s n seed base o ⟨false, { o with err }, session⟩ where
  tidy := htidy
  ran := hran
  failed := fun _ => ⟨rfl, rfl, herr⟩
  succeeded := fun h => absurd h Bool.false_ne_true

theorem ask_calls {x y : Session σ F} {r : Request F} {answer : Answer F}
    (hasked : x.ask device r = (answer, y)) : y.calls = x.calls ++ [(r, answer)] := by
  obtain ⟨rfl, rfl⟩ := Prod.mk.inj hasked
  rfl

theorem ask_runs {x y : Session σ F} {r : Request F} {answer : Answer F}
    (hran : Runs device Always s x.calls x.state) (hasked : x.ask device r = (answer, y)) :
    Runs device Always s y.calls y.state := by
  obtain ⟨rfl, rfl⟩ := Prod.mk.inj hasked
  exact hran.snoc _ trivial

/-- The allocation of `p`, which was given. -/
def allocation (size p : ℕ) : Request F × Answer F := (.malloc size, .allocated p)

/-- The deallocations. -/
theorem frees_calls (device : Device σ F) (x : Session σ F) (ps : List ℕ) :
    ∃ after, (ps.foldl (Session.free device) x).calls = x.calls ++ after ∧
      after.map Prod.fst = ps.map Request.free ∧
      Runs device Always x.state after (ps.foldl (Session.free device) x).state := by
  induction ps generalizing x with
  | nil => exact ⟨[], (List.append_nil _).symm, rfl, .refl⟩
  | cons p ps ih =>
      obtain ⟨after, hcalls, hafter, hran⟩ := ih (x.free device p)
      refine ⟨(.free p, device.out x.state (.free p)) :: after, ?_, ?_, hran.cons _ trivial⟩
      · rw [List.foldl_cons, hcalls]
        exact List.append_assoc _ [_] after
      · rw [List.map_cons, List.map_cons, hafter]

/-- Allocations, then nothing that allocates or deallocates, and deallocations. -/
theorem tidy_frees (size : ℕ) (ps : List ℕ) {more : List (Request F × Answer F)} {x : Session σ F}
    (hx : x.calls = ps.map (allocation size) ++ more) (hran : Runs device Always s x.calls x.state)
    (hmore : ∀ z ∈ more, given z = none ∧ (∀ p, z.1 ≠ .free p) ∧ z.1.uses ⊆ ps) :
    Tidy (ps.foldl (Session.free device) x).calls ∧
      Runs device Always s (ps.foldl (Session.free device) x).calls
        (ps.foldl (Session.free device) x).state := by
  obtain ⟨after, hcalls, hafter, hran'⟩ := frees_calls device x ps
  have hgiven : x.calls.filterMap given = ps := by
    have hnone : more.filterMap given = [] :=
      List.filterMap_eq_nil_iff.2 fun z hz => (hmore z hz).1
    rw [hx, List.filterMap_append, hnone, List.filterMap_map, List.append_nil]
    exact List.filterMap_some
  refine ⟨⟨x.calls, after, hcalls, ?_, by rw [hgiven]; exact hafter, ?_⟩, hcalls ▸ hran.trans hran'⟩
  · intro z hz p
    rw [hx] at hz
    rcases List.mem_append.1 hz with hz | hz
    · obtain ⟨q, -, rfl⟩ := List.mem_map.1 hz
      exact nofun
    · exact (hmore z hz).2.1 p
  · intro z hz
    rw [hgiven]
    rw [hx] at hz
    rcases List.mem_append.1 hz with hz | hz
    · obtain ⟨q, -, rfl⟩ := List.mem_map.1 hz
      exact List.nil_subset _
    · exact (hmore z hz).2.2

/-- An allocation that failed. -/
theorem refused {size : ℕ} {ps : List ℕ} {answer : Answer F}
    (hanswer : ∀ p, answer ≠ .allocated p) :
    ∀ z ∈ [((.malloc size, answer) : Request F × Answer F)],
      given z = none ∧ (∀ p, z.1 ≠ .free p) ∧ z.1.uses ⊆ ps := by
  intro z hz
  rw [List.mem_singleton.1 hz]
  refine ⟨?_, fun _ => nofun, List.nil_subset _⟩
  cases answer with
  | allocated p => exact absurd rfl (hanswer p)
  | success | error | copied => rfl

end

/-- On any device, whatever it answers: the buffers that it gave are given back once,
after all else, and nothing else is used; a failure leaves the output as it was, and
says what failed; and what is returned is a vector that the host found to be the
sums, and its digest. -/
theorem proper_run (device : Device σ F) (arith : FloatArith F) (s : σ)
    (n seed base : UInt32) (o : Output) :
    Run.Proper device arith s n seed base o (runVectorAdd device arith s n seed base o) := by
  unfold runVectorAdd
  dsimp only
  have hstart : Runs device Always s ({ state := s } : Session σ F).calls s := .refl
  split
  · have hend := tidy_frees (x := { state := s }) 0 [] (List.append_nil []).symm hstart
      fun _ hz => absurd hz List.not_mem_nil
    exact proper_fail hend.1 hend.2 (by simp [text])
  split
  · rename_i da x₁ hasked₁
    have hcalls₁ := ask_calls hasked₁
    have hran₁ := ask_runs hstart hasked₁
    split
    · rename_i db x₂ hasked₂
      have hcalls₂ := ask_calls hasked₂
      have hran₂ := ask_runs hran₁ hasked₂
      rw [hcalls₁] at hcalls₂
      split
      · rename_i dc x₃ hasked₃
        have hcalls₃ := ask_calls hasked₃
        have hran₃ := ask_runs hran₂ hasked₃
        rw [hcalls₂] at hcalls₃
        let a := operands (operandA arith seed) n base
        let b := operands (operandB arith seed) n base
        obtain ⟨more, hmore, hworks, hran₄⟩ :=
          leads_work device arith x₃ n a b da db dc
        have hchecked := @checked_of_work σ F device arith x₃ n a b da db dc
        have hfailure := @failure_of_work σ F device arith x₃ n a b da db dc
        generalize work device arith x₃ n a b da db dc = y at hmore hran₄ hchecked hfailure ⊢
        have hran : Runs device Always s y.2.calls y.2.state := hmore ▸ hran₃.trans hran₄
        rw [hcalls₃] at hmore
        have hend := tidy_frees _ [da, db, dc] hmore hran fun z hz =>
          given_of_works (hworks z hz)
        obtain ⟨result, session⟩ := y
        cases result with
        | error e => exact proper_fail hend.1 hend.2 (hfailure rfl)
        | ok c =>
            obtain ⟨hlength, heq⟩ := hchecked (length_operands _ n base) rfl
            refine ⟨hend.1, hend.2, fun h => absurd h.symm Bool.false_ne_true, fun _ =>
              ⟨rfl, rfl, c, rfl, hlength, fun i hi => ?_⟩⟩
            have hsame := heq i hi
            rwa [getD_operands _ base _ hi, getD_operands _ base _ hi] at hsame
      · rename_i answer x₃ hanswer hasked₃
        have hcalls₃ := ask_calls hasked₃
        have hran₃ := ask_runs hran₂ hasked₃
        rw [hcalls₂] at hcalls₃
        have hend := tidy_frees _ [da, db] hcalls₃ hran₃ (refused hanswer)
        exact proper_fail hend.1 hend.2 (by simp [text])
    · rename_i answer x₂ hanswer hasked₂
      have hcalls₂ := ask_calls hasked₂
      have hran₂ := ask_runs hran₁ hasked₂
      rw [hcalls₁] at hcalls₂
      have hend := tidy_frees _ [da] hcalls₂ hran₂ (refused hanswer)
      exact proper_fail hend.1 hend.2 (by simp [text])
  · rename_i answer x₁ hanswer hasked₁
    have hcalls₁ := ask_calls hasked₁
    have hran₁ := ask_runs hstart hasked₁
    have hend := tidy_frees 0 [] hcalls₁ hran₁ (refused hanswer)
    exact proper_fail hend.1 hend.2 (by simp [text])

/-- On any device, whatever it answers: the buffers that it gave are given back once,
after all else, and nothing else is used; a failure leaves the output as it was, and
says what failed; and what is returned is a vector that the host found to be the
sums, and its digest. -/
theorem runVectorAdd_proper (device : Device σ F) (arith : FloatArith F) (s : σ)
    (n seed base : UInt32) (o : Output) :
    Run.Proper device arith s n seed base o (runVectorAdd device arith s n seed base o) :=
  proper_run device arith s n seed base o

end ExecutionFabric.Cuda
