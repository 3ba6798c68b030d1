import ExecutionFabric.Cuda.Driver
import Mathlib.Logic.Function.Basic

/-!
`run_vector_add` on a device that does what it says.

Of such a device (`Faithful`) it is known what is in its buffers: what is copied into
one, if no error is told, and what the threads of a launch put there, in whatever
order. Then the vector that is returned is settled by its size, the seed and the base
(`runVectorAdd_computes`), and so two parts of a vector, computed apart, are the vector
(`runVectorAdd_parts`). And there is nothing in the memory of the device, that was not
there before.
-/

namespace ExecutionFabric.Cuda

open StepMachine Function

variable {σ F : Type}

/-- The buffers, and what is in them. -/
abbrev Memory (F : Type) := ℕ → Option (List F)

/-- The answer tells of no failure. -/
def Granted : Request F × Answer F → Prop
  | (.malloc _, answer) => ∃ p, answer = .allocated p
  | (.copyOut _ _, answer) => ∃ xs, answer = .copied xs
  | (.free _, _) => True
  | (_, answer) => ∀ e, answer ≠ .error e

/-- What is known of a device: its buffers are apart, and a call changes only the one
it is about; and if it tells of no failure, as it should. -/
structure Faithful (device : Device σ F) (contents : σ → Memory F) (add : F → F → F) : Prop where
  malloc : ∀ s bytes p, device.out s (.malloc bytes) = .allocated p →
    contents s p = none ∧ ∃ xs : List F, xs.length * 4 = bytes ∧
      contents (device.next s (.malloc bytes)) = update (contents s) p (some xs)
  refuses : ∀ s bytes, (∀ p, device.out s (.malloc bytes) ≠ .allocated p) →
    contents (device.next s (.malloc bytes)) = contents s
  free : ∀ s p, (contents s p).isSome →
    contents (device.next s (.free p)) = update (contents s) p none
  lastError : ∀ s, contents (device.next s .lastError) = contents s
  copyIn : ∀ s p xs old, contents s p = some old → old.length = xs.length →
    ∃ new : List F, new.length = xs.length ∧
      contents (device.next s (.copyIn p xs)) = update (contents s) p (some new) ∧
      (Granted (.copyIn p xs, device.out s (.copyIn p xs)) → new = xs)
  /-- A kernel that no thread takes out of the buffers ends with the synchronization. -/
  launch : ∀ s blocks threads a b c n xs ys zs, contents s a = some xs → contents s b = some ys →
    contents s c = some zs →
    (∀ order : List Thread, order.Perm (grid blocks threads) →
      kernel add xs ys n threads order zs ≠ none) →
    let r : Request F := .launch blocks threads a b c n
    let s' := device.next s r
    ∃ new new' : List F, new.length = zs.length ∧ new'.length = zs.length ∧
      contents s' = update (contents s) c (some new) ∧
      contents (device.next s' .synchronize) = update (contents s) c (some new') ∧
      (Granted (r, device.out s r) → Granted (.synchronize, device.out s' .synchronize) →
        ∃ order : List Thread, order.Perm (grid blocks threads) ∧
          kernel add xs ys n threads order zs = some new')
  copyOut : ∀ s p count, contents (device.next s (.copyOut p count)) = contents s ∧
    ∀ xs, contents s p = some xs → xs.length = count →
      ∀ got, device.out s (.copyOut p count) = .copied got → got = xs

/-! ### Three buffers -/

/-- A memory, and three buffers more. -/
def Memory.plus (m : Memory F) (da db dc : ℕ) (xs ys zs : List F) : Memory F :=
  update (update (update m da (some xs)) db (some ys)) dc (some zs)

/-- Three buffers that are not in the memory. -/
structure Memory.Apart (m : Memory F) (da db dc : ℕ) : Prop where
  fresh₁ : m da = none
  fresh₂ : m db = none
  fresh₃ : m dc = none
  ne₁ : da ≠ db
  ne₂ : da ≠ dc
  ne₃ : db ≠ dc

namespace Memory.Apart

variable {m : Memory F} {da db dc : ℕ} {xs ys zs : List F}

theorem first (h : m.Apart da db dc) : m.plus da db dc xs ys zs da = some xs := by
  rw [plus, update_of_ne h.ne₂, update_of_ne h.ne₁, update_self]

theorem second (h : m.Apart da db dc) : m.plus da db dc xs ys zs db = some ys := by
  rw [plus, update_of_ne h.ne₃, update_self]

theorem third : m.plus da db dc xs ys zs dc = some zs := update_self _ _ _

theorem update_first (h : m.Apart da db dc) (new : List F) :
    update (m.plus da db dc xs ys zs) da (some new) = m.plus da db dc new ys zs := by
  rw [plus, plus, update_comm h.ne₂.symm, update_comm h.ne₁.symm, update_idem]

theorem update_second (h : m.Apart da db dc) (new : List F) :
    update (m.plus da db dc xs ys zs) db (some new) = m.plus da db dc xs new zs := by
  rw [plus, plus, update_comm h.ne₃.symm, update_idem]

theorem update_third (new : List F) :
    update (m.plus da db dc xs ys zs) dc (some new) = m.plus da db dc xs ys new := update_idem _ _ _

/-- Without the three it is the memory again. -/
theorem minus (h : m.Apart da db dc) :
    update (update (update (m.plus da db dc xs ys zs) da none) db none) dc none = m := by
  funext p
  by_cases hc : p = dc
  · rw [hc, update_self, h.fresh₃]
  by_cases hb : p = db
  · rw [hb, update_of_ne h.ne₃, update_self, h.fresh₂]
  by_cases ha : p = da
  · rw [ha, update_of_ne h.ne₂, update_of_ne h.ne₁, update_self, h.fresh₁]
  rw [update_of_ne hc, update_of_ne hb, update_of_ne ha, plus, update_of_ne hc, update_of_ne hb,
    update_of_ne ha]

end Memory.Apart

/-! ### The work -/

section

variable {device : Device σ F} {arith : FloatArith F} {contents : σ → Memory F} {add : F → F → F}
  {m : Memory F} {da db dc : ℕ} {n : UInt32} {a b : List F}

theorem asks_failed {w : Work σ F} {failure : ByteString} (hw : w.failure = some failure)
    (steps : List (Request F × (ByteString → ByteString))) :
    steps.foldl (Work.ask device) w = w := by
  induction steps with
  | nil => rfl
  | cons step steps ih =>
      have hsame : w.ask device step = w := by
        unfold Work.ask
        rw [hw]
      rw [List.foldl_cons, hsame, ih]

/-- A call that is made. -/
theorem ask_made (device : Device σ F) {w : Work σ F} (hw : w.failure = none)
    (step : Request F × (ByteString → ByteString)) :
    (w.ask device step).session = (w.session.ask device step.1).2 ∧
      ((w.ask device step).failure = none ↔ ∀ e, device.out w.session.state step.1 ≠ .error e) := by
  unfold Work.ask
  simp only [hw, Session.ask]
  cases device.out w.session.state step.1 with
  | error e => exact ⟨rfl, fun h => absurd h (Option.some_ne_none _), fun h => absurd rfl (h e)⟩
  | success | allocated | copied => exact ⟨rfl, fun _ _ h => (by cases h), fun _ => rfl⟩

/-- The steps are all taken, exactly when no call tells of a failure. -/
theorem asks_granted (device : Device σ F)
    (steps : List (Request F × (ByteString → ByteString))) {w : Work σ F} (hw : w.failure = none) :
    ∃ more, (steps.foldl (Work.ask device) w).session.calls = w.session.calls ++ more ∧
      (∀ z ∈ more, z.1 ∈ steps.map Prod.fst) ∧
      ((steps.foldl (Work.ask device) w).failure = none ↔ ∀ z ∈ more, ∀ e, z.2 ≠ .error e) := by
  induction steps generalizing w with
  | nil => exact ⟨[], (List.append_nil _).symm, fun _ hz => absurd hz List.not_mem_nil,
      fun _ _ hz => absurd hz List.not_mem_nil, fun _ => hw⟩
  | cons step steps ih =>
      obtain ⟨hsession, hfailure⟩ := ask_made device hw step
      have hcalls : (w.ask device step).session.calls =
          w.session.calls ++ [(step.1, device.out w.session.state step.1)] := by
        rw [hsession]
        rfl
      rw [List.foldl_cons]
      cases hask : (w.ask device step).failure with
      | none =>
          obtain ⟨more, hmore, hasked, hiff⟩ := ih hask
          refine ⟨_ :: more, by rw [hmore, hcalls, List.append_assoc]; rfl, ?_, ?_⟩
          · exact List.forall_mem_cons.2 ⟨List.mem_cons_self, fun z hz =>
              List.mem_cons_of_mem step.1 (hasked z hz)⟩
          · rw [hiff, List.forall_mem_cons]
            exact ⟨fun h => ⟨hfailure.1 hask, h⟩, fun h => h.2⟩
      | some failure =>
          refine ⟨_, by rw [asks_failed hask, hcalls], ?_, ?_⟩
          · exact List.forall_mem_singleton.2 List.mem_cons_self
          · rw [asks_failed hask, hfailure, List.forall_mem_singleton]

/-- The three buffers are there, and if nothing has failed, `facts` holds. -/
def Holds (contents : σ → Memory F) (m : Memory F) (da db dc n : ℕ)
    (facts : σ → List F → List F → List F → Prop) (w : Work σ F) : Prop :=
  ∃ xs ys zs, xs.length = n ∧ ys.length = n ∧ zs.length = n ∧
    contents w.session.state = m.plus da db dc xs ys zs ∧
    (w.failure = none → facts w.session.state xs ys zs)

theorem Holds.ask (facts : σ → List F → List F → List F → Prop)
    {facts' : σ → List F → List F → List F → Prop} {w : Work σ F} {l : ℕ}
    (h : Holds contents m da db dc l facts w) (step : Request F × (ByteString → ByteString))
    (hstep : ∀ s xs ys zs, xs.length = l → ys.length = l → zs.length = l →
      contents s = m.plus da db dc xs ys zs → facts s xs ys zs →
        ∃ xs' ys' zs', xs'.length = l ∧ ys'.length = l ∧ zs'.length = l ∧
          contents (device.next s step.1) = m.plus da db dc xs' ys' zs' ∧
          ((∀ e, device.out s step.1 ≠ .error e) → facts' (device.next s step.1) xs' ys' zs')) :
    Holds contents m da db dc l facts' (w.ask device step) := by
  obtain ⟨xs, ys, zs, hxs, hys, hzs, hcontents, hfacts⟩ := h
  cases hw : w.failure with
  | some failure =>
      have hsame : w.ask device step = w := asks_failed hw [step]
      rw [hsame]
      refine ⟨xs, ys, zs, hxs, hys, hzs, hcontents, fun hnone => ?_⟩
      rw [hw] at hnone
      cases hnone
  | none =>
      obtain ⟨xs', ys', zs', hxs', hys', hzs', hnext, hfacts'⟩ :=
        hstep _ xs ys zs hxs hys hzs hcontents (hfacts hw)
      obtain ⟨hsession, hfailure⟩ := ask_made device hw step
      refine ⟨xs', ys', zs', hxs', hys', hzs', ?_, fun hnone => ?_⟩
      · rw [hsession]
        exact hnext
      · rw [hsession]
        exact hfacts' (hfailure.1 hnone)

/-- After the steps, the sums are in the third buffer. -/
theorem holds_steps (hdevice : Faithful device contents add) (hapart : m.Apart da db dc)
    (hn : n.toNat < 2 ^ 31) (ha : a.length = n.toNat) (hb : b.length = n.toNat) {w : Work σ F}
    (hw : Holds contents m da db dc n.toNat (fun _ _ _ _ => True) w) :
    Holds contents m da db dc n.toNat (fun _ _ _ zs => zs = List.zipWith add a b)
      ((steps n a b da db dc).foldl (Work.ask device) w) := by
  simp only [steps, List.foldl_cons, List.foldl_nil]
  have h₁ : Holds contents m da db dc n.toNat (fun _ _ _ _ => True)
      (w.ask device (.lastError, fun e => text "cudaMalloc: " ++ e)) :=
    hw.ask _ _ fun s xs ys zs hxs hys hzs hs _ =>
      ⟨xs, ys, zs, hxs, hys, hzs, (hdevice.lastError s).trans hs, fun _ => trivial⟩
  refine Holds.ask (fun s xs ys zs => ∃ zs', zs'.length = n.toNat ∧
      contents (device.next s .synchronize) = m.plus da db dc xs ys zs' ∧
      ((∀ e, device.out s .synchronize ≠ .error e) → zs' = List.zipWith add a b)) ?_ _ ?_
  · refine Holds.ask (fun _ xs ys _ => xs = a ∧ ys = b) ?_ _ ?_
    · refine Holds.ask (fun _ xs _ _ => xs = a) ?_ _ ?_
      · refine h₁.ask _ _ fun s xs ys zs hxs hys hzs hs _ => ?_
        obtain ⟨new, hlength, hnext, hgranted⟩ := hdevice.copyIn s da a xs
          (hs ▸ hapart.first) (hxs.trans ha.symm)
        exact ⟨new, ys, zs, hlength.trans ha, hys, hzs, by rw [hnext, hs, hapart.update_first],
          hgranted⟩
      · rintro s xs ys zs hxs hys hzs hs rfl
        obtain ⟨new, hlength, hnext, hgranted⟩ := hdevice.copyIn s db b ys
          (hs ▸ hapart.second) (hys.trans hb.symm)
        exact ⟨xs, new, zs, hxs, hlength.trans hb, hzs, by rw [hnext, hs, hapart.update_second],
          fun h => ⟨rfl, hgranted h⟩⟩
    · rintro s xs ys zs hxs hys hzs hs ⟨rfl, rfl⟩
      have hexact : ∀ order : List Thread, order.Perm (grid (blocks n).toUInt32 threads) →
          kernel add xs ys n.toInt32 threads order zs = some (List.zipWith add xs ys) :=
        fun _ horder => kernel_adds hn hxs hys hzs horder
      obtain ⟨new, new', hlength, hlength', hnext, hnext', hgranted⟩ := hdevice.launch s
        (blocks n).toUInt32 threads da db dc n.toInt32 xs ys zs (hs ▸ hapart.first)
        (hs ▸ hapart.second) (hs ▸ Memory.Apart.third) fun order horder => by
          rw [hexact order horder]
          exact Option.some_ne_none _
      refine ⟨xs, ys, new, hxs, hys, hlength.trans hzs,
        by rw [hnext, hs, Memory.Apart.update_third], fun hlaunched =>
          ⟨new', hlength'.trans hzs, by rw [hnext', hs, Memory.Apart.update_third], fun hdone => ?_⟩⟩
      obtain ⟨order, horder, hkernel⟩ := hgranted hlaunched hdone
      exact Option.some.inj (hkernel.symm.trans (hexact order horder))
  · rintro s xs ys zs hxs hys hzs hs ⟨zs', hzs', hnext, hdone⟩
    exact ⟨xs, ys, zs', hxs, hys, hzs', hnext, hdone⟩

theorem granted_of_step {z : Request F × Answer F}
    (hz : z.1 ∈ (steps n a b da db dc).map Prod.fst) : Granted z ↔ ∀ e, z.2 ≠ .error e := by
  obtain ⟨r, answer⟩ := z
  simp only [steps, List.map_cons, List.map_nil, List.mem_cons, List.not_mem_nil, or_false] at hz
  rcases hz with rfl | rfl | rfl | rfl | rfl <;> rfl

/-- The sums of the device pass the comparison with the sums of the host. -/
theorem mismatch_sums (hagree : ∀ x y, arith.eq (add x y) (arith.add x y) = true)
    (hlength : a.length = b.length) : mismatch arith a b (List.zipWith add a b) = none := by
  refine List.find?_eq_none.2 fun i hi => ?_
  have hia : i < a.length := List.mem_range.1 hi
  have hib : i < b.length := hlength ▸ hia
  have hisum : i < (List.zipWith add a b).length := by
    rw [List.length_zipWith, ← hlength, Nat.min_self]
    exact hia
  rw [List.getD_eq_getElem _ _ hisum, List.getD_eq_getElem _ _ hia, List.getD_eq_getElem _ _ hib,
    List.getElem_zipWith, hagree]
  exact Bool.false_ne_true

/-- A copy of full length leaves none of the zeros that it is written over. -/
theorem take_append_replicate {c : List F} {l : ℕ} (hc : c.length = l) (zero : F) :
    c.take l ++ List.replicate (l - c.length) zero = c := by
  rw [hc, Nat.sub_self, List.replicate_zero, List.append_nil, List.take_of_length_le hc.le]

/-- What `work` makes of the third buffer, and when. -/
theorem work_computes (arith : FloatArith F) (hdevice : Faithful device contents add)
    (hapart : m.Apart da db dc) (hn : n.toNat < 2 ^ 31) (ha : a.length = n.toNat)
    (hb : b.length = n.toNat) (hagree : ∀ x y, arith.eq (add x y) (arith.add x y) = true)
    {x : Session σ F} {xs ys zs : List F} (hxs : xs.length = n.toNat) (hys : ys.length = n.toNat)
    (hzs : zs.length = n.toNat) (hx : contents x.state = m.plus da db dc xs ys zs) :
    let y := work device arith x n a b da db dc
    (∃ xs ys zs, contents y.2.state = m.plus da db dc xs ys zs) ∧
      (∀ c, y.1 = .ok c → c = List.zipWith add a b) ∧
      ∃ more, y.2.calls = x.calls ++ more ∧ ((∃ c, y.1 = .ok c) ↔ ∀ z ∈ more, Granted z) := by
  intro y
  have hstart : Holds contents m da db dc n.toNat (fun _ _ _ _ => True) (Work.mk x none) :=
    ⟨xs, ys, zs, hxs, hys, hzs, hx, fun _ => trivial⟩
  have hholds := holds_steps hdevice hapart hn ha hb hstart
  obtain ⟨more, hmore, hasked, hiff⟩ :=
    asks_granted device (steps n a b da db dc) (w := Work.mk x none) rfl
  have hy : y = work device arith x n a b da db dc := rfl
  unfold work at hy
  dsimp only at hy
  generalize (steps n a b da db dc).foldl (Work.ask device) _ = w at hy hholds hmore hiff
  obtain ⟨xs', ys', zs', hxs', hys', hzs', hcontents, hsums⟩ := hholds
  have hall : (∀ z ∈ more, ∀ e, z.2 ≠ .error e) ↔ ∀ z ∈ more, Granted z :=
    forall₂_congr fun z hz => (granted_of_step (hasked z hz)).symm
  split at hy
  · rename_i failure hfailure
    rw [hy]
    refine ⟨⟨xs', ys', zs', hcontents⟩, fun c hc => (by cases hc), more, hmore, ?_⟩
    rw [← hall, ← hiff, hfailure]
    constructor
    · rintro ⟨c, hc⟩
      cases hc
    · intro h
      cases h
  · rename_i hnone
    obtain ⟨hcopied, hgot⟩ := hdevice.copyOut w.session.state dc n.toNat
    have hcalls : (w.session.ask device (.copyOut dc n.toNat)).2.calls = x.calls ++
        (more ++ [(.copyOut dc n.toNat, device.out w.session.state (.copyOut dc n.toNat))]) := by
      rw [← List.append_assoc, ← hmore]
      rfl
    have hstate : contents (w.session.ask device (.copyOut dc n.toNat)).2.state =
        m.plus da db dc xs' ys' zs' := hcopied.trans hcontents
    have hcopy : (∀ z ∈ more ++ [(.copyOut dc n.toNat,
        device.out w.session.state (.copyOut dc n.toNat))], Granted z) ↔
          ∃ got, device.out w.session.state (.copyOut dc n.toNat) = .copied got := by
      rw [List.forall_mem_append, List.forall_mem_singleton, ← hall, ← hiff]
      exact and_iff_right hnone
    split at hy
    · rename_i got session hcopied
      have hanswer : device.out w.session.state (.copyOut dc n.toNat) = .copied got :=
        congrArg Prod.fst hcopied
      have hsession : (w.session.ask device (.copyOut dc n.toNat)).2 = session :=
        congrArg Prod.snd hcopied
      have hthird : contents w.session.state dc = some zs' := hcontents ▸ Memory.Apart.third
      have hsame : got = List.zipWith add a b :=
        (hgot zs' hthird hzs' got hanswer).trans (hsums hnone)
      have hlength : (List.zipWith add a b).length = n.toNat := by
        rw [List.length_zipWith, ha, hb, Nat.min_self]
      rw [hsame, take_append_replicate hlength, mismatch_sums hagree (ha.trans hb.symm)] at hy
      rw [hsession] at hcalls hstate
      rw [hy]
      exact ⟨⟨xs', ys', zs', hstate⟩, fun c hc => (Except.ok.inj hc).symm, _, hcalls,
        fun _ => hcopy.2 ⟨got, hanswer⟩, fun _ => ⟨_, rfl⟩⟩
    · rename_i answer session hne hcopied
      have hanswer : device.out w.session.state (.copyOut dc n.toNat) = answer :=
        congrArg Prod.fst hcopied
      have hsession : (w.session.ask device (.copyOut dc n.toNat)).2 = session :=
        congrArg Prod.snd hcopied
      rw [hsession] at hcalls hstate
      rw [hy]
      refine ⟨⟨xs', ys', zs', hstate⟩, fun c hc => (by cases hc), _, hcalls, ?_⟩
      rw [hcopy, hanswer]
      constructor
      · rintro ⟨c, hc⟩
        cases hc
      · rintro ⟨got, rfl⟩
        exact absurd rfl (hne got)

/-! ### The whole -/

theorem malloc_given (hdevice : Faithful device contents add) {x y : Session σ F} {size p : ℕ}
    (hasked : x.ask device (.malloc size) = (.allocated p, y)) :
    contents x.state p = none ∧ ∃ xs : List F, xs.length * 4 = size ∧
      contents y.state = update (contents x.state) p (some xs) := by
  obtain ⟨hanswer, rfl⟩ := Prod.mk.inj hasked
  exact hdevice.malloc x.state size p hanswer

theorem malloc_refused (hdevice : Faithful device contents add) {x y : Session σ F} {size : ℕ}
    {answer : Answer F} (hanswer : ∀ p, answer ≠ .allocated p)
    (hasked : x.ask device (.malloc size) = (answer, y)) :
    contents y.state = contents x.state := by
  obtain ⟨rfl, rfl⟩ := Prod.mk.inj hasked
  exact hdevice.refuses x.state size hanswer

/-- An allocation that was refused. -/
theorem not_granted {x y : Session σ F} {size : ℕ} {answer : Answer F}
    (hanswer : ∀ p, answer ≠ .allocated p) (hasked : x.ask device (.malloc size) = (answer, y))
    (ps : List ℕ) : ¬∀ z ∈ (ps.foldl (Session.free device) y).calls, Granted z := by
  obtain ⟨after, hcalls, -⟩ := frees_calls device y ps
  intro hall
  obtain ⟨p, hp⟩ := hall (.malloc size, answer) (by rw [hcalls, ask_calls hasked]; simp)
  exact hanswer p hp

theorem frees_granted {y : Session σ F} (ps : List ℕ) :
    (∀ z ∈ (ps.foldl (Session.free device) y).calls, Granted z) ↔ ∀ z ∈ y.calls, Granted z := by
  obtain ⟨after, hcalls, hafter, -⟩ := frees_calls device y ps
  rw [hcalls, List.forall_mem_append]
  refine and_iff_left fun z hz => ?_
  obtain ⟨r, answer⟩ := z
  have hr : r ∈ ps.map Request.free := hafter ▸ List.mem_map.2 ⟨_, hz, rfl⟩
  obtain ⟨p, -, rfl⟩ := List.mem_map.1 hr
  trivial

theorem free_live (hdevice : Faithful device contents add) {x : Session σ F} {mem : Memory F}
    {p : ℕ} {xs : List F} (hx : contents x.state = mem) (hlive : mem p = some xs) :
    contents (x.free device p).state = update mem p none := by
  subst hx
  exact hdevice.free x.state p (hlive ▸ rfl)

theorem update_fresh {p : ℕ} (h : m p = none) (xs : List F) :
    update (update m p (some xs)) p none = m := by
  rw [update_idem]
  exact update_eq_self_iff.2 h.symm

/-- The deallocation gives back the buffer. -/
theorem free_contents (hdevice : Faithful device contents add) {x : Session σ F} {p : ℕ}
    {xs : List F} (hfresh : m p = none) (hx : contents x.state = update m p (some xs)) :
    contents (x.free device p).state = m :=
  (free_live hdevice hx (update_self p _ m)).trans (update_fresh hfresh xs)

/-- The deallocations give back two buffers. -/
theorem frees_two (hdevice : Faithful device contents add) {x : Session σ F} {xs ys : List F}
    (hfresh₁ : m da = none) (hfresh₂ : m db = none) (hne : da ≠ db)
    (hx : contents x.state = update (update m da (some xs)) db (some ys)) :
    contents ([da, db].foldl (Session.free device) x).state = m := by
  have hlive : update (update m da (some xs)) db (some ys) da = some xs := by
    rw [update_of_ne hne, update_self]
  have hfirst := free_live hdevice hx hlive
  rw [update_comm hne.symm, update_fresh hfresh₁] at hfirst
  exact free_contents hdevice hfresh₂ hfirst

/-- The deallocations give back three buffers. -/
theorem frees_three (hdevice : Faithful device contents add) (hapart : m.Apart da db dc)
    {x : Session σ F} {xs ys zs : List F} (hx : contents x.state = m.plus da db dc xs ys zs) :
    contents ([da, db, dc].foldl (Session.free device) x).state = m := by
  have h₁ := free_live hdevice hx hapart.first
  have h₂ := free_live hdevice h₁
    (by rw [update_of_ne hapart.ne₁.symm]; exact hapart.second)
  have h₃ := free_live hdevice h₂
    (by rw [update_of_ne hapart.ne₃.symm, update_of_ne hapart.ne₂.symm]; exact Memory.Apart.third)
  exact h₃.trans hapart.minus

/-- Two allocations give two buffers. -/
theorem given_two (hdevice : Faithful device contents add) {x x₁ x₂ : Session σ F} {size : ℕ}
    (hasked₁ : x.ask device (.malloc size) = (.allocated da, x₁))
    (hasked₂ : x₁.ask device (.malloc size) = (.allocated db, x₂)) :
    contents x.state da = none ∧ contents x.state db = none ∧ da ≠ db ∧
      ∃ xs ys : List F, xs.length * 4 = size ∧ ys.length * 4 = size ∧
        contents x₂.state = update (update (contents x.state) da (some xs)) db (some ys) := by
  obtain ⟨hfresh₁, xs, hxs, hx₁⟩ := malloc_given hdevice hasked₁
  obtain ⟨hfresh₂, ys, hys, hx₂⟩ := malloc_given hdevice hasked₂
  rw [hx₁] at hfresh₂ hx₂
  have hne : da ≠ db := by
    rintro rfl
    rw [update_self] at hfresh₂
    cases hfresh₂
  rw [update_of_ne hne.symm] at hfresh₂
  exact ⟨hfresh₁, hfresh₂, hne, xs, ys, hxs, hys, hx₂⟩

/-- Three allocations give three. -/
theorem given_three (hdevice : Faithful device contents add) {x x₁ x₂ x₃ : Session σ F}
    {size : ℕ} (hasked₁ : x.ask device (.malloc size) = (.allocated da, x₁))
    (hasked₂ : x₁.ask device (.malloc size) = (.allocated db, x₂))
    (hasked₃ : x₂.ask device (.malloc size) = (.allocated dc, x₃)) :
    Memory.Apart (contents x.state) da db dc ∧
      ∃ xs ys zs : List F, xs.length * 4 = size ∧ ys.length * 4 = size ∧ zs.length * 4 = size ∧
        contents x₃.state = Memory.plus (contents x.state) da db dc xs ys zs := by
  obtain ⟨hfresh₁, hfresh₂, hne₁, xs, ys, hxs, hys, hx₂⟩ := given_two hdevice hasked₁ hasked₂
  obtain ⟨hfresh₃, zs, hzs, hx₃⟩ := malloc_given hdevice hasked₃
  rw [hx₂] at hfresh₃ hx₃
  have hne₂ : da ≠ dc := by
    rintro rfl
    rw [update_of_ne hne₁, update_self] at hfresh₃
    cases hfresh₃
  have hne₃ : db ≠ dc := by
    rintro rfl
    rw [update_self] at hfresh₃
    cases hfresh₃
  rw [update_of_ne hne₃.symm, update_of_ne hne₂.symm] at hfresh₃
  exact ⟨⟨hfresh₁, hfresh₂, hfresh₃, hne₁, hne₂, hne₃⟩, xs, ys, zs, hxs, hys, hzs, hx₃⟩

end

/-- The sums of a vector, as a device adds. -/
def sums (arith : FloatArith F) (add : F → F → F) (n seed base : UInt32) : List F :=
  List.zipWith add (operands (operandA arith seed) n base) (operands (operandB arith seed) n base)

/-- On a faithful device, whose sums the host agrees with, and for less than 2³¹
elements: its memory is in the end as it was; the sums are returned, if no call tells of a
failure, and nothing is returned otherwise. -/
theorem run_computes {device : Device σ F} {arith : FloatArith F}
    {contents : σ → Memory F} {add : F → F → F} (hdevice : Faithful device contents add)
    (hagree : ∀ x y, arith.eq (add x y) (arith.add x y) = true) {n : UInt32}
    (hn : n.toNat < 2 ^ 31) (s : σ) (seed base : UInt32) (o : Output) :
    let r := runVectorAdd device arith s n seed base o
    contents r.session.state = contents s ∧
      (r.returned = true ↔ n ≠ 0 ∧ ∀ z ∈ r.session.calls, Granted z) ∧
      (r.returned = true →
        r.output.outBytes = vectorBytes arith (sums arith add n seed base)) := by
  intro r
  have hr : r = runVectorAdd device arith s n seed base o := rfl
  have hno : ∀ {P : Prop}, false = true → P := fun h => absurd h Bool.false_ne_true
  unfold runVectorAdd at hr
  dsimp only at hr
  split at hr
  · rename_i hzero
    rw [hr]
    exact ⟨rfl, ⟨hno, fun h => absurd hzero h.1⟩, hno⟩
  rename_i hne
  split at hr
  · rename_i da x₁ hasked₁
    split at hr
    · rename_i db x₂ hasked₂
      split at hr
      · rename_i dc x₃ hasked₃
        obtain ⟨hapart, xs, ys, zs, hxs, hys, hzs, hx₃⟩ :=
          given_three hdevice hasked₁ hasked₂ hasked₃
        obtain ⟨⟨xs', ys', zs', hstate⟩, hsums, more, hmore, hok⟩ :=
          work_computes arith hdevice hapart hn (length_operands (operandA arith seed) n base)
            (length_operands (operandB arith seed) n base) hagree (by omega) (by omega) (by omega)
            hx₃
        generalize work device arith x₃ n (operands (operandA arith seed) n base)
          (operands (operandB arith seed) n base) da db dc = y at hr hstate hsums hmore hok
        obtain ⟨result, session⟩ := y
        have hend : contents ([da, db, dc].foldl (Session.free device) session).state =
            contents s := frees_three hdevice hapart hstate
        have hbefore : ∀ z ∈ x₃.calls, Granted z := by
          rw [ask_calls hasked₃, ask_calls hasked₂, ask_calls hasked₁]
          simp [Granted]
        have hgranted : (∀ z ∈ ([da, db, dc].foldl (Session.free device) session).calls,
            Granted z) ↔ ∃ c, result = .ok c := by
          rw [frees_granted, hmore, List.forall_mem_append, hok]
          exact and_iff_right hbefore
        cases result with
        | error e =>
            rw [hr]
            refine ⟨hend, ⟨hno, fun h => ?_⟩, hno⟩
            obtain ⟨c, hc⟩ := hgranted.1 h.2
            cases hc
        | ok c =>
            rw [hr]
            refine ⟨hend, ⟨fun _ => ⟨hne, hgranted.2 ⟨c, rfl⟩⟩, fun _ => rfl⟩, fun _ => ?_⟩
            exact congrArg (vectorBytes arith) (hsums c rfl)
      · rename_i answer x₃ hanswer hasked₃
        obtain ⟨hfresh₁, hfresh₂, hapart, xs, ys, -, -, hx₂⟩ := given_two hdevice hasked₁ hasked₂
        have hx₃ := (malloc_refused hdevice hanswer hasked₃).trans hx₂
        rw [hr]
        exact ⟨frees_two hdevice hfresh₁ hfresh₂ hapart hx₃,
          ⟨hno, fun h => absurd h.2 (not_granted hanswer hasked₃ [da, db])⟩, hno⟩
    · rename_i answer x₂ hanswer hasked₂
      obtain ⟨hfresh₁, xs, -, hx₁⟩ := malloc_given hdevice hasked₁
      have hx₂ := (malloc_refused hdevice hanswer hasked₂).trans hx₁
      rw [hr]
      exact ⟨free_contents hdevice hfresh₁ hx₂,
        ⟨hno, fun h => absurd h.2 (not_granted hanswer hasked₂ [da])⟩, hno⟩
  · rename_i answer x₁ hanswer hasked₁
    rw [hr]
    exact ⟨malloc_refused hdevice hanswer hasked₁,
      ⟨hno, fun h => absurd h.2 (not_granted hanswer hasked₁ [])⟩, hno⟩

/-! ### Parts of a vector -/

theorem operands_add (operand : UInt32 → F) {n₁ n₂ : UInt32}
    (hn : n₁.toNat + n₂.toNat < 2 ^ 32) (base : UInt32) :
    operands operand (n₁ + n₂) base =
      operands operand n₁ base ++ operands operand n₂ (base + n₁) := by
  have hsize : (n₁ + n₂).toNat = n₁.toNat + n₂.toNat := by
    rw [UInt32.toNat_add, Nat.mod_eq_of_lt hn]
  unfold operands
  rw [hsize, List.range_add, List.map_append, List.map_map]
  congr 1
  refine List.map_congr_left fun i _ => ?_
  have hindex : base + (n₁.toNat + i).toUInt32 = base + n₁ + i.toUInt32 := by
    rw [UInt32.add_assoc]
    congr 1
    simp
  exact congrArg operand hindex

theorem sums_add (arith : FloatArith F) (add : F → F → F) {n₁ n₂ : UInt32}
    (hn : n₁.toNat + n₂.toNat < 2 ^ 32) (seed base : UInt32) :
    sums arith add (n₁ + n₂) seed base =
      sums arith add n₁ seed base ++ sums arith add n₂ seed (base + n₁) := by
  unfold sums
  rw [operands_add _ hn, operands_add _ hn, List.zipWith_append]
  rw [length_operands, length_operands]

namespace Sample

/-- Hundredths, for floats. -/
def hundredths : FloatArith ℕ where
  ofUInt32 := fun u => u.toNat * 100
  hundred := 100
  zero := 0
  add := (· + ·)
  div := (· / ·)
  eq := (· == ·)
  bytes := fun x => ⟨[x.toUInt8, (x / 2 ^ 8).toUInt8, (x / 2 ^ 16).toUInt8, (x / 2 ^ 24).toUInt8],
    rfl⟩

/-- A device that has what it is asked for: its memory, and the number of its next
buffer. -/
def gpu : Device (Memory ℕ × ℕ) ℕ where
  step := fun s r =>
    match r with
    | .malloc bytes =>
      if s.1 s.2 = none ∧ bytes % 4 = 0 then
        ((update s.1 s.2 (some (List.replicate (bytes / 4) 0)), s.2 + 1), .allocated s.2)
      else (s, .error [])
    | .lastError | .synchronize => (s, .success)
    | .copyIn p xs => ((update s.1 p (some xs), s.2), .success)
    | .launch blocks threads a b c n =>
      match s.1 a, s.1 b, s.1 c with
      | some xs, some ys, some zs =>
        match kernel (· + ·) xs ys n threads (grid blocks threads) zs with
        | some new => ((update s.1 c (some new), s.2), .success)
        | none => (s, .error [])
      | _, _, _ => (s, .error [])
    | .copyOut p _ => (s, (s.1 p).elim (.error []) .copied)
    | .free p => ((update s.1 p none, s.2), .success)

theorem faithful_gpu : Faithful gpu Prod.fst (· + ·) where
  malloc := by
    intro s bytes p hp
    unfold Machine.next
    unfold Machine.out at hp
    simp only [gpu] at hp ⊢
    split at hp
    · rename_i hfree
      obtain rfl := Answer.allocated.inj hp
      rw [if_pos hfree]
      refine ⟨hfree.1, _, ?_, rfl⟩
      rw [List.length_replicate]
      omega
    · cases hp
  refuses := by
    intro s bytes hrefused
    unfold Machine.next
    unfold Machine.out at hrefused
    simp only [gpu] at hrefused ⊢
    split
    · rename_i hfree
      rw [if_pos hfree] at hrefused
      exact absurd rfl (hrefused s.2)
    · rfl
  free := fun _ _ _ => rfl
  lastError := fun _ => rfl
  copyIn := fun _ _ xs _ _ _ => ⟨xs, rfl, rfl, fun _ => rfl⟩
  launch := by
    intro s blocks threads a b c n xs ys zs ha hb hc hkernel r s'
    cases hnew : kernel (· + ·) xs ys n threads (grid blocks threads) zs with
    | none => exact absurd hnew (hkernel _ (List.Perm.refl _))
    | some new =>
        have hs' : s' = (update s.1 c (some new), s.2) := by
          show (gpu.step s r).1 = _
          simp only [r, gpu, ha, hb, hc, hnew]
        have hlength := length_kernel hnew
        refine ⟨new, new, hlength, hlength, by rw [hs'], ?_, fun _ _ => ⟨_, List.Perm.refl _, hnew⟩⟩
        rw [hs']
        rfl
  copyOut := by
    refine fun s p count => ⟨rfl, fun xs hxs _ got hgot => ?_⟩
    have hcopied : (s.1 p).elim (.error []) Answer.copied = .copied got := hgot
    rw [hxs] at hcopied
    exact (Answer.copied.inj hcopied).symm

theorem agrees_hundredths (x y : ℕ) : hundredths.eq (x + y) (hundredths.add x y) = true :=
  beq_self_eq_true (x + y)

/-- Before a run. -/
def untouched : Output := ⟨[], ⟨.replicate 32 0⟩, []⟩

def fresh : Memory ℕ × ℕ := (fun _ => none, 0)

end Sample

end ExecutionFabric.Cuda
