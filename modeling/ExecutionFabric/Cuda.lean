import ExecutionFabric.Digest
import ExecutionFabric.Library.Scatter
import ExecutionFabric.Library.StepMachine
import Mathlib.Data.Int.Basic

/-!
The CUDA executor: the kernel, and `run_vector_add`, which drives a device.

A device is a machine that answers the calls of the CUDA runtime; what it answers is
its own affair here. Nor is anything said about `float` but what it is used for.
`size_t` has 64 bits, so that the size of a buffer does not wrap.
-/

namespace ExecutionFabric.Cuda

open StepMachine

/-- `float`, as the host computes with it. -/
structure FloatArith (F : Type) where
  ofUInt32 : UInt32 → F
  /-- `100.0f`. -/
  hundred : F
  /-- What a vector is filled with. -/
  zero : F
  add : F → F → F
  div : F → F → F
  /-- `==`, which need not be equality, nor hold of a value and itself. -/
  eq : F → F → Bool
  bytes : F → List.Vector UInt8 4

/-! ### The kernel -/

/-- A thread: `blockIdx.x` and `threadIdx.x`. -/
structure Thread where
  blockIdx : UInt32
  threadIdx : UInt32

/-- The threads of a launch. -/
def grid (blocks threads : UInt32) : List Thread :=
  (List.range blocks.toNat).flatMap fun b =>
    (List.range threads.toNat).map fun t => ⟨b.toUInt32, t.toUInt32⟩

/-- `i` in `vector_add`. -/
def Thread.index (blockDim : UInt32) (t : Thread) : Int32 :=
  (t.blockIdx * blockDim + t.threadIdx).toInt32

/-- An element of a buffer. The index may be that of none. -/
def loadAt {F : Type} (xs : List F) (i : ℤ) : Option F := if 0 ≤ i then xs[i.toNat]? else none

def storeAt {F : Type} (xs : List F) (i : ℤ) (x : F) : Option (List F) :=
  if 0 ≤ i ∧ i.toNat < xs.length then some (xs.set i.toNat x) else none

/-- `vector_add`: what a thread does to `c`, if it stays within the buffers. -/
def vectorAdd {F : Type} (add : F → F → F) (a b : List F) (n : Int32) (blockDim : UInt32)
    (c : List F) (t : Thread) : Option (List F) :=
  let i := t.index blockDim
  if i < n then do
    let x ← loadAt a i.toInt
    let y ← loadAt b i.toInt
    storeAt c i.toInt (add x y)
  else some c

/-- The threads of a launch, in the order in which they come to their addition. -/
def kernel {F : Type} (add : F → F → F) (a b : List F) (n : Int32) (blockDim : UInt32)
    (order : List Thread) (c : List F) : Option (List F) :=
  order.foldlM (vectorAdd add a b n blockDim) c

/-! ### The device -/

/-- The calls of the runtime. Buffers have numbers. -/
inductive Request (F : Type)
  | malloc (bytes : ℕ)
  /-- `cudaGetLastError`. -/
  | lastError
  /-- `cudaMemcpyHostToDevice`. -/
  | copyIn (dst : ℕ) (src : List F)
  /-- `vector_add<<<blocks, threads>>>`, and `cudaGetLastError`. -/
  | launch (blocks threads : UInt32) (a b c : ℕ) (n : Int32)
  /-- `cudaDeviceSynchronize`. -/
  | synchronize
  /-- `cudaMemcpyDeviceToHost`. -/
  | copyOut (src : ℕ) (count : ℕ)
  | free (p : ℕ)

/-- What is answered; of an error, its text. -/
inductive Answer (F : Type)
  | success
  | error (text : ByteString)
  | allocated (p : ℕ)
  | copied (xs : List F)

abbrev Device (σ F : Type) := Machine σ (Request F) (Answer F)

/-- The device, and what was said so far. -/
structure Session (σ F : Type) where
  state : σ
  calls : List (Request F × Answer F) := []

section

variable {σ F : Type} (device : Device σ F)

def Session.ask (x : Session σ F) (r : Request F) : Answer F × Session σ F :=
  (device.out x.state r,
    { state := device.next x.state r, calls := x.calls ++ [(r, device.out x.state r)] })

/-- `ok` and `err`: the work, as long as nothing has failed. -/
structure Work (σ F : Type) where
  session : Session σ F
  failure : Option ByteString := none

/-- A call that is made if nothing has failed, and what becomes of its error. -/
def Work.ask (w : Work σ F) (step : Request F × (ByteString → ByteString)) : Work σ F :=
  match w.failure with
  | some _ => w
  | none =>
    let (answer, session) := w.session.ask device step.1
    match answer with
    | .error e => { session, failure := some (step.2 e) }
    | _ => { session }

/-! ### The host -/

variable (arith : FloatArith F)

/-- The first summand at a global index. -/
def operandA (seed gi : UInt32) : F := arith.div (arith.ofUInt32 ((seed + gi) % 10007)) arith.hundred

def operandB (seed gi : UInt32) : F :=
  arith.div (arith.ofUInt32 ((seed * 3 + gi * 7) % 10007)) arith.hundred

/-- A vector of summands. -/
def operands (operand : UInt32 → F) (n base : UInt32) : List F :=
  (List.range n.toNat).map fun i => operand (base + i.toUInt32)

/-- The first index where the sum is not the one of the host. -/
def mismatch (a b c : List F) : Option ℕ :=
  (List.range a.length).find? fun i =>
    !arith.eq (c.getD i arith.zero) (arith.add (a.getD i arith.zero) (b.getD i arith.zero))

def threads : UInt32 := 256

def blocks (n : UInt32) : Int32 := ((n + threads - 1) / threads).toInt32

/-- The calls from the last allocation to the end of the kernel. -/
def steps (n : UInt32) (a b : List F) (da db dc : ℕ) :
    List (Request F × (ByteString → ByteString)) :=
  [(.lastError, fun e => text "cudaMalloc: " ++ e),
    (.copyIn da a, fun _ => text "cudaMemcpy H2D a failed"),
    (.copyIn db b, fun _ => text "cudaMemcpy H2D b failed"),
    (.launch (blocks n).toUInt32 threads da db dc n.toInt32, fun _ => text "kernel launch failed"),
    (.synchronize, fun _ => text "cudaDeviceSynchronize failed")]

/-- The work between the allocations and the deallocations, and `c`. -/
def work (session : Session σ F) (n : UInt32) (a b : List F) (da db dc : ℕ) :
    Except ByteString (List F) × Session σ F :=
  let w := (steps n a b da db dc).foldl (Work.ask device) { session }
  match w.failure with
  | some failure => (.error failure, w.session)
  | none =>
    match w.session.ask device (.copyOut dc n.toNat) with
    | (.copied xs, session) =>
      -- what is copied is written over the zeros of `c`
      let c := xs.take n.toNat ++ List.replicate (n.toNat - xs.length) arith.zero
      match mismatch arith a b c with
      | some i => (.error (text "CPU-reference mismatch at " ++ text (toString i)), session)
      | none => (.ok c, session)
    | (_, session) => (.error (text "cudaMemcpy D2H failed"), session)

/-- The parameters that are written. -/
structure Output where
  outBytes : ByteString
  digest : ResultDigest
  err : ByteString

/-- What `run_vector_add` returns and writes, and what was said to the device. -/
structure Run (σ F : Type) where
  returned : Bool
  output : Output
  session : Session σ F

/-- `cudaFree`, of which the answer is not looked at. -/
def Session.free (x : Session σ F) (p : ℕ) : Session σ F := (x.ask device (.free p)).2

/-- `run_vector_add`. -/
def runVectorAdd (s : σ) (n seed base : UInt32) (o : Output) : Run σ F :=
  let fail (err : ByteString) (session : Session σ F) : Run σ F := ⟨false, { o with err }, session⟩
  if n = 0 then fail (text "n must be nonzero") { state := s }
  else
    let a := operands (operandA arith seed) n base
    let b := operands (operandB arith seed) n base
    let size := n.toNat * 4
    match Session.ask device { state := s } (.malloc size) with
    | (.allocated da, session) =>
      match session.ask device (.malloc size) with
      | (.allocated db, session) =>
        match session.ask device (.malloc size) with
        | (.allocated dc, session) =>
          let (result, session) := work device arith session n a b da db dc
          let session := ((session.free device da).free device db).free device dc
          match result with
          | .error err => fail err session
          | .ok c =>
            let outBytes := c.flatMap fun x => (arith.bytes x).toList
            ⟨true, { o with outBytes, digest := .ofBuffer outBytes }, session⟩
        | (_, session) =>
          fail (text "cudaMalloc c failed") ((session.free device da).free device db)
      | (_, session) => fail (text "cudaMalloc b failed") (session.free device da)
    | (_, session) => fail (text "cudaMalloc a failed") session

end

/-! ### What the kernel does -/

theorem toInt_toInt32 (u : UInt32) :
    u.toInt32.toInt = if u.toNat < 2 ^ 31 then (u.toNat : ℤ) else u.toNat - 2 ^ 32 := by
  have hcond : u.toInt32.toInt = u.toBitVec.toInt := rfl
  have hnat : u.toBitVec.toNat = u.toNat := rfl
  rw [hcond, BitVec.toInt_eq_toNat_cond, hnat]
  split <;> split <;> omega

theorem toNat_blocks (n : UInt32) :
    (blocks n).toUInt32.toNat = (n.toNat + 255) % 2 ^ 32 / 256 := by
  have hn := n.toNat_lt
  rw [blocks, UInt32.toUInt32_toInt32, UInt32.toNat_div, UInt32.toNat_sub, UInt32.toNat_add]
  show (2 ^ 32 - 1 + (n.toNat + 256) % 2 ^ 32) % 2 ^ 32 / 256 = _
  omega

/-- The position of a thread in its launch. -/
def Thread.position (t : Thread) : ℕ := t.blockIdx.toNat * 256 + t.threadIdx.toNat

section

variable {n : UInt32} {t u : Thread}

theorem mem_grid : t ∈ grid (blocks n).toUInt32 threads ↔
    t.blockIdx.toNat < (n.toNat + 255) % 2 ^ 32 / 256 ∧ t.threadIdx.toNat < 256 := by
  rw [← toNat_blocks]
  unfold grid
  simp only [List.mem_flatMap, List.mem_map, List.mem_range]
  constructor
  · rintro ⟨i, hi, j, hj, rfl⟩
    have hblocks := (blocks n).toUInt32.toNat_lt
    change j < 256 at hj
    refine ⟨?_, ?_⟩
    · show i.toUInt32.toNat < _
      rw [UInt32.toNat_ofNat']
      omega
    · show j.toUInt32.toNat < _
      rw [UInt32.toNat_ofNat']
      omega
  · rintro ⟨hblock, hthread⟩
    exact ⟨t.blockIdx.toNat, hblock, t.threadIdx.toNat, hthread, by simp⟩

theorem position_lt (ht : t ∈ grid (blocks n).toUInt32 threads) :
    t.position < (n.toNat + 255) % 2 ^ 32 / 256 * 256 := by
  obtain ⟨hblock, hthread⟩ := mem_grid.1 ht
  unfold Thread.position
  omega

theorem toInt_index (ht : t ∈ grid (blocks n).toUInt32 threads) :
    (t.index threads).toInt =
      if t.position < 2 ^ 31 then (t.position : ℤ) else t.position - 2 ^ 32 := by
  have hposition := position_lt ht
  have hnat : (t.blockIdx * threads + t.threadIdx).toNat = t.position := by
    rw [UInt32.toNat_add, UInt32.toNat_mul]
    show (t.blockIdx.toNat * 256 % 2 ^ 32 + t.threadIdx.toNat) % 2 ^ 32 = _
    unfold Thread.position at hposition ⊢
    omega
  rw [Thread.index, toInt_toInt32, hnat]

/-- No two threads have the same index, so none reads or writes what another writes. -/
theorem index_injective (ht : t ∈ grid (blocks n).toUInt32 threads)
    (hu : u ∈ grid (blocks n).toUInt32 threads) (h : t.index threads = u.index threads) : t = u := by
  have hsame := congrArg Int32.toInt h
  have hposition := position_lt ht
  have hposition' := position_lt hu
  rw [toInt_index ht, toInt_index hu] at hsame
  have hthread := (mem_grid.1 ht).2
  have hthread' := (mem_grid.1 hu).2
  have heq : t.position = u.position := by
    split at hsame <;> split at hsame <;> omega
  unfold Thread.position at heq
  cases t
  cases u
  congr 1
  · exact UInt32.toNat_inj.1 (by dsimp only at *; omega)
  · exact UInt32.toNat_inj.1 (by dsimp only at *; omega)

/-- Every position below the size has its thread. -/
theorem exists_thread {k : ℕ} (hk : k < (n.toNat + 255) % 2 ^ 32 / 256 * 256) :
    ∃ t ∈ grid (blocks n).toUInt32 threads, t.position = k := by
  have hblock : (k / 256).toUInt32.toNat = k / 256 := by
    rw [UInt32.toNat_ofNat']
    omega
  have hthread : (k % 256).toUInt32.toNat = k % 256 := by
    rw [UInt32.toNat_ofNat']
    omega
  refine ⟨⟨(k / 256).toUInt32, (k % 256).toUInt32⟩, mem_grid.2 ⟨?_, ?_⟩, ?_⟩
  · rw [hblock]
    omega
  · rw [hthread]
    omega
  · rw [Thread.position, hblock, hthread]
    omega

variable {F : Type} {add : F → F → F} {a b c : List F}

/-- A thread with an index below `n`, where there is no overflow. -/
theorem vectorAdd_within (hn : n.toNat < 2 ^ 31) (ht : t ∈ grid (blocks n).toUInt32 threads)
    (ha : a.length = n.toNat) (hb : b.length = n.toNat) (hc : c.length = n.toNat) (x : F) :
    vectorAdd add a b n.toInt32 threads c t =
      some (Scatter.write (fun t => if t.position < n.toNat then some t.position else none)
        (fun k => add (a.getD k x) (b.getD k x)) c t) := by
  have hposition := position_lt ht
  have hindex := toInt_index ht
  have hlimit := toInt_toInt32 n
  rw [if_pos hn] at hlimit
  rw [if_pos (by omega)] at hindex
  unfold vectorAdd Scatter.write
  simp only [Int32.lt_iff_toInt_lt, hindex, hlimit, Int.ofNat_lt]
  by_cases hlt : t.position < n.toNat
  · have hxa : t.position < a.length := by omega
    have hxb : t.position < b.length := by omega
    have hxc : t.position < c.length := by omega
    simp [hlt, loadAt, storeAt, hxa, hxb, hxc]
  · simp [hlt]

/-- A thread with a negative index that is below `n`. -/
theorem vectorAdd_outside (h : t.index threads < n.toInt32) (hneg : (t.index threads).toInt < 0) :
    vectorAdd add a b n.toInt32 threads c t = none := by
  unfold vectorAdd
  rw [if_pos h, loadAt, if_neg (by omega)]
  rfl

end

/-- The kernel does not change the size of `c`. -/
theorem length_kernel {F : Type} {add : F → F → F} {a b c c' : List F} {n : Int32}
    {blockDim : UInt32} {order : List Thread}
    (h : kernel add a b n blockDim order c = some c') : c'.length = c.length := by
  have hstep : ∀ {t : Thread} {c c' : List F}, vectorAdd add a b n blockDim c t = some c' →
      c'.length = c.length := by
    intro t c c' h
    unfold vectorAdd at h
    dsimp only at h
    split at h
    · obtain ⟨x, -, h⟩ := Option.bind_eq_some_iff.1 h
      obtain ⟨y, -, h⟩ := Option.bind_eq_some_iff.1 h
      unfold storeAt at h
      split at h
      · rw [← Option.some.inj h, List.length_set]
      · cases h
    · rw [Option.some.inj h]
  unfold kernel at h
  induction order generalizing c with
  | nil => rw [Option.some.inj h]
  | cons t order ih =>
      rw [List.foldlM_cons] at h
      obtain ⟨c₁, hc₁, h⟩ := Option.bind_eq_some_iff.1 h
      exact (ih h).trans (hstep hc₁)

section

variable {F : Type} {add : F → F → F} {a b c : List F} {n : UInt32} {order : List Thread}

/-- Where there is no overflow, the vectors are added. -/
theorem kernel_adds (hn : n.toNat < 2 ^ 31) (ha : a.length = n.toNat) (hb : b.length = n.toNat)
    (hc : c.length = n.toNat) (horder : order.Perm (grid (blocks n).toUInt32 threads)) :
    kernel add a b n.toInt32 threads order c = some (List.zipWith add a b) := by
  have hmem : ∀ {t}, t ∈ order → t ∈ grid (blocks n).toUInt32 threads := fun ht =>
    horder.mem_iff.1 ht
  unfold kernel
  cases a with
  | nil =>
      -- there is no thread
      have hnone : order = [] := by
        refine List.eq_nil_iff_forall_not_mem.2 fun t ht => ?_
        have hposition := position_lt (hmem ht)
        rw [← ha] at hposition
        simp at hposition
      have hempty : c = [] := List.eq_nil_of_length_eq_zero (hc.trans ha.symm)
      rw [hnone, hempty]
      rfl
  | cons x a =>
      rw [Scatter.foldlM_eq_writes
        (fun t ht c hc => vectorAdd_within hn (hmem ht) ha hb hc x) hc]
      congr 1
      refine (Scatter.writes_all fun k hk => ?_).trans ?_
      · obtain ⟨t, ht, rfl⟩ := exists_thread (n := n) (k := k) (by omega)
        exact ⟨t, horder.mem_iff.2 ht, if_pos (hc ▸ hk)⟩
      · apply List.ext_getElem
        · rw [List.length_map, List.length_range, List.length_zipWith, ha, hb, hc, Nat.min_self]
        · intro k hk hk'
          rw [List.length_zipWith] at hk'
          rw [List.getElem_map, List.getElem_range, List.getElem_zipWith,
            List.getD_eq_getElem _ _ (by omega), List.getD_eq_getElem _ _ (by omega)]

theorem toInt_negative (hn : ¬n.toNat < 2 ^ 31) : n.toInt32.toInt = n.toNat - 2 ^ 32 := by
  rw [toInt_toInt32, if_neg hn]

/-- Nobody is below `n`, or there is nobody. -/
theorem kernel_idle (hn : ¬n.toNat < 2 ^ 31) (hquiet : n.toNat = 2 ^ 31 ∨ 2 ^ 32 - 256 < n.toNat)
    (horder : order.Perm (grid (blocks n).toUInt32 threads)) :
    kernel add a b n.toInt32 threads order c = some c := by
  have hidle : ∀ t ∈ order, ¬t.index threads < n.toInt32 := by
    intro t ht
    have hmem := horder.mem_iff.1 ht
    have hposition := position_lt hmem
    have hsize := n.toNat_lt
    rw [Int32.lt_iff_toInt_lt, toInt_index hmem, toInt_negative hn]
    split <;> omega
  exact Scatter.foldlM_eq_self fun t ht => if_neg (hidle t ht)

/-- The thread at position 2³¹ is below `n`, and outside of the vectors. -/
theorem kernel_outside (hn : ¬n.toNat < 2 ^ 31)
    (hloud : ¬(n.toNat = 2 ^ 31 ∨ 2 ^ 32 - 256 < n.toNat))
    (horder : order.Perm (grid (blocks n).toUInt32 threads)) :
    kernel add a b n.toInt32 threads order c = none := by
  have hsize := n.toNat_lt
  obtain ⟨t, ht, hposition⟩ := exists_thread (n := n) (k := 2 ^ 31) (by omega)
  have hindex := toInt_index ht
  rw [hposition, if_neg (by omega)] at hindex
  refine Scatter.foldlM_eq_none (horder.mem_iff.2 ht) fun c => vectorAdd_outside ?_ ?_
  · rw [Int32.lt_iff_toInt_lt, hindex, toInt_negative hn]
    omega
  · rw [hindex]
    omega

/-- The kernel on `n` elements, its threads in any order. From 2³¹ on `n` is negative as
an `int`. -/
theorem kernel_eq (ha : a.length = n.toNat) (hb : b.length = n.toNat) (hc : c.length = n.toNat)
    (horder : order.Perm (grid (blocks n).toUInt32 threads)) :
    kernel add a b n.toInt32 threads order c =
      if n.toNat < 2 ^ 31 then some (List.zipWith add a b)
      else if n.toNat = 2 ^ 31 ∨ 2 ^ 32 - 256 < n.toNat then some c
      else none := by
  split
  · exact kernel_adds ‹_› ha hb hc horder
  · split
    · exact kernel_idle ‹_› ‹_› horder
    · exact kernel_outside ‹_› ‹_› horder

end

/-- A launch for `n` elements, its threads in any order: no two of them have the same
index, so that none reads or writes what another writes. Below 2³¹ each element has one
thread, and the vectors are added; from there on they are not: no thread adds anything,
or one reaches outside of the buffers. -/
theorem launch_exact {F : Type} {add : F → F → F} {a b c : List F} {n : UInt32}
    {order : List Thread} (ha : a.length = n.toNat) (hb : b.length = n.toNat)
    (hc : c.length = n.toNat) (horder : order.Perm (grid (blocks n).toUInt32 threads)) :
    (∀ t ∈ order, ∀ u ∈ order, t.index threads = u.index threads → t = u) ∧
      (n.toNat < 2 ^ 31 → ∀ k < n.toNat, ∃! t, t ∈ order ∧ (t.index threads).toInt = k) ∧
      kernel add a b n.toInt32 threads order c =
        if n.toNat < 2 ^ 31 then some (List.zipWith add a b)
        else if n.toNat = 2 ^ 31 ∨ 2 ^ 32 - 256 < n.toNat then some c
        else none := by
  have hmem : ∀ {t}, t ∈ order → t ∈ grid (blocks n).toUInt32 threads := fun ht =>
    horder.mem_iff.1 ht
  have hinjective : ∀ t ∈ order, ∀ u ∈ order, t.index threads = u.index threads → t = u :=
    fun t ht u hu => index_injective (hmem ht) (hmem hu)
  refine ⟨hinjective, fun hn k hk => ?_, kernel_eq ha hb hc horder⟩
  obtain ⟨t, ht, hposition⟩ := exists_thread (n := n) (k := k) (by omega)
  have hindex := toInt_index ht
  rw [hposition, if_pos (by omega)] at hindex
  have hmine := horder.mem_iff.2 ht
  refine ⟨t, ⟨hmine, hindex⟩, fun u ⟨hu, hsame⟩ => hinjective u hu t hmine ?_⟩
  exact Int32.toInt_inj.1 (hsame.trans hindex.symm)

/-- Three elements, the threads in the opposite order. -/
theorem launch_exact_sample :
    kernel (· + ·) [1, 2, 3] [10, 20, 30] (3 : UInt32).toInt32 threads
      (grid (blocks 3).toUInt32 threads).reverse [0, 0, 0] = some [11, 22, 33] :=
  (launch_exact (n := 3) rfl rfl rfl (List.reverse_perm _)).2.2

end ExecutionFabric.Cuda
