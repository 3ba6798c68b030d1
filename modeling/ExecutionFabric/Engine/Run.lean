import ExecutionFabric.Engine.Effect
import Mathlib.Data.List.Nodup

/-!
Runs of the engine, and what they look like from one execution.

Executions do not interfere: a call writes to the record of at most one of
them. `View` is a call seen from one execution, and `step_view` is the only
place where the map of records is taken apart. `Origin` reads it backwards,
from the record that is there after the call. Invariants of single records
follow from it by `records_of_runs`.

The rest reads histories: the identifiers drawn so far, the tickets issued so
far. Random identifiers are taken to be fresh, which is a property of the
history (`FreshIds`); what the state has to do with it is proved later, from
the attempts a record holds.
-/

namespace ExecutionFabric

open StepMachine ExecutionEngine

/-! ### One call, one execution -/

/-- What a call does to the record of the execution `id`: nothing, create it,
or have an effect on it. A call that names `id` and does nothing is a refusal
or a repeated request. -/
inductive View (s : ExecutionEngine) (c : Call) (id : ExecutionId) :
    Option ExecutionRecord → Option ExecutionRecord → Prop
  | idle {x : Option ExecutionRecord}
      (hquiet : c.op.target = some id → (engine.out s c).Refuses ∨
        (s.Repeats c.op ∧ (engine.out s c).Gives .allow none none)) : View s c id x x
  | created {e : CoordinatorEpoch} (hop : c.op = .create id e) (hcur : s.epoch ≤ e)
      (hnext : (engine.next s c).epoch = e) (gives : (engine.out s c).Gives .allow none none) :
      View s c id none (some (newRecord c.ambient id e))
  | acted {r r' : ExecutionRecord} (htarget : c.op.target = some id)
      (hcur : s.epoch ≤ c.op.epoch)
      (effect : Effect (engine.next s c).epoch c.ambient r c.op (engine.out s c) r') :
      View s c id (some r) (some r')

theorem step_view (s : ExecutionEngine) (c : Call) (id : ExecutionId) :
    View s c id (s.find id) ((engine.next s c).find id) := by
  obtain ⟨op, amb⟩ := c
  have heffects := step_effects s op amb
  generalize ho : engine.out s ⟨op, amb⟩ = o at heffects
  generalize hs : engine.next s ⟨op, amb⟩ = s' at heffects
  cases heffects with
  | raised e =>
      rw [find_adoptEpoch]
      exact .idle nofun
  | refused refuses => exact .idle fun _ => .inl (ho ▸ refuses)
  | adopted adopts refuses =>
      rw [find_adoptEpoch]
      exact .idle fun _ => .inl (ho ▸ refuses)
  | repeated repeats gives => exact .idle fun _ => .inr ⟨repeats, ho ▸ gives⟩
  | @created k e o hcur hnew gives =>
      by_cases hk : id = k
      · subst hk
        rw [find_store_self, hnew]
        exact .created rfl hcur (by rw [hs, store_epoch, adoptEpoch_epoch_of_le _ hcur]) (ho ▸ gives)
      · rw [find_store_of_ne _ _ hk, find_adoptEpoch]
        exact .idle fun htarget => absurd (Option.some.inj htarget).symm hk
  | @acted op o k r r' htarget hfind hcur effect =>
      by_cases hk : id = k
      · subst hk
        rw [find_store_self, hfind]
        exact .acted htarget hcur (by rw [hs, ho]; exact effect)
      · rw [find_store_of_ne _ _ hk, find_adoptFor]
        refine .idle fun htarget' => absurd ?_ hk
        exact Option.some.inj (htarget'.symm.trans htarget)

/-- Where a record of the next state comes from. -/
inductive Origin (s : ExecutionEngine) (c : Call) (id : ExecutionId) : ExecutionRecord → Prop
  | idle {r : ExecutionRecord} (hfind : s.find id = some r)
      (hquiet : c.op.target = some id → (engine.out s c).Refuses ∨
        (s.Repeats c.op ∧ (engine.out s c).Gives .allow none none)) : Origin s c id r
  | created {e : CoordinatorEpoch} (hfind : s.find id = none) (hop : c.op = .create id e)
      (hcur : s.epoch ≤ e) (hnext : (engine.next s c).epoch = e)
      (gives : (engine.out s c).Gives .allow none none) :
      Origin s c id (newRecord c.ambient id e)
  | acted {r r' : ExecutionRecord} (hfind : s.find id = some r) (htarget : c.op.target = some id)
      (hcur : s.epoch ≤ c.op.epoch)
      (effect : Effect (engine.next s c).epoch c.ambient r c.op (engine.out s c) r') :
      Origin s c id r'

theorem origin {s : ExecutionEngine} {c : Call} {id : ExecutionId} {r' : ExecutionRecord}
    (hfind' : (engine.next s c).find id = some r') : Origin s c id r' := by
  have hview := step_view s c id
  rw [hfind'] at hview
  generalize hfind : s.find id = x at hview
  cases hview with
  | idle hquiet => exact .idle hfind hquiet
  | created hop hcur hnext gives => exact .created hfind hop hcur hnext gives
  | acted htarget hcur effect => exact .acted hfind htarget hcur effect

/-- No call lowers the epoch. -/
theorem epoch_le_next (s : ExecutionEngine) (c : Call) : s.epoch ≤ (engine.next s c).epoch := by
  have hadopt : ∀ e, s.epoch ≤ (s.adoptEpoch e).epoch := fun e => by
    rw [adoptEpoch_epoch]
    exact le_max_left _ _
  obtain ⟨op, amb⟩ := c
  have heffects := step_effects s op amb
  generalize engine.out s ⟨op, amb⟩ = o at heffects
  generalize engine.next s ⟨op, amb⟩ = s' at heffects ⊢
  cases heffects with
  | raised e => exact hadopt e
  | refused => exact le_rfl
  | adopted => exact hadopt _
  | repeated => exact le_rfl
  | created => exact hadopt _
  | acted => exact epoch_le_adoptFor _ _

/-- A call adopts no more than the epoch it carries. -/
theorem epoch_next_le (s : ExecutionEngine) (c : Call) :
    (engine.next s c).epoch ≤ max s.epoch c.op.epoch := by
  obtain ⟨op, amb⟩ := c
  have heffects := step_effects s op amb
  generalize engine.out s ⟨op, amb⟩ = o at heffects
  generalize engine.next s ⟨op, amb⟩ = s' at heffects ⊢
  cases heffects with
  | raised e => exact (adoptEpoch_epoch s e).le
  | refused => exact le_max_left _ _
  | adopted => exact (adoptEpoch_epoch s _).le
  | repeated => exact le_max_left _ _
  | @created id e => exact (adoptEpoch_epoch s e).le
  | acted =>
      show (s.adoptFor op).epoch ≤ _
      unfold adoptFor
      split
      · exact (adoptEpoch_epoch s _).le
      · exact le_max_left _ _

theorem epoch_next_of_le {s : ExecutionEngine} {c : Call} (h : c.op.epoch ≤ s.epoch) :
    (engine.next s c).epoch = s.epoch :=
  le_antisymm ((epoch_next_le s c).trans (max_le le_rfl h)) (epoch_le_next s c)

/-- Only the adopting calls and `raise_epoch` move the epoch. -/
theorem epoch_next {s : ExecutionEngine} {c : Call} (hadopts : c.op.adopts = false)
    (hraise : ∀ e, c.op ≠ .raiseEpoch e) : (engine.next s c).epoch = s.epoch := by
  obtain ⟨op, amb⟩ := c
  have heffects := step_effects s op amb
  generalize engine.out s ⟨op, amb⟩ = o at heffects
  generalize engine.next s ⟨op, amb⟩ = s' at heffects ⊢
  cases heffects with
  | raised e => exact absurd rfl (hraise e)
  | refused => rfl
  | adopted adopts => cases adopts <;> cases hadopts
  | repeated => rfl
  | created => cases hadopts
  | acted =>
      change op.adopts = false at hadopts
      simp [adoptFor, hadopts]

/-- A call leaves the executions it does not address alone. -/
theorem find_next_of_ne {s : ExecutionEngine} {c : Call} {id : ExecutionId}
    (h : c.op.target ≠ some id) : (engine.next s c).find id = s.find id := by
  have hview := step_view s c id
  generalize s.find id = x at hview
  generalize (engine.next s c).find id = y at hview
  cases hview with
  | idle => rfl
  | created hop => exact absurd (by rw [hop]; rfl) h
  | acted htarget => exact absurd htarget h

theorem Outcome.Refuses.not_allows {o : Outcome} (h : o.Refuses) : ¬o.allows := h.code

theorem Outcome.Gives.not_allows {o : Outcome} {code : DecisionCode} {ticket drawn}
    (h : o.Gives code ticket drawn) (hcode : code ≠ .allow) : ¬o.allows := fun hallow =>
  hcode (Option.some.inj (h.code.symm.trans hallow))

/-- An allowed call about an execution has an effect on its record, if it does
not create it and does not repeat a request. -/
theorem effect_of_allows {s : ExecutionEngine} {c : Call} (id : ExecutionId)
    (htarget : c.op.target = some id) (hallow : (engine.out s c).allows)
    (hcreate : ∀ id e, c.op ≠ .create id e) (hrepeats : ¬s.Repeats c.op) :
    ∃ r r', s.find id = some r ∧ (engine.next s c).find id = some r' ∧
      Effect (engine.next s c).epoch c.ambient r c.op (engine.out s c) r' := by
  have hview := step_view s c id
  generalize s.find id = x at hview ⊢
  generalize (engine.next s c).find id = y at hview ⊢
  cases hview with
  | idle hquiet =>
      rcases hquiet htarget with refuses | ⟨repeats, _⟩
      · exact absurd hallow refuses.not_allows
      · exact absurd repeats hrepeats
  | created hop => exact absurd hop (hcreate _ _)
  | acted _ _ effect => exact ⟨_, _, rfl, rfl, effect⟩

/-- The record after its result was committed. -/
def ExecutionRecord.committedBy (r : ExecutionRecord) (amb : Ambient)
    (t : CompletionTicket) : ExecutionRecord :=
  { r.completeAttempt t.attemptId t.resultDigest with
    committedDigest := some t.resultDigest
    commitGeneration := r.commitGeneration.next
    committedAt := amb.now
    state := .committed }

/-- An accepted completion commits. -/
theorem complete_allows {s : ExecutionEngine} {c : Call} {t : CompletionTicket}
    (hop : c.op = .complete t) (hallow : (engine.out s c).allows) :
    ∃ r, s.find t.executionId = some r ∧ CompletionAuthorised (engine.next s c).epoch r t ∧
      ExecutionStateMachine.fromTo r.state .completed = true ∧ t.hasResult = true ∧
      t.resultDigest.isNil = false ∧
      (engine.next s c).find t.executionId = some (r.committedBy c.ambient t) := by
  obtain ⟨r, r', hfind, hfind', effect⟩ := effect_of_allows t.executionId
    (by rw [hop]; rfl) hallow (by rw [hop]; exact nofun) (by rw [hop]; exact nofun)
  rw [hop] at effect
  cases effect with
  | committed auth hstate hresult hdigest gives =>
      exact ⟨r, hfind, auth, hstate, hresult, hdigest, hfind'⟩
  | completeStuck auth hstate hlive hpre hresult hdigest gives =>
      exact absurd hallow (gives.not_allows (by decide))

/-- An accepted creation makes a record. -/
theorem create_allows {s : ExecutionEngine} {c : Call} {id : ExecutionId} {e : CoordinatorEpoch}
    (hop : c.op = .create id e) (hallow : (engine.out s c).allows) :
    (engine.next s c).find id ≠ none := by
  have hview := step_view s c id
  generalize s.find id = x at hview
  generalize (engine.next s c).find id = y at hview ⊢
  cases hview with
  | created => exact nofun
  | idle hquiet =>
      rcases hquiet (by rw [hop]; rfl) with refuses | ⟨repeats, _⟩
      · exact absurd hallow refuses.not_allows
      · rw [hop] at repeats
        cases repeats
  | acted htarget hcur effect => exact nofun

/-- An accepted start runs the attempt. -/
theorem markRunning_allows {s : ExecutionEngine} {c : Call} {t : StartTicket}
    (hop : c.op = .markRunning t) (hallow : (engine.out s c).allows) :
    ∃ r, s.find t.executionId = some r ∧ StartAuthorised (engine.next s c).epoch r t ∧
      (r.state = .dispatched ∨ r.state = .resuming) := by
  obtain ⟨r, r', hfind, -, effect⟩ := effect_of_allows t.executionId
    (by rw [hop]; rfl) hallow (by rw [hop]; exact nofun) (by rw [hop]; exact nofun)
  rw [hop] at effect
  cases effect with
  | started auth hstate gives => exact ⟨r, hfind, auth, hstate⟩

/-! ### Runs -/

variable {G : ExecutionEngine → Call → Prop} {e₀ : CoordinatorEpoch} {h : History}
  {s t : ExecutionEngine} {id : ExecutionId} {r : ExecutionRecord}

/-- The states some run from an empty engine ends in. -/
def Reachable (s : ExecutionEngine) : Prop := ∃ e₀ h, Runs engine Always (init e₀) h s

theorem Reachable.init (e₀ : CoordinatorEpoch) : Reachable (init e₀) := ⟨e₀, [], .refl⟩

theorem reachable_of_runs (run : Runs engine G (init e₀) h s) : Reachable s := ⟨e₀, h, run.always⟩

theorem reachable_run (e₀ : CoordinatorEpoch) (calls : List Call) :
    Reachable (engine.run (init e₀) calls) := reachable_of_runs (runs_always _ _ _)

theorem Reachable.next (hs : Reachable s) (c : Call) : Reachable (engine.next s c) := by
  obtain ⟨e₀, h, run⟩ := hs
  exact ⟨e₀, _, run.snoc c trivial⟩

/-- Every record of the engine has the property. -/
def ExecutionEngine.Every (s : ExecutionEngine) (P : ExecutionRecord → Prop) : Prop :=
  ∀ id r, s.find id = some r → P r

/-- A call keeps a property that new records have and its effect keeps. -/
theorem ExecutionEngine.Every.next {P : ExecutionRecord → Prop} {c : Call} (h : s.Every P)
    (hcreated : ∀ amb id e, P (newRecord amb id e))
    (heffect : ∀ {r r'}, Effect (engine.next s c).epoch c.ambient r c.op (engine.out s c) r' →
      P r → P r') : (engine.next s c).Every P := by
  intro id r' hr'
  cases origin hr' with
  | idle hfind => exact h id r' hfind
  | created => exact hcreated _ _ _
  | acted hfind _ _ effect => exact heffect effect (h id _ hfind)

/-- A property of records that new records have and every effect keeps is one
of every record of every run. -/
theorem records_of_runs {P : ExecutionRecord → Prop}
    (hcreated : ∀ amb id e, P (newRecord amb id e))
    (heffect : ∀ {s c r r'}, G s c →
      Effect (engine.next s c).epoch c.ambient r c.op (engine.out s c) r' → P r → P r')
    (run : Runs engine G (init e₀) h s) (hfind : s.find id = some r) : P r := by
  have hall : s.Every P :=
    run.preserves (P := fun t => t.Every P)
      (fun _ _ hG ih => ih.next hcreated fun effect => heffect hG effect) (fun _ _ => nofun)
  exact hall id r hfind

/-- The same for reachable states. -/
theorem Reachable.record {P : ExecutionRecord → Prop} (hs : Reachable s)
    (hcreated : ∀ amb id e, P (newRecord amb id e))
    (heffect : ∀ {e amb r op o r'}, Effect e amb r op o r' → P r → P r')
    (hfind : s.find id = some r) : P r := by
  obtain ⟨e₀, h, run⟩ := hs
  exact records_of_runs hcreated (fun _ effect => heffect effect) run hfind

/-- A terminal record is never touched again. -/
theorem terminal_stays (run : Runs engine G s h t) (hfind : s.find id = some r)
    (hterminal : ExecutionStateMachine.isTerminal r.state = true) : t.find id = some r := by
  refine run.preserves (P := fun t => t.find id = some r) ?_ hfind
  intro t c _ ht
  have hview := step_view t c id
  rw [ht] at hview
  generalize (engine.next t c).find id = y at hview ⊢
  cases hview with
  | idle => rfl
  | acted _ _ effect =>
      rw [effect.live] at hterminal
      cases hterminal

/-- A record is stored under its own identifier, and never has a larger epoch
than the engine. -/
def ExecutionEngine.Keyed (s : ExecutionEngine) : Prop :=
  ∀ id r, s.find id = some r → r.id = id ∧ r.coordinatorEpoch ≤ s.epoch

theorem ExecutionEngine.Keyed.next (h : s.Keyed) (c : Call) : (engine.next s c).Keyed := by
  intro id r' hr'
  have hle := epoch_le_next s c
  cases origin hr' with
  | idle hfind => exact ⟨(h id r' hfind).1, (h id r' hfind).2.trans hle⟩
  | created _ _ _ hnext => exact ⟨rfl, hnext.ge⟩
  | acted hfind _ _ effect =>
      obtain ⟨hid, hepoch⟩ := h id _ hfind
      have hframe := effect.frame
      exact ⟨hframe.1.trans hid, hframe.2.1 ▸ hepoch.trans hle⟩

theorem Reachable.keyed (hs : Reachable s) (hfind : s.find id = some r) :
    r.id = id ∧ r.coordinatorEpoch ≤ s.epoch := by
  obtain ⟨e₀, h, run⟩ := hs
  have hall : s.Keyed := run.preserves (fun _ c _ ih => ih.next c) (fun _ _ => nofun)
  exact hall id r hfind

/-! ### Reading a history -/

namespace History

/-- The identifiers an event drew, with the execution they were drawn for. -/
def draw (ev : Call × Outcome) : Option (ExecutionId × AttemptId × DispatchId) :=
  match ev.1.op.target, ev.2.drawn with
  | some id, some drawn => some (id, drawn)
  | _, _ => none

def draws (h : History) : List (ExecutionId × AttemptId × DispatchId) := h.filterMap draw

/-- The generators of identifiers never returned one twice. -/
structure FreshIds (h : History) : Prop where
  attempts : ((draws h).map (·.2.1)).Nodup
  dispatches : ((draws h).map (·.2.2)).Nodup

instance (h : History) : Decidable (FreshIds h) :=
  decidable_of_iff (((draws h).map (·.2.1)).Nodup ∧ ((draws h).map (·.2.2)).Nodup)
    ⟨fun ⟨h₁, h₂⟩ => ⟨h₁, h₂⟩, fun ⟨h₁, h₂⟩ => ⟨h₁, h₂⟩⟩

/-- The generator of attempt identifiers never returned one twice. -/
def FreshAttempts (h : History) : Prop := ((draws h).map (·.2.1)).Nodup

instance (h : History) : Decidable (FreshAttempts h) := inferInstanceAs (Decidable (List.Nodup _))

variable {h k : History} {ev : Call × Outcome}

@[simp] theorem draws_append : draws (h ++ k) = draws h ++ draws k := List.filterMap_append

theorem draws_one : draws [ev] = (draw ev).toList := by
  cases hd : draw ev <;> simp [draws, hd]

section

variable {β : Type*} {f : ExecutionId × AttemptId × DispatchId → β}
  {x y : ExecutionId × AttemptId × DispatchId}

theorem nodup_draws_left (hf : ((draws (h ++ k)).map f).Nodup) : ((draws h).map f).Nodup := by
  rw [draws_append, List.map_append, List.nodup_append] at hf
  exact hf.1

theorem nodup_draws_new (hf : ((draws (h ++ [ev])).map f).Nodup) (hx : draw ev = some x)
    (hy : y ∈ draws h) : f y ≠ f x := by
  have hone : draws [ev] = [x] := by rw [draws_one, hx]; rfl
  rw [draws_append, hone, List.map_append, List.nodup_append] at hf
  exact hf.2.2 _ (List.mem_map_of_mem hy) _ (by simp)

end

theorem FreshIds.left (hf : FreshIds (h ++ k)) : FreshIds h where
  attempts := nodup_draws_left hf.attempts
  dispatches := nodup_draws_left hf.dispatches

/-- A shorter run draws no identifier twice either. -/
theorem FreshIds.of_prefix {s : ExecutionEngine} {cs calls : List Call}
    (hf : FreshIds (engine.trace s calls)) (hcs : cs <+: calls) : FreshIds (engine.trace s cs) := by
  obtain ⟨ds, rfl⟩ := hcs
  rw [Machine.trace_append] at hf
  exact hf.left

/-- What an event draws, nothing before it drew. -/
theorem FreshIds.new (hf : FreshIds (h ++ [ev])) {x : ExecutionId × AttemptId × DispatchId}
    (hx : draw ev = some x) {y : ExecutionId × AttemptId × DispatchId} (hy : y ∈ draws h) :
    y.2.1 ≠ x.2.1 ∧ y.2.2 ≠ x.2.2 :=
  ⟨nodup_draws_new hf.attempts hx hy, nodup_draws_new hf.dispatches hx hy⟩

theorem FreshAttempts.left (hf : FreshAttempts (h ++ k)) : FreshAttempts h := nodup_draws_left hf

theorem FreshAttempts.new (hf : FreshAttempts (h ++ [ev]))
    {x : ExecutionId × AttemptId × DispatchId} (hx : draw ev = some x)
    {y : ExecutionId × AttemptId × DispatchId} (hy : y ∈ draws h) : y.2.1 ≠ x.2.1 :=
  nodup_draws_new hf hx hy

/-- An attempt identifier was drawn once: for one execution. -/
theorem FreshAttempts.owner (hf : FreshAttempts h) {x y : ExecutionId × AttemptId × DispatchId}
    (hx : x ∈ draws h) (hy : y ∈ draws h) (heq : x.2.1 = y.2.1) : x = y :=
  List.inj_on_of_nodup_map hf hx hy heq

end History

/-! ### Sample calls

The data of the concrete runs that accompany some of the results. -/

namespace Sample

def sampleId {Tag : Type} (n : UInt64) : Id Tag := Id.random ⟨n, 0⟩

def execution : ExecutionId := sampleId 1

def worker : WorkerId := sampleId 3

def boot : WorkerBootId := sampleId 4

def digest (b : UInt8) : ResultDigest := ⟨List.Vector.replicate 32 b⟩

/-- An environment whose generators return identifiers made of `n`. -/
def ambient (n : UInt64) : Ambient where
  now := ⟨text "2024-01-01T00:00:00Z", by decide⟩
  attemptWords := ⟨n, 1⟩
  dispatchWords := ⟨n, 2⟩

def call (op : Op) (n : UInt64 := 0) : Call := ⟨op, ambient n⟩

/-- The ticket for the first attempt, made from the identifiers of `n`. -/
def ticket (n : UInt64) (epoch : UInt64 := 1) : DispatchTicket where
  executionId := execution
  executionGeneration := ⟨1⟩
  attemptId := Id.random ⟨n, 1⟩
  attemptGeneration := ⟨1⟩
  workerId := worker
  workerBootId := boot
  epoch := ⟨epoch⟩
  dispatchId := Id.random ⟨n, 2⟩
  dispatchGeneration := ⟨1⟩
  ownershipGeneration := ⟨2⟩
  fenceGeneration := ⟨2⟩

/-- Create and activate. -/
def readying : List Call := [call (.create execution ⟨1⟩), call (.activate execution ⟨1⟩)]

/-- The record after `readying`. -/
def readied : ExecutionRecord where
  id := execution
  generation := ⟨1⟩
  state := .ready
  coordinatorEpoch := ⟨1⟩
  ownershipGeneration := ⟨1⟩
  fenceGeneration := ⟨1⟩
  createdAt := text "2024-01-01T00:00:00Z"

/-- Create, activate, dispatch. -/
def dispatching : List Call := readying ++ [call (.dispatch execution worker boot ⟨1⟩) 10]

/-- A second dispatch. -/
def redispatching : Call := call (.dispatch execution worker boot ⟨1⟩) 20

/-- The worker of the first attempt is lost. -/
def losing : Call := call (.markWorkerLost execution worker boot ⟨1⟩)

/-- A cancellation by whoever dispatched the first attempt. -/
def cancelRequest : ControlRequest where
  executionId := execution
  executionGeneration := ⟨1⟩
  epoch := ⟨1⟩
  authorityGeneration := ⟨2⟩

def cancelling : Call := call (.cancel cancelRequest)

def committing : List Call := dispatching ++ [call (.complete ((ticket 10).completion (digest 7)))]

/-- The first attempt starts. -/
def starting : Call := call (.markRunning (ticket 10).start)

/-- The first attempt is preempted, and made resumable. -/
def preempting : List Call :=
  [call (.preempt cancelRequest), call (.acknowledgePreempt execution ⟨1⟩),
    call (.markResumable execution ⟨1⟩)]

/-- The first resumption. -/
def resuming : Call := call (.resume execution worker boot ⟨1⟩ ⟨1⟩) 20

/-- What can be tried on an execution that has ended. -/
def meddling : List Call :=
  [call (.create execution ⟨1⟩), call (.raiseEpoch ⟨5⟩), call (.create execution ⟨5⟩),
    call (.dispatch execution worker boot ⟨5⟩) 20, call (.finalizeCancel execution ⟨5⟩),
    call (.supersede execution ⟨5⟩)]

end Sample

/-! ### Terminal records -/

/-- From any state, no list of calls changes a terminal record. -/
theorem terminal_frozen (hfind : s.find id = some r)
    (hterminal : ExecutionStateMachine.isTerminal r.state = true) (calls : List Call) :
    (engine.run s calls).find id = some r := by
  have run := runs_always engine s calls
  exact terminal_stays run hfind hterminal

theorem terminal_frozen_sample :
    ((engine.run (init ⟨1⟩) Sample.committing).find Sample.execution).map (·.state)
        = some .committed ∧
      (engine.run (engine.run (init ⟨1⟩) Sample.committing) Sample.meddling).find Sample.execution
        = (engine.run (init ⟨1⟩) Sample.committing).find Sample.execution := by
  have hcommitted : ((engine.run (init ⟨1⟩) Sample.committing).find Sample.execution).map (·.state)
      = some .committed := by decide +kernel
  obtain ⟨r, hfind, hstate⟩ := Option.map_eq_some_iff.1 hcommitted
  refine ⟨hcommitted, ?_⟩
  rw [hfind]
  exact terminal_frozen hfind (by rw [hstate]; rfl) Sample.meddling

end ExecutionFabric
