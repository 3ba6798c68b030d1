import ExecutionFabric.Coordinator.Process

/-!
Does `stop` end the decision loop?

The entry with which `stop` wakes the decision thread is handled like the
`SHUTDOWN` of a client: it clears `running_`, which the decision thread never
looks at. No iteration of the loop leaves it. So the thread handles what is in
the queue, that entry included, and waits for another one
(`turns_drain`), and the joining of the thread never completes, in no run
(`stop_hangs`).
-/

namespace ExecutionFabric

open StepMachine

namespace Process

/-- An iteration of the decision loop. -/
def Event.isDecision : Event → Bool
  | .decides _ _ => true
  | _ => false

/-- What `stop` relies on after it has put its entry into the queue: when the
decision loop has made as many iterations as there are entries, it has handled
these and returned, and the thread can be joined. -/
def Returns (p : Process) : Prop :=
  ∀ evs, p.queue.length ≤ (evs.filter Event.isDecision).length →
    p.queue <+: entries (process.trace p evs) ∧ (process.run p evs).returned = true ∧
      (process.run p (evs ++ [.joins])).stopping = .joined

/-- The decision thread is in its loop, and was not joined. -/
structure Looping (p : Process) : Prop where
  returned : p.returned = false
  joined : p.stopping ≠ .joined

/-- Iterations of the decision loop, with nothing in between. -/
def turns (ds : List (Ambient × List ℕ)) : List Event := ds.map fun d => .decides d.1 d.2

variable {p : Process} {ev : Event} {evs : List Event} {ds : List (Ambient × List ℕ)}

theorem Looping.next_event (h : p.Looping) (ev : Event) : (process.next p ev).Looping := by
  have hmoves := p.step_moves ev
  show (p.step ev).1.Looping
  generalize p.step ev = y at hmoves
  cases hmoves with
  | stops => exact ⟨h.returned, nofun⟩
  | wakes => exact ⟨h.returned, nofun⟩
  | joins hreturned => exact absurd (hreturned.symm.trans h.returned) nofun
  | _ => exact ⟨h.returned, h.joined⟩

theorem Looping.run (h : p.Looping) (evs : List Event) : (process.run p evs).Looping :=
  Machine.run_preserves (fun _ ev h => h.next_event ev) h evs

theorem looping (persistent : Bool) (file : Option ByteString) (epoch : CoordinatorEpoch)
    (evs : List Event) : (process.run (start persistent file epoch) evs).Looping := by
  have hstart : StopPoint.idle ≠ .joined := nofun
  exact Looping.run ⟨rfl, hstart⟩ evs

/-- An iteration takes an entry from the queue, if there is one. -/
theorem decides_queue (h : p.returned = false) (halive : p.coordinator.alive = true)
    (amb : Ambient) (order : List ℕ) :
    (process.next p (.decides amb order)).queue = p.queue.tail := by
  have hmoves := p.step_moves (.decides amb order)
  show (p.step (.decides amb order)).1.queue = _
  generalize p.step (.decides amb order) = y at hmoves
  cases hmoves with
  | decided hqueue => rw [hqueue]; rfl
  | idle htaken | acceptor point htaken =>
      have hhead : p.queue.head? = none := (if_pos ⟨halive, h⟩).symm.trans htaken
      rw [List.head?_eq_none_iff.1 hhead]
      rfl

theorem filter_turns : (turns ds).filter Event.isDecision = turns ds :=
  List.filter_eq_self.2 fun ev hev => by
    obtain ⟨d, -, rfl⟩ := List.mem_map.1 hev
    rfl

theorem alive_of_run (h : (process.run p evs).coordinator.alive = true) :
    p.coordinator.alive = true := by
  by_contra hdead
  have hsame : process.run p evs = p := by
    clear h
    induction evs with
    | nil => rfl
    | cons ev evs ih =>
        have hnext : process.next p ev = p := congrArg Prod.fst (if_neg hdead)
        show process.run (process.next p ev) evs = p
        rw [hnext, ih]
  exact hdead (hsame ▸ h)

/-- As many iterations as there are entries empty the queue, if no exception
ends the process. -/
theorem turns_drain (h : p.Looping) (hlength : p.queue.length ≤ ds.length)
    (halive : (process.run p (turns ds)).coordinator.alive = true) :
    (process.run p (turns ds)).queue = [] := by
  induction ds generalizing p with
  | nil => exact List.length_eq_zero_iff.1 (Nat.le_zero.1 hlength)
  | cons d ds ih =>
      have hqueue := decides_queue h.returned (alive_of_run halive) d.1 d.2
      refine ih (h.next_event _) ?_ halive
      rw [hqueue, List.length_tail]
      exact Nat.sub_le_of_le_add hlength

/-- What is in the queue is handled, in order, and then the thread waits. -/
theorem turns_handle (h : p.Looping) (hlength : p.queue.length ≤ ds.length)
    (halive : (process.run p (turns ds)).coordinator.alive = true) :
    p.queue <+: entries (process.trace p (turns ds)) ∧ (process.run p (turns ds)).queue = [] := by
  have hdrained := turns_drain h hlength halive
  have hbegins := p.run_queue (turns ds)
  rw [hdrained, List.append_nil] at hbegins
  exact ⟨hbegins, hdrained⟩

theorem Looping.not_returns (h : p.Looping) : ¬p.Returns := by
  intro hreturns
  let ds : List (Ambient × List ℕ) := p.queue.map fun _ => (Sample.ambient 0, [])
  have hlength : p.queue.length ≤ ((turns ds).filter Event.isDecision).length := by
    rw [filter_turns, turns, List.length_map, List.length_map]
  have hreturned := (hreturns (turns ds) hlength).2.1
  exact absurd (hreturned.symm.trans (h.run (turns ds)).returned) nofun

end Process

/-- Whatever is in the queue, before or after `stop` has put its entry there,
the decision loop handles it and does not return, and the decision thread is not
joined. -/
theorem stop_hangs (persistent : Bool) (file : Option ByteString) (e₀ : CoordinatorEpoch)
    (events : List Process.Event) :
    let p := process.run (.start persistent file e₀) events
    ¬p.Returns ∧ (∀ evs, (process.run p evs).returned = false ∧
        (process.run p evs).stopping ≠ .joined) ∧
      ∀ ds, p.queue.length ≤ ds.length →
        (process.run p (Process.turns ds)).coordinator.alive = true →
          p.queue <+: Process.entries (process.trace p (Process.turns ds)) ∧
            (process.run p (Process.turns ds)).queue = [] := by
  intro p
  have hlooping : p.Looping := Process.looping persistent file e₀ events
  refine ⟨hlooping.not_returns, fun evs => ?_, fun ds => Process.turns_handle hlooping⟩
  exact ⟨(hlooping.run evs).returned, (hlooping.run evs).joined⟩

/-- `stop` is called on a coordinator without connections. -/
theorem stop_waits_forever :
    ¬∀ persistent file e₀ events,
      (process.run (.start persistent file e₀) events).stopping = .joining →
        (process.run (.start persistent file e₀) events).Returns := by
  intro hclaim
  have hjoining : (process.run (.start false none ⟨1⟩)
      [.stops, .acceptorChecks, .wakes]).stopping = .joining := by decide +kernel
  have hreturns := hclaim false none ⟨1⟩ [.stops, .acceptorChecks, .wakes] hjoining
  exact (Process.looping false none ⟨1⟩ _).not_returns hreturns

end ExecutionFabric
