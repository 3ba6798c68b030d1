import ExecutionFabric.Engine.Tenure
import ExecutionFabric.Fabric.Clients

/-!
What becomes of the work of a worker.

In a run of the process the calls of the engine are a run of the engine
(`Process.calls_run`). So how a ticket stands (`tenure`) is told by the answers of
the engine in every interleaving of the threads and over all connections: they,
and the ticket it is about, decide whether the `START` or the `COMPLETE` of a worker
is accepted (`reports_decided`).
-/

namespace ExecutionFabric

open StepMachine ExecutionEngine History

namespace Process

section

variable {p : Process} {ev : Event} {y : Handled}

theorem calls_step (p : Process) (ev : Event) :
    Runs engine Always p.coordinator.engine (calls [(ev, process.out p ev)])
      (process.next p ev).coordinator.engine := by
  have hmoves := p.step_moves ev
  show Runs engine Always _ (calls [(_, (p.step ev).2)]) (p.step ev).1.coordinator.engine
  generalize p.step ev = y at hmoves
  cases hmoves with
  | @decided i rest amb order hqueue htaken =>
      have hcalls : calls [(.decides amb order, some ⟨i, p.turn i amb order⟩)] =
          (p.turn i amb order).calls := by simp [calls]
      rw [hcalls]
      exact (Turn.handles (G := Always) (fun _ _ _ => trivial) p.coordinator i.conn i.type
        i.payload amb order fun _ _ _ => trivial).ran
  | _ => exact .refl

/-- The calls of a run of the process are a run of the engine. -/
theorem calls_run (p : Process) (evs : List Event) :
    Runs engine Always p.coordinator.engine (calls (process.trace p evs))
      (process.run p evs).coordinator.engine := by
  induction evs using List.reverseRecOn with
  | nil => exact .refl
  | append_singleton evs ev ih =>
      rw [Machine.trace_append, Machine.run_snoc, calls, List.flatMap_append]
      exact ih.trans (calls_step _ ev)

/-- What the engine is asked when a start is handled. -/
theorem calls_start {t : StartTicket} (hout : process.out p ev = some y)
    (htype : y.entry.type = .start) (hunpack : unpackStart y.entry.payload = .ok t) :
    ∃ amb, y.turn.calls =
      [(⟨.markRunning t, amb⟩, engine.out p.coordinator.engine ⟨.markRunning t, amb⟩)] := by
  obtain ⟨amb, order, -, -, -, -, hturn⟩ := out_some hout
  refine ⟨amb, ?_⟩
  rw [hturn, turn, (Turn.decide_follows p.coordinator _ _ _ amb order).made, htype,
    Coordinator.requests, if_neg (fun h => MsgType.noConfusion h.1)]
  simp only [hunpack]
  rfl

/-- And a completion. -/
theorem calls_complete {cp : CompletePayload} (hout : process.out p ev = some y)
    (htype : y.entry.type = .complete) (hunpack : unpackComplete y.entry.payload = .ok cp) :
    ∃ amb, y.turn.calls = [(⟨.complete (Turn.CompletePayload.filled cp), amb⟩,
      engine.out p.coordinator.engine ⟨.complete (Turn.CompletePayload.filled cp), amb⟩)] := by
  obtain ⟨amb, order, -, -, -, -, hturn⟩ := out_some hout
  refine ⟨amb, ?_⟩
  rw [hturn, turn, (Turn.decide_follows p.coordinator _ _ _ amb order).made, htype,
    Coordinator.requests, if_neg (fun h => MsgType.noConfusion h.1)]
  simp only [hunpack]
  rfl

end

/-- The ticket in `wdp` was issued by the call `c`, since which the engine has
answered `h`, and was sent to the worker at the other end of `conn`. -/
structure Assigned (unset : UInt8) (p : Process) (evs : List Event) (conn : ℕ) (w : WorkerRuntime)
    (wdp : WorkerDispatchPayload) (c : Call) (h : History) : Prop where
  issued : ∃ before o, calls (process.trace p evs) = before ++ (c, o) :: h ∧
    o.ticket = some wdp.ticket
  sent : ⟨.workerDispatch, packWorkerDispatch wdp⟩ ∈ sentOn unset conn (process.trace p evs)
  worker : wdp.ticket.workerId = w.workerId

section

variable {unset : UInt8} {e₀ : CoordinatorEpoch} {evs : List Event} {conn : ℕ}
  {w : WorkerRuntime} {wdp : WorkerDispatchPayload} {c : Call} {h : History}

/-- How an assigned ticket stands, the record of its execution says too. -/
theorem Assigned.fits (hassigned : Assigned unset (start false none e₀) evs conn w wdp c h)
    (hfresh : FreshAttempts (calls (process.trace (start false none e₀) evs))) :
    ∃ r, (process.run (start false none e₀) evs).coordinator.engine.find wdp.ticket.executionId =
        some r ∧ (tenure wdp.ticket.executionId c.op h).Fits wdp.ticket r ∧ r.Shaped := by
  obtain ⟨before, o, hsplit, hissued⟩ := hassigned.issued
  have run : Runs engine Always (init e₀) _ _ := calls_run (start false none e₀) evs
  have hreachable := reachable_of_runs run
  rw [hsplit] at run hfresh
  obtain ⟨s₁, run₁, -, hout, run₂⟩ := run.at_event
  obtain rfl : o = engine.out s₁ c := hout
  rw [List.append_cons] at hfresh
  obtain ⟨r, hr, hfits⟩ := tenure_fits run₁ hissued run₂ hfresh
  exact ⟨r, hr, hfits, hreachable.shaped hr⟩

variable {p : Process} {persistent : Bool} {file : Option ByteString} {world : World}
  {loads : ℕ → Bool} {bounded : w.Bounded}

/-- A report that is handled is about an assigned ticket. -/
theorem assigned_of_handled {ev : Event} {y : Handled}
    (hwired : Wired unset world (start persistent file e₀) evs)
    (hout : process.out (process.run (start persistent file e₀) evs) ev = some y)
    (hpeer : world y.entry.conn = some (.worker w loads bounded))
    (htype : y.entry.type = .start ∨ y.entry.type = .complete) :
    ∃ wdp c h, Assigned unset (start persistent file e₀) evs y.entry.conn w wdp c h ∧
      y.question ∈ w.report wdp := by
  obtain ⟨amb, order, rest, -, hqueue, -, -⟩ := out_some hout
  have hwaited : y.entry ∈ (process.run (start persistent file e₀) evs).queue :=
    hqueue ▸ List.mem_cons_self
  have hreceived := received_of_queue hwaited fun hshutdown => by
    rw [hshutdown] at htype
    rcases htype with h | h <;> cases h
  obtain ⟨wdp, hreport, hsent, ⟨⟨c, o⟩, hmem, hissue⟩, hworker⟩ :=
    reported hwired hpeer hreceived htype
  obtain ⟨before, h, hsplit⟩ := List.append_of_mem hmem
  exact ⟨wdp, c, h, ⟨⟨before, o, hsplit, ticket_of_issue hissue⟩, hsent, hworker⟩, hreport⟩

end

end Process

namespace Sample

/-- The completion of the worker waits. -/
def reporting : List Process.Event := labouring.dropLast

theorem wired_reporting : Process.Wired 0 factory (.start false none ⟨1⟩) reporting :=
  wired_labouring.of_prefix (List.dropLast_prefix _)

end Sample

end ExecutionFabric
