import ExecutionFabric.Identity

/-!
The two guarded lifecycles.

`ExecutionStateMachine.fromTo` and `AttemptStateMachine.fromTo` are the
transition tables of the source, row by row. Terminal states have empty rows,
which is what makes them absorbing; note that a `completed` attempt is not
terminal in the sense of the second table.
-/

namespace ExecutionFabric

inductive ExecutionState
  | created | ready | dispatched | running | cancellationRequested | preemptionRequested
  | preempted | resumable | resuming | completionPending | completed | committed | failed
  | cancelled | ambiguous | superseded | terminal
  deriving DecidableEq

inductive AttemptState
  | created | dispatched | running | preempted | completePending | completed | failed
  | cancelled | lost | superseded | terminal
  deriving DecidableEq

/-- In a table that is ordered by the codes, an entry is found at its own code. -/
theorem code_of_getElem? {α : Type} {table : List α} {code : α → UInt8} {c : UInt8} {a : α}
    (hcodes : table.map code = (List.range table.length).map Nat.toUInt8)
    (h : table[c.toNat]? = some a) : code a = c := by
  have hbelow : c.toNat < table.length := (List.getElem?_eq_some_iff.1 h).1
  have hentry := congrArg (·[c.toNat]?) hcodes
  simp only [List.getElem?_map, h, List.getElem?_range hbelow, Option.map_some] at hentry
  rw [Option.some.inj hentry]
  exact UInt8.ofNat_toNat

namespace ExecutionState

/-- `static_cast<std::uint8_t>` of the enumeration. -/
def code : ExecutionState → UInt8
  | created => 0 | ready => 1 | dispatched => 2 | running => 3
  | cancellationRequested => 4 | preemptionRequested => 5 | preempted => 6 | resumable => 7
  | resuming => 8 | completionPending => 9 | completed => 10 | committed => 11
  | failed => 12 | cancelled => 13 | ambiguous => 14 | superseded => 15 | terminal => 16

/-- The checked cast back: `none` where `valid_exec_state` fails. -/
def ofCode? (c : UInt8) : Option ExecutionState :=
  [created, ready, dispatched, running, cancellationRequested, preemptionRequested, preempted,
    resumable, resuming, completionPending, completed, committed, failed, cancelled, ambiguous,
    superseded, terminal][c.toNat]?

@[simp] theorem ofCode?_code (st : ExecutionState) : ofCode? st.code = some st := by
  cases st <;> rfl

theorem code_of_ofCode? {c : UInt8} {st : ExecutionState} (h : ofCode? c = some st) : st.code = c :=
  code_of_getElem? (by decide) h

def toText : ExecutionState → ByteString
  | created => text "CREATED"
  | ready => text "READY"
  | dispatched => text "DISPATCHED"
  | running => text "RUNNING"
  | cancellationRequested => text "CANCELLATION_REQUESTED"
  | preemptionRequested => text "PREEMPTION_REQUESTED"
  | preempted => text "PREEMPTED"
  | resumable => text "RESUMABLE"
  | resuming => text "RESUMING"
  | completionPending => text "COMPLETION_PENDING"
  | completed => text "COMPLETED"
  | committed => text "COMMITTED"
  | failed => text "FAILED"
  | cancelled => text "CANCELLED"
  | ambiguous => text "AMBIGUOUS"
  | superseded => text "SUPERSEDED"
  | terminal => text "TERMINAL"

end ExecutionState

namespace AttemptState

def code : AttemptState → UInt8
  | created => 0 | dispatched => 1 | running => 2 | preempted => 3 | completePending => 4
  | completed => 5 | failed => 6 | cancelled => 7 | lost => 8 | superseded => 9 | terminal => 10

/-- The checked cast back: `none` where `valid_attempt_state` fails. -/
def ofCode? (c : UInt8) : Option AttemptState :=
  [created, dispatched, running, preempted, completePending, completed, failed, cancelled,
    lost, superseded, terminal][c.toNat]?

@[simp] theorem ofCode?_code (st : AttemptState) : ofCode? st.code = some st := by
  cases st <;> rfl

theorem code_of_ofCode? {c : UInt8} {st : AttemptState} (h : ofCode? c = some st) : st.code = c :=
  code_of_getElem? (by decide) h

def toText : AttemptState → ByteString
  | created => text "CREATED"
  | dispatched => text "DISPATCHED"
  | running => text "RUNNING"
  | preempted => text "PREEMPTED"
  | completePending => text "COMPLETE_PENDING"
  | completed => text "COMPLETED"
  | failed => text "FAILED"
  | cancelled => text "CANCELLED"
  | lost => text "LOST"
  | superseded => text "SUPERSEDED"
  | terminal => text "TERMINAL"

end AttemptState

namespace ExecutionStateMachine

open ExecutionState in
/-- `ExecutionStateMachine::from`. -/
def fromTo : ExecutionState → ExecutionState → Bool
  | created, next => next ∈ [ready, cancelled, failed, terminal]
  | ready, next => next ∈ [dispatched, cancellationRequested, cancelled, failed, superseded, terminal]
  | dispatched, next => next ∈ [dispatched, ready, running, completed, completionPending,
      cancellationRequested, preemptionRequested, cancelled, failed, ambiguous, superseded,
      terminal]
  | running, next => next ∈ [dispatched, completed, completionPending, cancellationRequested,
      preemptionRequested, preempted, failed, cancelled, ambiguous, superseded, terminal]
  | cancellationRequested, next => next ∈ [cancelled, completed, completionPending, failed,
      ambiguous, terminal]
  | preemptionRequested, next => next ∈ [preempted, completed, failed, cancelled, ambiguous, terminal]
  | preempted, next => next ∈ [resumable, failed, cancelled, terminal]
  | resumable, next => next ∈ [resuming, cancelled, failed, terminal]
  | resuming, next => next ∈ [running, failed, cancelled, ambiguous, terminal]
  | completionPending, next => next ∈ [completed, failed, ambiguous, terminal]
  | completed, next => next ∈ [committed, failed, ambiguous, terminal]
  | ambiguous, next => next ∈ [completed, dispatched, failed, cancelled, superseded, terminal]
  | committed, _ | failed, _ | cancelled, _ | superseded, _ | terminal, _ => false

open ExecutionState in
def isTerminal (st : ExecutionState) : Bool :=
  st ∈ [committed, failed, cancelled, superseded, terminal]

/-- Terminal states are absorbing in the table. -/
theorem fromTo_of_isTerminal {st : ExecutionState} (h : isTerminal st = true)
    (next : ExecutionState) : fromTo st next = false := by
  cases st <;> first | rfl | cases h

end ExecutionStateMachine

namespace AttemptStateMachine

open AttemptState in
/-- `AttemptStateMachine::from`. -/
def fromTo : AttemptState → AttemptState → Bool
  | created, next => next ∈ [dispatched, cancelled, failed, terminal]
  | dispatched, next => next ∈ [running, completePending, completed, failed, cancelled, lost,
      superseded, terminal]
  | running, next => next ∈ [completePending, completed, failed, cancelled, preempted, lost,
      superseded, terminal]
  | preempted, next => next ∈ [superseded, terminal]
  | completePending, next => next ∈ [completed, failed, lost, terminal]
  | completed, next => next = terminal
  | failed, _ | cancelled, _ | lost, _ | superseded, _ | terminal, _ => false

open AttemptState in
def isTerminal (st : AttemptState) : Bool :=
  st ∈ [failed, cancelled, lost, superseded, terminal]

theorem fromTo_of_isTerminal {st : AttemptState} (h : isTerminal st = true)
    (next : AttemptState) : fromTo st next = false := by
  cases st <;> first | rfl | cases h

end AttemptStateMachine

end ExecutionFabric
