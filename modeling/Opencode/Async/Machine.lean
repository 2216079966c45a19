import Opencode.Fsm.Simple

/-!
# The event-driven machine without its thread

`EventDrivenStateMachine` has the tables of the simple machine and a list of observers.
`processInternalLocked` is its transition executor, written separately from that of
`SimpleStateMachine`; here the two are compared, for one event and for a sequence.

## Main definitions

* `EventDrivenStateMachine` — the tables, the observers and the current state.
* `processInternalLocked` — one event, under the mutex.
* `Account.after` — what the simple machine does with a sequence of events.
-/

namespace Opencode.Async

open Opencode.Fsm

variable {S E A G B : Type}

/-- The tables and the current state; `B` are the observers' callbacks. -/
structure EventDrivenStateMachine (S E A G B : Type) where
  currentState : S
  transitions : AList fun _ : S × E => Transition S A G
  entryActions : AList fun _ : S => A
  exitActions : AList fun _ : S => A
  observers : List B

/-- One call of an observer. -/
structure Notice (S E B : Type) where
  callback : B
  src : S
  dst : S
  event : E
  deriving DecidableEq

namespace EventDrivenStateMachine

def notifyObserversLocked (m : EventDrivenStateMachine S E A G B) (src dst : S) (event : E) :
    List (Notice S E B) :=
  m.observers.map (⟨·, src, dst, event⟩)

/-- Whether the event was taken, the action slots and the observers the machine came by,
and the machine after it. -/
def processInternalLocked [DecidableEq S] [DecidableEq E] (m : EventDrivenStateMachine S E A G B)
    (guards : G → Bool) (event : E) :
    Bool × List (Visit S A) × List (Notice S E B) × EventDrivenStateMachine S E A G B :=
  match m.transitions.lookup (m.currentState, event) with
  | none => (false, [], [], m)
  | some tr =>
      if tr.guard.all guards then
        let previous := m.currentState
        let exited := [.exit previous (m.exitActions.lookup previous)]
        let m' := { m with currentState := tr.target }
        let acted := tr.action.toList.map .action
        let entered := [.entry m'.currentState (m'.entryActions.lookup m'.currentState)]
        (true, exited ++ acted ++ entered,
          m'.notifyObserversLocked previous m'.currentState event, m')
      else (false, [], [], m)

/-- The simple machine with the same tables in the same state. -/
def toSimple (m : EventDrivenStateMachine S E A G B) : SimpleStateMachine S E A G :=
  ⟨m.currentState, m.transitions, m.entryActions, m.exitActions⟩

/-- **The two executors agree**: same answer, same visits, same state; the observers are
called, each once, when the event is taken. -/
theorem processInternalLocked_simulates [DecidableEq S] [DecidableEq E]
    (m : EventDrivenStateMachine S E A G B) (guards : G → Bool) (event : E) :
    let result := m.processInternalLocked guards event
    let simple := m.toSimple.processEvent guards event
    result.1 = simple.1 ∧ result.2.1 = simple.2.1 ∧
      result.2.2.1 = (if simple.1 then
        m.notifyObserversLocked m.currentState simple.2.2.currentState event else []) ∧
      result.2.2.2.toSimple = simple.2.2 ∧ result.2.2.2.observers = m.observers := by
  cases htr : m.transitions.lookup (m.currentState, event) with
  | none => simp [processInternalLocked, SimpleStateMachine.processEvent, toSimple, htr]
  | some tr =>
      by_cases hg : tr.guard.all guards <;>
        simp [processInternalLocked, SimpleStateMachine.processEvent, toSimple, htr, hg,
          notifyObserversLocked]

end EventDrivenStateMachine

/-! ## A sequence of events -/

/-- A simple machine, what it came by so far, and the changes of state it reported. -/
structure Account (S E A G : Type) where
  machine : SimpleStateMachine S E A G
  visits : List (Visit S A) := []
  changes : List (S × S × E) := []

/-- Fold `SimpleStateMachine.processEvent` over one more event. -/
def Account.next [DecidableEq S] [DecidableEq E] (guards : G → Bool) (acc : Account S E A G)
    (event : E) : Account S E A G :=
  let result := acc.machine.processEvent guards event
  { machine := result.2.2
    visits := acc.visits ++ result.2.1
    changes :=
      if result.1 then
        acc.changes ++ [(acc.machine.currentState, result.2.2.currentState, event)]
      else acc.changes }

/-- The account of a sequence of events. -/
def Account.after [DecidableEq S] [DecidableEq E] (guards : G → Bool)
    (m : SimpleStateMachine S E A G) (events : List E) : Account S E A G :=
  events.foldl (Account.next guards) { machine := m }

theorem Account.after_concat [DecidableEq S] [DecidableEq E] (guards : G → Bool)
    (m : SimpleStateMachine S E A G) (events : List E) (event : E) :
    Account.after guards m (events ++ [event]) =
      (Account.after guards m events).next guards event := by
  simp [Account.after]

end Opencode.Async
