import Opencode.Fsm.Hierarchical

/-!
# The simple state machine

A transition table, the entry and exit actions of the states, and a current state.  An
event is looked up under the current state; without an entry, or with a guard that
fails, nothing happens.

Callbacks, guards and the output of the machine are those of the hierarchical machine:
the sequence of `Visit`s, and a valuation for the guards.

## Main definitions

* `SimpleStateMachine` — the tables and the current state.
* `addTransition`, `onEntry`, `onExit`, `removeTransition` — building one.
* `processEvent`, `reset` — running it.
-/

namespace Opencode.Fsm

universe u

/-- The machine. -/
structure SimpleStateMachine (S E A G : Type u) where
  currentState : S
  transitions : AList fun _ : S × E => Transition S A G
  entryActions : AList fun _ : S => A
  exitActions : AList fun _ : S => A

namespace SimpleStateMachine

variable {S E A G : Type u} [DecidableEq S]

def addTransition [DecidableEq E] (m : SimpleStateMachine S E A G) (src : S) (event : E)
    (dst : S) (action : Option A) (guard : Option G) : SimpleStateMachine S E A G :=
  { m with transitions := m.transitions.insert (src, event) ⟨dst, action, guard⟩ }

def onEntry (m : SimpleStateMachine S E A G) (state : S) (action : A) :
    SimpleStateMachine S E A G :=
  { m with entryActions := m.entryActions.insert state action }

def onExit (m : SimpleStateMachine S E A G) (state : S) (action : A) :
    SimpleStateMachine S E A G :=
  { m with exitActions := m.exitActions.insert state action }

def removeTransition [DecidableEq E] (m : SimpleStateMachine S E A G) (src : S) (event : E) :
    SimpleStateMachine S E A G :=
  { m with transitions := m.transitions.erase (src, event) }

/-- Whether the event was taken, what the machine came by, and the machine after it. -/
def processEvent [DecidableEq E] (m : SimpleStateMachine S E A G) (guards : G → Bool)
    (event : E) : Bool × List (Visit S A) × SimpleStateMachine S E A G :=
  match m.transitions.lookup (m.currentState, event) with
  | none => (false, [], m)
  | some tr =>
      if tr.guard.all guards then
        (true,
          .exit m.currentState (m.exitActions.lookup m.currentState) ::
            (tr.action.toList.map .action ++ [.entry tr.target (m.entryActions.lookup tr.target)]),
          { m with currentState := tr.target })
      else (false, [], m)

/-- Only the initial state is entered. -/
def reset (m : SimpleStateMachine S E A G) (initial : S) :
    List (Visit S A) × SimpleStateMachine S E A G :=
  ([.entry initial (m.entryActions.lookup initial)], { m with currentState := initial })

end SimpleStateMachine

end Opencode.Fsm
