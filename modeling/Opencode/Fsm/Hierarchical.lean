import Opencode.Lib.RootPath

/-!
# The hierarchical state machine

States form a hierarchy through `parents`.  An event that the current state has no
enabled transition for goes to its parent, and so on; the transition is then executed
from the state that had it: exits up to the lowest common ancestor with the target,
the transition's action, entries down to the target.

States, events, callbacks and guards are arbitrary types.  The machine's own output is
the sequence of `Visit`s: which action slots it came by, with the callback registered
there, and which transition actions it ran.  Guards are evaluated by a valuation given
with each event.

The loops of the source go up the hierarchy without a bound.  Here they take as many
turns as a hierarchy of this size can need; a result `none` means that the loop of the
source does not end.

## Main definitions

* `HierarchicalStateMachine` — the tables and the current state.
* `addState`, `addTransition`, `onEntry`, `onExit` — building one.
* `pathToRoot`, `findLca`, `isAncestor`, `isInState` — queries.
* `reset`, `processEvent`, `executeTransition` — running it.
-/

namespace Opencode.Fsm

open Opencode.Lib

universe u

/-- An entry of the transition table; action and guard may be empty. -/
structure Transition (S A G : Type u) where
  target : S
  action : Option A
  guard : Option G
  deriving DecidableEq

/-- What the machine does to the outside: it comes by the exit or the entry slot of a
state, where a callback may be registered, or runs a transition's action. -/
inductive Visit (S A : Type u)
  | exit (s : S) (callback : Option A)
  | action (a : A)
  | entry (s : S) (callback : Option A)
  deriving DecidableEq

/-- The machine. -/
structure HierarchicalStateMachine (S E A G : Type u) where
  currentState : S
  parents : AList fun _ : S => S
  children : AList fun _ : S => List S
  transitions : AList fun _ : S × E => Transition S A G
  entryActions : AList fun _ : S => A
  exitActions : AList fun _ : S => A

namespace HierarchicalStateMachine

variable {S E A G : Type u} [DecidableEq S]

/-- A machine without tables; its current state is not set to anything in particular. -/
def empty (unset : S) : HierarchicalStateMachine S E A G := ⟨unset, ∅, ∅, ∅, ∅, ∅⟩

/-! ## Building -/

def addState (m : HierarchicalStateMachine S E A G) (state parent : S) :
    HierarchicalStateMachine S E A G :=
  { m with
    parents := m.parents.insert state parent
    children := m.children.insert parent ((m.children.lookup parent).getD [] ++ [state]) }

def addTransition [DecidableEq E] (m : HierarchicalStateMachine S E A G) (src : S) (event : E)
    (dst : S) (action : Option A) (guard : Option G) : HierarchicalStateMachine S E A G :=
  { m with transitions := m.transitions.insert (src, event) ⟨dst, action, guard⟩ }

def onEntry (m : HierarchicalStateMachine S E A G) (state : S) (action : A) :
    HierarchicalStateMachine S E A G :=
  { m with entryActions := m.entryActions.insert state action }

def onExit (m : HierarchicalStateMachine S E A G) (state : S) (action : A) :
    HierarchicalStateMachine S E A G :=
  { m with exitActions := m.exitActions.insert state action }

/-! ## Queries -/

variable (m : HierarchicalStateMachine S E A G)

def parent (s : S) : Option S := m.parents.lookup s

/-- The turns a loop up the hierarchy can need. -/
def turns : ℕ := m.parents.keys.length + 1

def pathToRoot (state : S) : Option (List S) := walkUp m.parent m.turns state

/-- The loop starts at the parent, so a state is not an ancestor of itself. -/
def isAncestor (ancestor state : S) : Option Bool :=
  match m.parent state with
  | none => some false
  | some p =>
      (searchUp m.parent (fun s => if s = ancestor then some () else none) m.turns p).map
        Option.isSome

def isDescendant (descendant state : S) : Option Bool := m.isAncestor state descendant

def isInState (state : S) : Option Bool :=
  if m.currentState = state then some true else m.isDescendant m.currentState state

/-- The first state of the path of `a` that is on the path of `b`, and `a` itself if
the two paths do not meet. -/
def findLca (a b : S) : Option S := do
  let pathA ← m.pathToRoot a
  let pathB ← m.pathToRoot b
  return (pathA.find? fun s => decide (s ∈ pathB)).getD a

/-! ## Running -/

/-- Exits from `src` up to the common ancestor, the action, entries down to `dst`. -/
def executeTransition (src dst : S) (action : Option A) :
    Option (List (Visit S A) × HierarchicalStateMachine S E A G) := do
  let lca ← m.findLca src dst
  let exitPath ← climbTo m.parent lca m.turns src
  let entryPath ← climbTo m.parent lca m.turns dst
  return (exitPath.map (fun s => .exit s (m.exitActions.lookup s)) ++
      action.toList.map .action ++
      entryPath.reverse.map (fun s => .entry s (m.entryActions.lookup s)),
    { m with currentState := dst })

/-- The transition `s` has for the event, if its guard is empty or passes. -/
def enabled [DecidableEq E] (event : E) (guards : G → Bool) (s : S) : Option (S × Transition S A G) :=
  match m.transitions.lookup (s, event) with
  | some tr => if tr.guard.all guards then some (s, tr) else none
  | none => none

/-- The state that handles the event, from the current one upwards. -/
def handler [DecidableEq E] (event : E) (guards : G → Bool) : Option (Option (S × Transition S A G)) :=
  searchUp m.parent (m.enabled event guards) m.turns m.currentState

/-- The transition is executed from the state that handles the event. -/
def processEvent [DecidableEq E] (event : E) (guards : G → Bool) :
    Option (Bool × List (Visit S A) × HierarchicalStateMachine S E A G) := do
  match ← m.handler event guards with
  | some (current, tr) =>
      let (visits, m') ← m.executeTransition current tr.target tr.action
      return (true, visits, m')
  | none => return (false, [], m)

/-- Entries from the root down to the initial state. -/
def reset (initial : S) : Option (List (Visit S A) × HierarchicalStateMachine S E A G) := do
  let path ← m.pathToRoot initial
  return (path.reverse.map (fun s => .entry s (m.entryActions.lookup s)),
    { m with currentState := initial })

/-! ## What the loops return -/

variable {m} {s a b : S} {l la lb : List S}

theorem mem_keys_of_parent {p : S} (h : m.parent a = some p) : a ∈ m.parents.keys := by
  rw [← AList.mem_keys, ← AList.lookup_isSome]
  exact Option.isSome_iff_exists.mpr ⟨p, h⟩

theorem length_le_turns (h : RootPath m.parent s l) : l.length ≤ m.turns :=
  h.length_le fun _ _ hp => mem_keys_of_parent hp

/-- In an acyclic hierarchy every state has a root path. -/
theorem exists_path (hac : Acyclic m.parent) (s : S) : ∃ l, RootPath m.parent s l :=
  exists_rootPath hac (fun _ _ hp => mem_keys_of_parent hp) s

theorem pathToRoot_eq (h : RootPath m.parent s l) : m.pathToRoot s = some l :=
  walkUp_eq_some_iff.mpr ⟨h, length_le_turns h⟩

/-- The ancestors of a state are the rest of its root path. -/
theorem isAncestor_eq (h : RootPath m.parent s l) (a : S) :
    m.isAncestor a s = some (decide (a ∈ l.tail)) := by
  cases h with
  | root hs => simp [isAncestor, hs]
  | up hs rest =>
      simp only [isAncestor, hs, searchUp_eq _ rest (length_le_turns rest), Option.map_some]
      rw [Option.some.injEq, Bool.eq_iff_iff, List.findSome?_isSome_iff, decide_eq_true_iff]
      simp

/-- The machine is in the states of the root path of its current state. -/
theorem isInState_eq (h : RootPath m.parent m.currentState l) (s : S) :
    m.isInState s = some (decide (s ∈ l)) := by
  rw [isInState, isDescendant, isAncestor_eq h]
  obtain ⟨tl, rfl⟩ := h.eq_cons
  by_cases hs : m.currentState = s
  · simp [hs]
  · rw [if_neg hs, Option.some.injEq, decide_eq_decide]
    simp [Ne.symm hs]

theorem findLca_eq (ha : RootPath m.parent a la) (hb : RootPath m.parent b lb) :
    m.findLca a b = some ((la.find? fun s => decide (s ∈ lb)).getD a) := by
  simp [findLca, pathToRoot_eq ha, pathToRoot_eq hb]

theorem handler_eq [DecidableEq E] (h : RootPath m.parent m.currentState l) (event : E)
    (guards : G → Bool) :
    m.handler event guards = some (l.findSome? (m.enabled event guards)) :=
  searchUp_eq _ h (length_le_turns h)

/-- The state that handles an event is on the root path of the current state. -/
theorem mem_of_handler [DecidableEq E] (h : RootPath m.parent m.currentState l) {event : E}
    {guards : G → Bool} {tr : Transition S A G}
    (hh : m.handler event guards = some (some (s, tr))) : s ∈ l := by
  rw [handler_eq h, Option.some.injEq] at hh
  obtain ⟨x, hx, hen⟩ := List.exists_of_findSome?_eq_some hh
  unfold enabled at hen
  split at hen
  · split at hen
    · obtain ⟨rfl, -⟩ := Prod.mk.inj (Option.some.inj hen)
      exact hx
    · cases hen
  · cases hen

/-- The visits of a transition between two states with root paths. -/
theorem executeTransition_eq (ha : RootPath m.parent a la) (hb : RootPath m.parent b lb)
    (action : Option A) {lca : S}
    (hlca : lca = (la.find? fun s => decide (s ∈ lb)).getD a) :
    m.executeTransition a b action =
      some ((la.takeWhile fun s => decide (s ≠ lca)).map
            (fun s => Visit.exit s (m.exitActions.lookup s)) ++
          action.toList.map .action ++
          (lb.takeWhile fun s => decide (s ≠ lca)).reverse.map
            (fun s => Visit.entry s (m.entryActions.lookup s)),
        { m with currentState := b }) := by
  simp only [executeTransition, findLca_eq ha hb, ← hlca,
    climbTo_eq lca ha (length_le_turns ha), climbTo_eq lca hb (length_le_turns hb),
    Option.bind_eq_bind, Option.bind_some]
  rfl

/-- In an acyclic hierarchy every transition ends, in its target. -/
theorem exists_visits (hac : Acyclic m.parent) (src dst : S) (action : Option A) :
    ∃ visits, m.executeTransition src dst action =
      some (visits, { m with currentState := dst }) := by
  obtain ⟨la, ha⟩ := exists_path hac src
  obtain ⟨lb, hb⟩ := exists_path hac dst
  exact ⟨_, executeTransition_eq ha hb action rfl⟩

end HierarchicalStateMachine
end Opencode.Fsm
