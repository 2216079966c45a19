import Mathlib.Data.List.AList
import Opencode.Lib.Reactive

/-!
# The object-oriented state machine

The states are objects.  Registering one creates an object of its class and enters it
under that class, in the place of an earlier one; an object stays where it is, and the
current state may be one that was replaced.  An event goes to the object of the current
state, which may change the context the states share and names the state to go to by
asking the machine for the object of a class.

What the objects are does not show: as long as no class asks for itself, the machine
answers and behaves as one that only knows which classes are registered and which class
the current state is of.

## Main definitions

* `Classes` — the virtual functions of the classes of states.
* `StateMachine` — the objects, the one registered for each class, and the current one.
* `Call`, `perform` — the calls and what they do.
* `ClassMachine`, `answers_byClass` — the machine of the classes, and that it is the same.
-/

namespace Opencode.Fsm

open Opencode.Lib

/-- The virtual functions of the classes `T` of states, over the context they share.
`handleEvent` is the class it returns the state of, or nothing for a null pointer. -/
structure Classes (T E C : Type) where
  onEntry : T → C → C
  onExit : T → C → C
  handleEvent : T → E → C → Option T × C

/-- An object of a class; the address tells objects apart. -/
structure Object (T : Type) where
  type : T
  address : ℕ
  deriving DecidableEq

/-- The machine and the context its states share. -/
structure StateMachine (T C : Type) where
  statePtrs : List (Object T)
  statesByType : AList fun _ : T => Object T
  currentState : Option (Object T)
  context : C

namespace StateMachine

variable {T E C : Type} [DecidableEq T]

/-- A machine without states. -/
def empty (context : C) : StateMachine T C := ⟨[], ∅, none, context⟩

def registerState (m : StateMachine T C) (t : T) : StateMachine T C :=
  let object : Object T := ⟨t, m.statePtrs.length⟩
  { m with
    statesByType := m.statesByType.insert t object
    statePtrs := m.statePtrs ++ [object] }

/-- The object registered for a class. -/
def state (m : StateMachine T C) (t : T) : Option (Object T) := m.statesByType.lookup t

def start (cls : Classes T E C) (m : StateMachine T C) (t : T) : Bool × StateMachine T C :=
  match m.statesByType.lookup t with
  | none => (false, m)
  | some object =>
      (true, { m with currentState := some object, context := cls.onEntry object.type m.context })

def processEvent (cls : Classes T E C) (m : StateMachine T C) (event : E) :
    Bool × StateMachine T C :=
  match m.currentState with
  | none => (false, m)
  | some current =>
      let (wanted, context) := cls.handleEvent current.type event m.context
      match wanted.bind m.state with
      | none => (false, { m with context := context })
      | some next =>
          if next ≠ current then
            (true, { m with
              currentState := some next
              context := cls.onEntry next.type (cls.onExit current.type context) })
          else (true, { m with context := context })

def isIn (m : StateMachine T C) (t : T) : Bool :=
  m.currentState.any (·.type = t)

def size (m : StateMachine T C) : ℕ := m.statePtrs.length

end StateMachine

/-- The calls of a program; `registerState` returns a reference, the others a truth value. -/
inductive Call (T E : Type)
  | registerState (t : T)
  | start (t : T)
  | processEvent (event : E)
  deriving DecidableEq

namespace StateMachine

variable {T E C : Type} [DecidableEq T]

def perform (cls : Classes T E C) (m : StateMachine T C) : Call T E → Bool × StateMachine T C
  | .registerState t => (true, m.registerState t)
  | .start t => m.start cls t
  | .processEvent event => m.processEvent cls event

/-- The class of the current state. -/
def currentType (m : StateMachine T C) : Option T := m.currentState.map (·.type)

/-- The object registered for a class is of that class. -/
def Typed (m : StateMachine T C) : Prop := ∀ t o, m.state t = some o → o.type = t

end StateMachine

/-! ## Without the objects -/

/-- What is left of the machine when its states are their classes. -/
structure ClassMachine (T C : Type) where
  registered : T → Bool
  current : Option T
  context : C

namespace ClassMachine

variable {T E C : Type} [DecidableEq T]

def start (cls : Classes T E C) (m : ClassMachine T C) (t : T) : Bool × ClassMachine T C :=
  if m.registered t then (true, { m with current := some t, context := cls.onEntry t m.context })
  else (false, m)

def processEvent (cls : Classes T E C) (m : ClassMachine T C) (event : E) :
    Bool × ClassMachine T C :=
  match m.current with
  | none => (false, m)
  | some current =>
      let (wanted, context) := cls.handleEvent current event m.context
      match wanted.filter m.registered with
      | none => (false, { m with context := context })
      | some next =>
          (true, { m with
            current := some next
            context := cls.onEntry next (cls.onExit current context) })

def perform (cls : Classes T E C) (m : ClassMachine T C) : Call T E → Bool × ClassMachine T C
  | .registerState t => (true, { m with registered := Function.update m.registered t true })
  | .start t => m.start cls t
  | .processEvent event => m.processEvent cls event

end ClassMachine

/-- No class returns its own state. -/
def Classes.Moving {T E C : Type} (cls : Classes T E C) : Prop :=
  ∀ t e c, (cls.handleEvent t e c).1 ≠ some t

namespace StateMachine

variable {T E C : Type} [DecidableEq T] {cls : Classes T E C} {m : StateMachine T C}

/-- The machine of the classes. -/
def byClass (m : StateMachine T C) : ClassMachine T C where
  registered t := (m.state t).isSome
  current := m.currentType
  context := m.context

theorem typed_empty (context : C) : (empty context : StateMachine T C).Typed := by
  intro t o h
  simp [empty, state] at h

/-- What `handle_event` asks for is found exactly when its class is registered. -/
theorem Typed.bind_state (h : m.Typed) (wanted : Option T) :
    (wanted.bind m.state).map (·.type) = wanted.filter fun t => (m.state t).isSome := by
  cases wanted with
  | none => rfl
  | some t =>
      cases hs : m.state t with
      | none => simp [Option.filter, hs]
      | some o => simp [Option.filter, hs, h t o hs]

theorem registerState_typed (h : m.Typed) (t : T) : (m.registerState t).Typed := by
  intro t' o ho
  by_cases hne : t' = t
  · subst hne
    simp only [registerState, state, AList.lookup_insert, Option.some.injEq] at ho
    exact ho ▸ rfl
  · simp only [registerState, state, AList.lookup_insert_ne hne] at ho
    exact h t' o ho

theorem byClass_registerState (t : T) :
    (m.registerState t).byClass =
      { m.byClass with registered := Function.update m.byClass.registered t true } := by
  have hreg : ∀ t', ((m.registerState t).state t').isSome =
      Function.update m.byClass.registered t true t' := by
    intro t'
    by_cases hne : t' = t
    · subst hne
      simp [registerState, state]
    · simp [registerState, state, byClass, hne, AList.lookup_insert_ne hne]
  simp only [byClass, ClassMachine.mk.injEq]
  exact ⟨funext hreg, rfl, rfl⟩

/-- A call leaves the table of the classes alone, unless it registers a state. -/
theorem start_statesByType (t : T) :
    (m.start cls t).2.statesByType = m.statesByType := by
  unfold start
  cases m.statesByType.lookup t <;> rfl

theorem processEvent_statesByType (event : E) :
    (m.processEvent cls event).2.statesByType = m.statesByType := by
  unfold processEvent
  cases m.currentState with
  | none => rfl
  | some current =>
      simp only
      cases (cls.handleEvent current.type event m.context).1.bind m.state with
      | none => rfl
      | some next =>
          simp only
          split <;> rfl

theorem perform_typed (h : m.Typed) (call : Call T E) : (m.perform cls call).2.Typed := by
  cases call with
  | registerState t => exact registerState_typed h t
  | start t =>
      intro t' o ho
      exact h t' o (by rw [← ho, state, state, perform, start_statesByType])
  | processEvent event =>
      intro t' o ho
      exact h t' o (by rw [← ho, state, state, perform, processEvent_statesByType])

theorem start_byClass (h : m.Typed) (t : T) :
    (m.start cls t).1 = (m.byClass.start cls t).1 ∧
      (m.start cls t).2.byClass = (m.byClass.start cls t).2 := by
  cases hs : m.state t with
  | none =>
      have hs' : m.statesByType.lookup t = none := hs
      simp [start, ClassMachine.start, byClass, hs, hs']
  | some o =>
      have hs' : m.statesByType.lookup t = some o := hs
      have ho : o.type = t := h t o hs
      simp only [start, ClassMachine.start, byClass, hs, hs', Option.isSome_some, if_true, ho,
        currentType, Option.map_some, true_and]
      rfl

theorem processEvent_byClass (hcls : cls.Moving) (h : m.Typed) (event : E) :
    (m.processEvent cls event).1 = (m.byClass.processEvent cls event).1 ∧
      (m.processEvent cls event).2.byClass = (m.byClass.processEvent cls event).2 := by
  cases hc : m.currentState with
  | none => simp [processEvent, ClassMachine.processEvent, byClass, currentType, hc]
  | some current =>
      have hfound := h.bind_state (cls.handleEvent current.type event m.context).1
      have hmoves := hcls current.type event m.context
      simp only [processEvent, ClassMachine.processEvent, hc]
      cases hb : (cls.handleEvent current.type event m.context).1.bind m.state with
      | none =>
          rw [hb, Option.map_none] at hfound
          simp only [byClass, currentType, hc, Option.map_some, ← hfound, true_and]
          rfl
      | some next =>
          rw [hb, Option.map_some] at hfound
          -- the class asks for another one, so the object is another one
          have hne : next ≠ current := by
            rintro rfl
            obtain ⟨t, ht, hstate⟩ := Option.bind_eq_some_iff.mp hb
            rw [ht, ← h t _ hstate] at hmoves
            exact hmoves rfl
          simp only [byClass, currentType, hc, Option.map_some, ← hfound, ne_eq, hne,
            not_false_eq_true, if_true, true_and]
          rfl

theorem perform_byClass (hcls : cls.Moving) (h : m.Typed) (call : Call T E) :
    (m.perform cls call).1 = (m.byClass.perform cls call).1 ∧
      (m.perform cls call).2.byClass = (m.byClass.perform cls call).2 := by
  cases call with
  | registerState t => exact ⟨rfl, byClass_registerState t⟩
  | start t => exact start_byClass h t
  | processEvent event => exact processEvent_byClass hcls h event

/-- **The objects do not show**: the answers to any calls, the class of the current state
and the context are those of the machine of the classes. -/
theorem answers_byClass (hcls : cls.Moving) (h : m.Typed) (calls : List (Call T E)) :
    answers (perform cls) m calls = answers (ClassMachine.perform cls) m.byClass calls ∧
      (after (perform cls) m calls).byClass =
        after (ClassMachine.perform cls) m.byClass calls := by
  obtain ⟨hans, -, hend⟩ := answers_eq_of_related (perform cls)
    (ClassMachine.perform cls) (R := fun m a => m.Typed ∧ m.byClass = a)
    (by
      rintro m - call ⟨hm, rfl⟩
      obtain ⟨hans, hnext⟩ := perform_byClass hcls hm call
      exact ⟨hans, perform_typed hm call, hnext⟩)
    ⟨h, rfl⟩ calls
  exact ⟨hans, hend⟩

end StateMachine
end Opencode.Fsm
