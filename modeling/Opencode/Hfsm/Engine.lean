import Mathlib

/-!
# The hfsm engine

`StateMachineEngine` is the run-time part of the hfsm library: a table of states, a list
of transition rules that is searched from the front, and a queue for the events that no
rule handled.  The active state is a copy of an entry of the table of states, taken with
`operator[]`, which inserts an entry with default contents under an id that has none.

Event types, payloads, guards and callbacks are arbitrary types.  A guard is evaluated
by a valuation given with each call, which may depend on the envelope, so a guard can
answer differently from event to event and from call to call.

Beside its result and the engine, a call gives everything it runs, in order, and what
`current_state()` answers meanwhile.  Exit and entry callbacks are recorded by the state
they are run for and an action by its rule, whether or not there is one.

## Main definitions

* `StateMachineEngine` — the tables, the active state and the deferred events.
* `registerState`, `setInitial`, `addRule`, `onEntry`, `onExit` — configuring it.
* `Moment` — something the engine runs, and the state it then observes.
* `handleEnvelope`, `processDeferred`, `reset` — running it.
* `callbacks` — the callbacks behind what is run.
-/

namespace Opencode.Hfsm

universe u

abbrev StateId := UInt64

/-- `INVALID_STATE`, the largest id. -/
def invalidState : StateId := ~~~0

/-- An event with its type.  `serial` tells the `handle` call that wrapped the event from
every other; the engine does not read it. -/
structure EventEnvelope (T D : Type u) where
  typeInfo : T
  data : D
  serial : ℕ
  deriving DecidableEq

/-- A rule; guard and action may be empty. -/
structure RuntimeTransition (T G A : Type u) where
  srcId : StateId := invalidState
  eventType : T
  dstId : StateId := invalidState
  isAny : Bool := false
  isInternal : Bool := false
  guard : Option G := none
  action : Option A := none
  deriving DecidableEq

/-- An entry of the table of states. -/
structure ActiveState where
  id : StateId := invalidState
  deriving DecidableEq

/-- The option of `MachineConfig` the engine reads. -/
structure MachineConfig where
  deferUnhandledEvents : Bool := false
  deriving DecidableEq

inductive EventResult
  | handled
  | unhandled
  | deferred
  | rejected
  | error
  deriving DecidableEq

/-- What the engine runs: a guard, the exit or entry callback of a state, or the action of
a rule. -/
inductive Slot (T D G A : Type u)
  | guard (guard : G) (evt : EventEnvelope T D)
  | exit (id : StateId)
  | action (rule : RuntimeTransition T G A) (evt : EventEnvelope T D)
  | entry (id : StateId)
  deriving DecidableEq

/-- Something the engine runs, and what `current_state()` answers meanwhile. -/
structure Moment (T D G A : Type u) where
  slot : Slot T D G A
  current : StateId
  deriving DecidableEq

/-- A callback the engine runs.  Entry and exit callbacks get an event that stands for
nothing. -/
inductive Callback (T D A : Type u)
  | exit (callback : A)
  | action (callback : A) (evt : EventEnvelope T D)
  | entry (callback : A)
  deriving DecidableEq

/-- The engine. -/
structure StateMachineEngine (T D G A : Type u) where
  config : MachineConfig := {}
  initialState : StateId := invalidState
  activeState : ActiveState := {}
  states : AList fun _ : StateId => ActiveState := ∅
  rules : List (RuntimeTransition T G A) := []
  entryActions : AList fun _ : StateId => A := ∅
  exitActions : AList fun _ : StateId => A := ∅
  deferredEvents : List (EventEnvelope T D) := []

namespace StateMachineEngine

variable {T D G A : Type u} (e : StateMachineEngine T D G A)

def currentState : StateId := e.activeState.id

/-! ## Configuring -/

def registerState (id : StateId) : StateMachineEngine T D G A :=
  if id ∈ e.states then e else { e with states := e.states.insert id { id } }

/-- `states_[id]`: an id without an entry gets one with default contents. -/
def stateAt (id : StateId) : ActiveState × AList fun _ : StateId => ActiveState :=
  match e.states.lookup id with
  | some a => (a, e.states)
  | none => ({}, e.states.insert id {})

/-- The active state becomes a copy of the entry of an id. -/
def activate (id : StateId) : StateMachineEngine T D G A :=
  { e with activeState := (e.stateAt id).1, states := (e.stateAt id).2 }

/-- Only an engine without an active state starts in the initial state. -/
def setInitial (id : StateId) : StateMachineEngine T D G A :=
  let e' := { e.registerState id with initialState := id }
  if e'.currentState = invalidState then e'.activate id else e'

def addRule (rule : RuntimeTransition T G A) : StateMachineEngine T D G A :=
  { e with rules := e.rules ++ [rule] }

def onEntry (id : StateId) (cb : A) : StateMachineEngine T D G A :=
  { e with entryActions := e.entryActions.insert id cb }

def onExit (id : StateId) (cb : A) : StateMachineEngine T D G A :=
  { e with exitActions := e.exitActions.insert id cb }

/-! ## Running -/

def runEntry (id : StateId) : List (Callback T D A) :=
  (e.entryActions.lookup id).toList.map .entry

def runExit (id : StateId) : List (Callback T D A) :=
  (e.exitActions.lookup id).toList.map .exit

/-- Something runs now. -/
def moment (slot : Slot T D G A) : Moment T D G A := ⟨slot, e.currentState⟩

/-- The callbacks behind what is run; a guard is none. -/
def callbacks (m : Moment T D G A) : List (Callback T D A) :=
  match m.slot with
  | .guard _ _ => []
  | .exit id => e.runExit id
  | .action rule evt => rule.action.toList.map (.action · evt)
  | .entry id => e.runEntry id

/-- Back to the initial state; the deferred events are dropped. -/
def reset : List (Moment T D G A) × StateMachineEngine T D G A :=
  let exits :=
    if e.currentState ≠ invalidState ∧ e.currentState ≠ e.initialState then
      [e.moment (.exit e.currentState)]
    else []
  let e := e.activate e.initialState
  let entries := if e.currentState ≠ invalidState then [e.moment (.entry e.currentState)] else []
  (exits ++ entries, { e with deferredEvents := [] })

/-- The active state is left and the target of the rule entered, unless the rule is
internal. -/
def executeTransition (rule : RuntimeTransition T G A) (evt : EventEnvelope T D) :
    List (Moment T D G A) × StateMachineEngine T D G A :=
  if rule.isInternal then ([e.moment (.action rule evt)], e)
  else
    let exitId := e.currentState
    let enterId := rule.dstId
    let exits := [e.moment (.exit exitId)]
    let e := e.activate enterId
    let actions := [e.moment (.action rule evt)]
    (exits ++ actions ++ [e.moment (.entry enterId)], e)

variable [DecidableEq T]

def matchesRule (rule : RuntimeTransition T G A) (evt : EventEnvelope T D) : Bool :=
  rule.eventType = evt.typeInfo && (rule.isAny || rule.srcId = e.currentState)

/-- The loop over the rules: the first rule to execute, and the guards evaluated on the
way to it. -/
def search (guards : G → EventEnvelope T D → Bool) (evt : EventEnvelope T D) :
    List (RuntimeTransition T G A) → List (Moment T D G A) × Option (RuntimeTransition T G A)
  | [] => ([], none)
  | rule :: rules =>
      if !e.matchesRule rule evt then search guards evt rules
      else
        match rule.guard with
        | none => ([], some rule)
        | some g =>
            if guards g evt then ([e.moment (.guard g evt)], some rule)
            else
              let (evaluated, found) := search guards evt rules
              (e.moment (.guard g evt) :: evaluated, found)

def handleEnvelope (guards : G → EventEnvelope T D → Bool) (evt : EventEnvelope T D) :
    EventResult × List (Moment T D G A) × StateMachineEngine T D G A :=
  match e.search guards evt e.rules with
  | (evaluated, some rule) =>
      let (run, e) := e.executeTransition rule evt
      (.handled, evaluated ++ run, e)
  | (evaluated, none) =>
      if e.config.deferUnhandledEvents then
        (.deferred, evaluated, { e with deferredEvents := e.deferredEvents ++ [evt] })
      else (.unhandled, evaluated, e)

/-- The loop over the events that were deferred, with the result so far. -/
def replay (guards : G → EventEnvelope T D → Bool) :
    List (EventEnvelope T D) → EventResult → StateMachineEngine T D G A →
      EventResult × List (Moment T D G A) × StateMachineEngine T D G A
  | [], result, e => (result, [], e)
  | evt :: events, result, e =>
      let (r, run, e') := e.handleEnvelope guards evt
      let (result', run', e'') :=
        replay guards events (if r = .unhandled then .unhandled else result) e'
      (result', run ++ run', e'')

/-- The queue is moved out before the loop and is empty when it starts. -/
def processDeferred (guards : G → EventEnvelope T D → Bool) :
    EventResult × List (Moment T D G A) × StateMachineEngine T D G A :=
  replay guards e.deferredEvents .handled { e with deferredEvents := [] }

/-! ## What a call does -/

/-- The first rule that matches and whose guard, if it has one, passes. -/
def selectRule (guards : G → EventEnvelope T D → Bool) (evt : EventEnvelope T D) :
    Option (RuntimeTransition T G A) :=
  e.rules.find? fun rule => e.matchesRule rule evt && rule.guard.all (guards · evt)

/-- The search finds the rule that is selected, and runs nothing but guards. -/
theorem search_eq (guards : G → EventEnvelope T D → Bool) (evt : EventEnvelope T D)
    (rules : List (RuntimeTransition T G A)) :
    (e.search guards evt rules).2 =
        rules.find? (fun rule => e.matchesRule rule evt && rule.guard.all (guards · evt)) ∧
      ∀ m ∈ (e.search guards evt rules).1, ∃ g, m = e.moment (.guard g evt) := by
  induction rules with
  | nil => exact ⟨rfl, by simp [search]⟩
  | cons rule rules ih =>
      rw [search, List.find?_cons]
      cases hmatch : e.matchesRule rule evt with
      | false => simpa using ih
      | true =>
          cases hguard : rule.guard with
          | none => simp
          | some g =>
              cases hg : guards g evt with
              | true => simpa [hg] using ⟨g, rfl⟩
              | false =>
                  obtain ⟨hfound, hevaluated⟩ := ih
                  simp only [hg, Bool.not_true, Bool.false_eq_true, if_false, Option.all_some,
                    Bool.and_false]
                  refine ⟨hfound, fun m hm => ?_⟩
                  cases List.mem_cons.mp hm with
                  | inl h => exact ⟨g, h⟩
                  | inr h => exact hevaluated m h

/-- The guards evaluated for an event. -/
def evaluatedGuards (guards : G → EventEnvelope T D → Bool) (evt : EventEnvelope T D) :
    List (Moment T D G A) :=
  (e.search guards evt e.rules).1

theorem mem_evaluatedGuards {guards : G → EventEnvelope T D → Bool} {evt : EventEnvelope T D}
    {m : Moment T D G A} (h : m ∈ e.evaluatedGuards guards evt) :
    ∃ g, m = e.moment (.guard g evt) :=
  (e.search_eq guards evt e.rules).2 m h

variable {e}

/-- The rule that is selected is executed, after some guards. -/
theorem handleEnvelope_of_some {guards : G → EventEnvelope T D → Bool} {evt : EventEnvelope T D}
    {rule : RuntimeTransition T G A} (h : e.selectRule guards evt = some rule) :
    e.handleEnvelope guards evt =
      (.handled, e.evaluatedGuards guards evt ++ (e.executeTransition rule evt).1,
        (e.executeTransition rule evt).2) := by
  have hfound : (e.search guards evt e.rules).2 = some rule :=
    (e.search_eq guards evt e.rules).1.trans h
  rw [handleEnvelope, ← Prod.mk.eta (p := e.search guards evt e.rules), hfound]
  rfl

theorem handleEnvelope_of_none {guards : G → EventEnvelope T D → Bool} {evt : EventEnvelope T D}
    (h : e.selectRule guards evt = none) :
    e.handleEnvelope guards evt =
      if e.config.deferUnhandledEvents then
        (.deferred, e.evaluatedGuards guards evt,
          { e with deferredEvents := e.deferredEvents ++ [evt] })
      else (.unhandled, e.evaluatedGuards guards evt, e) := by
  have hfound : (e.search guards evt e.rules).2 = none :=
    (e.search_eq guards evt e.rules).1.trans h
  rw [handleEnvelope, ← Prod.mk.eta (p := e.search guards evt e.rules), hfound]
  rfl

omit [DecidableEq T] in
/-- A rule leads to its target, and only an internal one leaves the engine as it is. -/
theorem executeTransition_snd (rule : RuntimeTransition T G A) (evt : EventEnvelope T D) :
    (e.executeTransition rule evt).2 = if rule.isInternal then e else e.activate rule.dstId := by
  unfold executeTransition
  split <;> rfl

omit [DecidableEq T] in
/-- Evaluating guards runs no callback. -/
theorem callbacks_guards {evt : EventEnvelope T D} {moments : List (Moment T D G A)}
    (h : ∀ m ∈ moments, ∃ g, m = e.moment (.guard g evt)) : moments.flatMap e.callbacks = [] := by
  rw [List.flatMap_eq_nil_iff]
  intro m hm
  obtain ⟨g, rfl⟩ := h m hm
  rfl

omit [DecidableEq T] in
/-- The callbacks of a rule: the action, between those of the state that is left and of the
one that is entered. -/
theorem callbacks_executeTransition (rule : RuntimeTransition T G A) (evt : EventEnvelope T D) :
    (e.executeTransition rule evt).1.flatMap e.callbacks =
      if rule.isInternal then rule.action.toList.map (.action · evt)
      else e.runExit e.currentState ++ rule.action.toList.map (.action · evt) ++
        e.runEntry rule.dstId := by
  unfold executeTransition
  split <;> simp [callbacks, moment]

omit [DecidableEq T] in
/-- The callbacks of a reset. -/
theorem callbacks_reset :
    e.reset.1.flatMap e.callbacks =
      (if e.currentState ≠ invalidState ∧ e.currentState ≠ e.initialState then
          e.runExit e.currentState else []) ++
        if (e.activate e.initialState).currentState ≠ invalidState then
          e.runEntry (e.activate e.initialState).currentState else [] := by
  unfold reset
  simp only [List.flatMap_append]
  congr 1 <;> split <;> simp [callbacks, moment]

/-- The callbacks run for an event that a rule is selected for. -/
theorem callbacks_handleEnvelope {guards : G → EventEnvelope T D → Bool}
    {evt : EventEnvelope T D} {rule : RuntimeTransition T G A}
    (h : e.selectRule guards evt = some rule) :
    (e.handleEnvelope guards evt).2.1.flatMap e.callbacks =
      (e.executeTransition rule evt).1.flatMap e.callbacks := by
  rw [handleEnvelope_of_some h, List.flatMap_append, callbacks_guards, List.nil_append]
  exact fun m hm => e.mem_evaluatedGuards hm

end StateMachineEngine
end Opencode.Hfsm
