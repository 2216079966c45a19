import Opencode.Lib.Run
import Opencode.Hfsm.Engine

/-!
# The engine driven by calls

The engine is driven by calls in any order.  `process_deferred` is more than one step
here: it moves the queue out, and each turn of its loop is a step of its own, so that
the state after every replayed event is seen.  While its loop has events left, no other
call is made.

Which rules were executed, for which events and where the engine was afterwards is
recorded beside the engine, and whether it has been given a valid initial state.  The
record is read off what the engine ran: a rule is executed when its action is run, or the
place is passed where it would be.

## Main definitions

* `Moment.execution?` — the rule that something run belongs to, and the event.
* `Driven`, `Driven.step` — the engine, its loop and what it did.
* `Driven.fires` — the rule that is selected for the event of a call.
* `run_processDeferred` — the steps of `process_deferred` are the call.
-/

namespace Opencode.Hfsm

open Opencode.Lib

universe u
variable {T D G A : Type u}

/-- A rule was executed for an event; where the engine was afterwards. -/
structure Execution (T D G A : Type u) where
  evt : EventEnvelope T D
  rule : RuntimeTransition T G A
  landed : StateId
  deriving DecidableEq

/-- What is run is the action of a rule for an event. -/
def Moment.execution? (m : Moment T D G A) : Option (EventEnvelope T D × RuntimeTransition T G A) :=
  match m.slot with
  | .action rule evt => some (evt, rule)
  | _ => none

/-- The engine, the events the loop of `process_deferred` has left, the number of
`handle` calls so far, the rules executed, and whether `set_initial` has been called with
a valid id. -/
structure Driven (T D G A : Type u) where
  engine : StateMachineEngine T D G A
  replaying : List (EventEnvelope T D) := []
  handled : ℕ := 0
  executed : List (Execution T D G A) := []
  initialised : Bool := false

/-- The calls; `replay` is one turn of the loop of `process_deferred`. -/
inductive Call (T D G A : Type u)
  | registerState (id : StateId)
  | setInitial (id : StateId)
  | addRule (rule : RuntimeTransition T G A)
  | onEntry (id : StateId) (cb : A)
  | onExit (id : StateId) (cb : A)
  | handle (typeInfo : T) (data : D) (guards : G → EventEnvelope T D → Bool)
  | processDeferred
  | replay (guards : G → EventEnvelope T D → Bool)
  | reset

def Call.isReset : Call T D G A → Bool
  | .reset => true
  | _ => false

namespace Driven

variable [DecidableEq T]

/-- An event is handed to the engine. -/
def feed (s : Driven T D G A) (guards : G → EventEnvelope T D → Bool)
    (evt : EventEnvelope T D) : Driven T D G A :=
  let (_, moments, engine) := s.engine.handleEnvelope guards evt
  let executions := moments.filterMap Moment.execution?
  { s with
    engine := engine
    executed := s.executed ++ executions.map fun (evt, rule) => ⟨evt, rule, engine.currentState⟩ }

/-- A call made while no loop is under way. -/
def call (s : Driven T D G A) : Call T D G A → Option (Driven T D G A)
  | .registerState id => some { s with engine := s.engine.registerState id }
  | .setInitial id =>
      some { s with
        engine := s.engine.setInitial id
        initialised := s.initialised || id ≠ invalidState }
  | .addRule rule => some { s with engine := s.engine.addRule rule }
  | .onEntry id cb => some { s with engine := s.engine.onEntry id cb }
  | .onExit id cb => some { s with engine := s.engine.onExit id cb }
  | .handle typeInfo data guards =>
      some { s.feed guards ⟨typeInfo, data, s.handled⟩ with handled := s.handled + 1 }
  | .processDeferred =>
      some { s with
        engine := { s.engine with deferredEvents := [] }
        replaying := s.engine.deferredEvents }
  | .replay _ => none
  | .reset => some { s with engine := s.engine.reset.2 }

def step (s : Driven T D G A) (c : Call T D G A) : Option (Driven T D G A) :=
  match s.replaying, c with
  | [], c => s.call c
  | evt :: events, .replay guards => some { s.feed guards evt with replaying := events }
  | _ :: _, _ => none

/-- The event a call hands to the engine. -/
def fed (s : Driven T D G A) : Call T D G A → Option ((G → EventEnvelope T D → Bool) × EventEnvelope T D)
  | .handle typeInfo data guards =>
      if s.replaying = [] then some (guards, ⟨typeInfo, data, s.handled⟩) else none
  | .replay guards => s.replaying.head?.map (guards, ·)
  | _ => none

/-- The rule that is selected for the event of a call. -/
def fires (s : Driven T D G A) (c : Call T D G A) : Option (RuntimeTransition T G A) :=
  (s.fed c).bind fun (guards, evt) => s.engine.selectRule guards evt

/-! ## What a step does -/

variable {s t : Driven T D G A} {c : Call T D G A}

/-- The guards evaluated for an event execute no rule. -/
theorem executions_evaluatedGuards (e : StateMachineEngine T D G A)
    (guards : G → EventEnvelope T D → Bool) (evt : EventEnvelope T D) :
    (e.evaluatedGuards guards evt).filterMap Moment.execution? = [] := by
  rw [List.filterMap_eq_nil_iff]
  intro m hm
  obtain ⟨g, rfl⟩ := e.mem_evaluatedGuards hm
  rfl

omit [DecidableEq T] in
/-- `execute_transition` executes its rule, once. -/
theorem executions_executeTransition (e : StateMachineEngine T D G A)
    (rule : RuntimeTransition T G A) (evt : EventEnvelope T D) :
    (e.executeTransition rule evt).1.filterMap Moment.execution? = [(evt, rule)] := by
  unfold StateMachineEngine.executeTransition
  split <;> rfl

theorem feed_of_some {guards : G → EventEnvelope T D → Bool} {evt : EventEnvelope T D}
    {rule : RuntimeTransition T G A} (h : s.engine.selectRule guards evt = some rule) :
    s.feed guards evt =
      let engine := if rule.isInternal then s.engine else s.engine.activate rule.dstId
      { s with
        engine := engine
        executed := s.executed ++ [⟨evt, rule, engine.currentState⟩] } := by
  simp only [feed, StateMachineEngine.handleEnvelope_of_some h, List.filterMap_append,
    executions_evaluatedGuards, executions_executeTransition, List.nil_append, List.map_singleton,
    StateMachineEngine.executeTransition_snd]

theorem feed_of_none {guards : G → EventEnvelope T D → Bool} {evt : EventEnvelope T D}
    (h : s.engine.selectRule guards evt = none) :
    s.feed guards evt =
      { s with
        engine :=
          if s.engine.config.deferUnhandledEvents then
            { s.engine with deferredEvents := s.engine.deferredEvents ++ [evt] }
          else s.engine } := by
  cases hdefers : s.engine.config.deferUnhandledEvents <;>
    simp [feed, StateMachineEngine.handleEnvelope_of_none h, hdefers, executions_evaluatedGuards]

theorem step_of_idle (h : s.replaying = []) : s.step c = s.call c := by
  simp [step, h]

/-- While the loop has events left, the only step is its next turn. -/
theorem step_of_replaying {evt : EventEnvelope T D} {events : List (EventEnvelope T D)}
    (h : s.replaying = evt :: events) (hstep : s.step c = some t) :
    ∃ guards, c = .replay guards ∧ t = { s.feed guards evt with replaying := events } := by
  cases c with
  | replay guards => exact ⟨guards, rfl, by simpa [step, h] using hstep.symm⟩
  | _ => simp [step, h] at hstep

omit [DecidableEq T] in
theorem fed_handle (h : s.replaying = []) (typeInfo : T) (data : D)
    (guards : G → EventEnvelope T D → Bool) :
    s.fed (.handle typeInfo data guards) = some (guards, ⟨typeInfo, data, s.handled⟩) := by
  simp [fed, h]

omit [DecidableEq T] in
theorem fed_replay {evt : EventEnvelope T D} {events : List (EventEnvelope T D)}
    (h : s.replaying = evt :: events) (guards : G → EventEnvelope T D → Bool) :
    s.fed (.replay guards) = some (guards, evt) := by
  simp [fed, h]

theorem fires_of_fed {guards : G → EventEnvelope T D → Bool} {evt : EventEnvelope T D}
    (h : s.fed c = some (guards, evt)) : s.fires c = s.engine.selectRule guards evt := by
  rw [fires, h, Option.bind_some]

/-- The first turn of the loop hands over its first event. -/
theorem run_replicate_replay {evt : EventEnvelope T D} {events : List (EventEnvelope T D)}
    (h : s.replaying = evt :: events) (guards : G → EventEnvelope T D → Bool) :
    run step s (List.replicate (evt :: events).length (.replay guards)) =
      run step { s.feed guards evt with replaying := events }
        (List.replicate events.length (.replay guards)) := by
  rw [List.length_cons, List.replicate_succ, run_cons]
  simp [step, h]

/-- The turns of the loop are the loop. -/
theorem run_replay (guards : G → EventEnvelope T D → Bool) (result : EventResult)
    (events : List (EventEnvelope T D)) (h : s.replaying = events) :
    ∃ t, run step s (List.replicate events.length (.replay guards)) = some t ∧
      t.engine = (StateMachineEngine.replay guards events result s.engine).2.2 ∧
      t.replaying = [] := by
  induction events generalizing s result with
  | nil => exact ⟨s, rfl, rfl, h⟩
  | cons evt events ih =>
      obtain ⟨t, ht, hengine, hdone⟩ :=
        ih (s := { s.feed guards evt with replaying := events })
          (if (s.engine.handleEnvelope guards evt).1 = .unhandled then .unhandled else result) rfl
      exact ⟨t, (run_replicate_replay h guards).trans ht, hengine, hdone⟩

/-- **The steps of `process_deferred` are the call**: from its start to the last turn of
its loop they take the engine where the call takes it. -/
theorem run_processDeferred (h : s.replaying = []) (guards : G → EventEnvelope T D → Bool) :
    ∃ t, run step s (.processDeferred ::
        List.replicate s.engine.deferredEvents.length (.replay guards)) = some t ∧
      t.engine = (s.engine.processDeferred guards).2.2 ∧ t.replaying = [] := by
  rw [run_cons, step_of_idle h]
  exact run_replay guards .handled s.engine.deferredEvents rfl

end Driven
end Opencode.Hfsm
