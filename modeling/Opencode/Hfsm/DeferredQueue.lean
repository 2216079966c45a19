import Opencode.Hfsm.Engine

/-!
# The deferred event queue

`DeferredEventQueue` keeps events for later.  `process_all` moves the queue out and hands
its events to a handler one after the other; `process_one` takes the first event only.  The
handler may use the queue itself.

A pass sees the events that were queued before it, each once and in order, whatever the
handler does.  For a handler that only puts events at the end of the queue it makes no
difference whether they are moved out or taken one by one from the front.  The engine's own
queue is of this kind: `process_deferred` is a pass over it.

## Main definitions

* `processAll`, `processOne` — the two ways to process the queue.
* `Appends` — a handler that only puts events at the end.
* `processAll_recorded` — what a pass handles.
* `processDeferred_one_by_one` — the engine's replay.
-/

namespace Opencode.Hfsm

universe u

namespace DeferredEventQueue

variable {σ V : Type u}

/-- A handler of events that works on a state and on the queue. -/
abbrev ProcessFn (σ V : Type u) := V → σ × List V → EventResult × σ × List V

def defer (queue : List V) (evt : V) : List V := queue ++ [evt]

def deferFront (queue : List V) (evt : V) : List V := evt :: queue

/-- The loop of `process_all` over the events that were moved out. -/
def loop (handler : ProcessFn σ V) : List V → Bool → σ × List V → Bool × σ × List V
  | [], allHandled, s => (allHandled, s)
  | evt :: q, allHandled, s =>
      let (result, s') := handler evt s
      loop handler q (if result = .unhandled then false else allHandled) s'

/-- The queue is empty when the loop starts. -/
def processAll (handler : ProcessFn σ V) (s : σ × List V) : Bool × σ × List V :=
  loop handler s.2 true (s.1, [])

def processOne (handler : ProcessFn σ V) (s : σ × List V) : EventResult × σ × List V :=
  match s.2 with
  | [] => (.handled, s)
  | evt :: queue => handler evt (s.1, queue)

/-- `process_one`, `n` times, with the results. -/
def processMany (handler : ProcessFn σ V) : ℕ → σ × List V → List EventResult × σ × List V
  | 0, s => ([], s)
  | n + 1, s =>
      let (result, s') := processOne handler s
      let (results, s'') := processMany handler n s'
      (result :: results, s'')

/-! ## What a pass handles -/

/-- The handler, with a record of the events it was called with. -/
def recorded (handler : ProcessFn σ V) : ProcessFn (σ × List V) V := fun evt s =>
  let (result, t, queue) := handler evt (s.1.1, s.2)
  (result, (t, s.1.2 ++ [evt]), queue)

theorem loop_recorded (handler : ProcessFn σ V) (q : List V) (allHandled : Bool) (s : σ)
    (seen queue : List V) :
    loop (recorded handler) q allHandled ((s, seen), queue) =
      ((loop handler q allHandled (s, queue)).1,
        ((loop handler q allHandled (s, queue)).2.1, seen ++ q),
        (loop handler q allHandled (s, queue)).2.2) := by
  induction q generalizing allHandled s seen queue with
  | nil => simp [loop]
  | cons evt q ih =>
      simp only [loop, recorded, ih, List.append_assoc, List.singleton_append]
      rfl

/-- **A pass handles the events queued before it**, in order and each once. -/
theorem processAll_recorded (handler : ProcessFn σ V) (s : σ) (seen queue : List V) :
    (processAll (recorded handler) ((s, seen), queue)).2.1.2 = seen ++ queue := by
  simp [processAll, loop_recorded]

/-! ## One by one -/

/-- The handler does not look at the queue and only puts events at its end. -/
def Appends (handler : ProcessFn σ V) : Prop :=
  ∀ evt s queue, handler evt (s, queue) =
    ((handler evt (s, [])).1, (handler evt (s, [])).2.1, queue ++ (handler evt (s, [])).2.2)

/-- Events that wait behind those of the pass make no difference to it. -/
theorem loop_eq_processMany {handler : ProcessFn σ V} (h : Appends handler) (q : List V)
    (allHandled : Bool) (s : σ) (queue : List V) :
    loop handler q allHandled (s, queue) =
      (allHandled && !(processMany handler q.length (s, q ++ queue)).1.contains .unhandled,
        (processMany handler q.length (s, q ++ queue)).2) := by
  induction q generalizing allHandled s queue with
  | nil => simp [loop, processMany]
  | cons evt q ih =>
      have hbehind : handler evt (s, q ++ queue) =
          ((handler evt (s, queue)).1, (handler evt (s, queue)).2.1,
            q ++ (handler evt (s, queue)).2.2) := by
        rw [h evt s (q ++ queue), h evt s queue, List.append_assoc]
      simp only [loop, List.cons_append, List.length_cons, processMany, processOne, hbehind]
      rw [ih]
      cases (handler evt (s, queue)).1 <;> simp

/-- **A pass is as many single steps as there were events**, if the handler only puts events
at the end. -/
theorem processAll_eq_processMany {handler : ProcessFn σ V} (h : Appends handler) (s : σ)
    (queue : List V) :
    processAll handler (s, queue) =
      (!(processMany handler queue.length (s, queue)).1.contains .unhandled,
        (processMany handler queue.length (s, queue)).2) := by
  simp [processAll, loop_eq_processMany h]

end DeferredEventQueue

/-! ## The engine's queue -/

namespace StateMachineEngine

open DeferredEventQueue

variable {T D G A : Type u} [DecidableEq T] {guards : G → EventEnvelope T D → Bool}

/-- `handle_envelope` as a handler: the state is what was run so far and the engine, the
queue that of the engine. -/
def handler (guards : G → EventEnvelope T D → Bool) :
    ProcessFn (List (Moment T D G A) × StateMachineEngine T D G A) (EventEnvelope T D) :=
  fun evt s =>
    let (result, run, e) := { s.1.2 with deferredEvents := s.2 }.handleEnvelope guards evt
    (result, (s.1.1 ++ run, { e with deferredEvents := [] }), e.deferredEvents)

/-- The search does not look at the queue. -/
theorem search_deferredEvents (e : StateMachineEngine T D G A) (queue : List (EventEnvelope T D))
    (evt : EventEnvelope T D) (rules : List (RuntimeTransition T G A)) :
    search { e with deferredEvents := queue } guards evt rules = e.search guards evt rules := by
  induction rules with
  | nil => rfl
  | cons rule rules ih =>
      rw [search, search, ih]
      rfl

/-- The engine with another queue runs the same, and puts an event at most at the end of
it. -/
theorem handler_appends (guards : G → EventEnvelope T D → Bool) :
    Appends (handler guards : ProcessFn (List (Moment T D G A) × _) _) := by
  intro evt s queue
  obtain ⟨run, e⟩ := s
  simp only [handler, handleEnvelope, search_deferredEvents]
  obtain ⟨evaluated, found⟩ := e.search guards evt e.rules
  cases found with
  | some rule =>
      simp only [executeTransition]
      cases rule.isInternal <;> simp [activate, stateAt, currentState, moment]
  | none => cases e.config.deferUnhandledEvents <;> simp

/-- The handler on the engine's own queue. -/
theorem handler_self (guards : G → EventEnvelope T D → Bool) (evt : EventEnvelope T D)
    (ran : List (Moment T D G A)) (e : StateMachineEngine T D G A) :
    handler guards evt ((ran, { e with deferredEvents := [] }), e.deferredEvents) =
      ((e.handleEnvelope guards evt).1,
        (ran ++ (e.handleEnvelope guards evt).2.1,
          { (e.handleEnvelope guards evt).2.2 with deferredEvents := [] }),
        (e.handleEnvelope guards evt).2.2.deferredEvents) := rfl

/-- What the loop of the engine answers. -/
def resultOf (allHandled : Bool) : EventResult := if allHandled then .handled else .unhandled

/-- The loop of the engine is a pass over a queue. -/
theorem replay_eq (guards : G → EventEnvelope T D → Bool) (q : List (EventEnvelope T D))
    (allHandled : Bool) (e : StateMachineEngine T D G A) (ran : List (Moment T D G A)) :
    let pass := loop (handler guards) q allHandled
      ((ran, { e with deferredEvents := [] }), e.deferredEvents)
    let (result, run, e') := replay guards q (resultOf allHandled) e
    result = resultOf pass.1 ∧ ran ++ run = pass.2.1.1 ∧
      e' = { pass.2.1.2 with deferredEvents := pass.2.2 } := by
  induction q generalizing allHandled e ran with
  | nil => simp [loop, replay]
  | cons evt q ih =>
      have hresult : (if (e.handleEnvelope guards evt).1 = .unhandled then .unhandled
          else resultOf allHandled) =
          resultOf (if (e.handleEnvelope guards evt).1 = .unhandled then false
            else allHandled) := by
        cases (e.handleEnvelope guards evt).1 <;> simp [resultOf]
      obtain ⟨hresult', hran, he⟩ := ih
        (if (e.handleEnvelope guards evt).1 = .unhandled then false else allHandled)
        (e.handleEnvelope guards evt).2.2 (ran ++ (e.handleEnvelope guards evt).2.1)
      rw [List.append_assoc] at hran
      simp only [replay, loop, handler_self, hresult]
      exact ⟨hresult', hran, he⟩

/-- **Replaying is taking the deferred events one by one**: `process_deferred` runs the
guards and callbacks, leaves the engine and gives the result of as many single steps as
there were events, each of which takes the first event of the queue and handles it, though
meanwhile it moves the queue out and new events are put into an empty one. -/
theorem processDeferred_one_by_one (guards : G → EventEnvelope T D → Bool)
    (e : StateMachineEngine T D G A) :
    let (results, (run, e'), queue) :=
      processMany (handler guards) e.deferredEvents.length
        (([], { e with deferredEvents := [] }), e.deferredEvents)
    e.processDeferred guards =
      (if .unhandled ∈ results then .unhandled else .handled, run,
        { e' with deferredEvents := queue }) := by
  obtain ⟨hresult, hran, he⟩ := replay_eq guards e.deferredEvents true
    { e with deferredEvents := [] } []
  have hpass := loop_eq_processMany (handler_appends guards) e.deferredEvents true
    ([], { e with deferredEvents := [] }) []
  simp only [List.append_nil, List.nil_append, Bool.true_and] at hpass hran
  rw [hpass] at hresult hran he
  have hanswer : ∀ results : List EventResult,
      resultOf (!results.contains .unhandled) =
        if .unhandled ∈ results then .unhandled else .handled := by
    intro results
    by_cases h : EventResult.unhandled ∈ results <;> simp [resultOf, h]
  exact Prod.ext (hresult.trans (hanswer _)) (Prod.ext hran he)

end StateMachineEngine
end Opencode.Hfsm
