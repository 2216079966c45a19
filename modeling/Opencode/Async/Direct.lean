import Opencode.Async.Simulation

/-!
# Events from outside the loop

`process_event` handles an event at once, on the thread that calls it, and `reset` puts the
machine into a state.  Both hold the mutex, like each section of the loop.  So the machine
takes one turn after the other and does what the simple machine does with one caller; and
the queues, the loops and the calls in progress are not touched by them.

An event that is handed over this way may overtake the one the loop has popped.  The posted
events among themselves keep their order.

## Main definitions

* `AsyncMachine.processEvent`, `AsyncMachine.reset` — the two sections.
* `Shared`, `Shared.step` — the asynchronous machine with these callers as well.
* `Account.turn` — what a turn is to the simple machine.
* `AsyncMachine.threads` — everything but the machine and what it came by.
* `linearizable` — the turns one after the other, and the threads as without the callers.
* `in_order` — the turns of the posted events.
-/

namespace Opencode.Async

open Opencode.Fsm Opencode.Lib

variable {S E A G B Tid : Type}

/-- A turn at the machine, with the answer to an event: one the loop has popped, one that is
handed over, or a reset. -/
inductive Turn (S E : Type)
  | dispatched (item : Item E) (taken : Bool)
  | called (event : E) (taken : Bool)
  | reset (initial : S)
  deriving DecidableEq

/-- The event the loop handles in a turn, and the answer. -/
def Turn.answer? : Turn S E → Option (Item E × Bool)
  | .dispatched item taken => some (item, taken)
  | _ => none

def Entry.answer? : Entry E → Option (Item E × Bool)
  | .dispatched item taken => some (item, taken)
  | _ => none

/-- Only the initial state is entered, and no observer is told. -/
def EventDrivenStateMachine.reset [DecidableEq S] (m : EventDrivenStateMachine S E A G B)
    (initial : S) : List (Visit S A) × EventDrivenStateMachine S E A G B :=
  ([.entry initial (m.entryActions.lookup initial)], { m with currentState := initial })

namespace AsyncMachine

variable [DecidableEq S] [DecidableEq E]

/-- The section of `process_event`. -/
def processEvent (guards : G → Bool) (s : AsyncMachine S E A G B Tid) (event : E) :
    Bool × AsyncMachine S E A G B Tid :=
  let (taken, visits, notices, machine) := s.machine.processInternalLocked guards event
  (taken, { s with
    machine := machine
    visits := s.visits ++ visits
    notices := s.notices ++ notices })

/-- The section of `reset`. -/
def reset (s : AsyncMachine S E A G B Tid) (initial : S) : AsyncMachine S E A G B Tid :=
  let (visits, machine) := s.machine.reset initial
  { s with machine := machine, visits := s.visits ++ visits }

/-- The turn that the loop takes in a step. -/
def turnOf (guards : G → Bool) (s : AsyncMachine S E A G B Tid) : Label E Tid → Option (Turn S E)
  | .loop i =>
      match s.loop i with
      | .popped item => some (.dispatched item (s.processEvent guards item.event).1)
      | _ => none
  | _ => none

end AsyncMachine

/-- The asynchronous machine, with a history of its turns and of the other steps. -/
structure Shared (S E A G B Tid : Type) where
  async : AsyncMachine S E A G B Tid
  /-- Ghost. -/
  turns : List (Turn S E) := []
  /-- Ghost: the steps other than the two calls. -/
  own : List (Label E Tid) := []

inductive SharedLabel (S E Tid : Type)
  | own (l : Label E Tid)
  | processEvent (t : Tid) (event : E)
  | reset (t : Tid) (initial : S)

/-- **The step relation.**  A thread calls from outside, as it does for the other methods. -/
def Shared.step [DecidableEq S] [DecidableEq E] [DecidableEq Tid] (guards : G → Bool)
    (s : Shared S E A G B Tid) : SharedLabel S E Tid → Option (Shared S E A G B Tid)
  | .own l =>
      (s.async.step guards l).map fun async =>
        { async
          turns := s.turns ++ (s.async.turnOf guards l).toList
          own := s.own ++ [l] }
  | .processEvent t event =>
      if s.async.terminated = false ∧ s.async.ctl t = .idle then
        let (taken, async) := s.async.processEvent guards event
        some { s with async, turns := s.turns ++ [.called event taken] }
      else none
  | .reset t initial =>
      if s.async.terminated = false ∧ s.async.ctl t = .idle then
        some { s with async := s.async.reset initial, turns := s.turns ++ [.reset initial] }
      else none

/-! ## One caller -/

section Account

variable [DecidableEq S] [DecidableEq E]

/-- `SimpleStateMachine.reset` is no change that is reported. -/
def Account.restart (acc : Account S E A G) (initial : S) : Account S E A G :=
  let (visits, machine) := acc.machine.reset initial
  { acc with machine, visits := acc.visits ++ visits }

/-- A turn, made by the simple machine. -/
def Account.turn (guards : G → Bool) (acc : Account S E A G) : Turn S E → Account S E A G
  | .dispatched item _ => acc.next guards item.event
  | .called event _ => acc.next guards event
  | .reset initial => acc.restart initial

/-- The answer of a turn is that of the simple machine. -/
def Account.Answers (guards : G → Bool) (acc : Account S E A G) : Turn S E → Prop
  | .dispatched item taken => taken = (acc.machine.processEvent guards item.event).1
  | .called event taken => taken = (acc.machine.processEvent guards event).1
  | .reset _ => True

/-- The account of a sequence of turns. -/
def Account.afterTurns (guards : G → Bool) (m : SimpleStateMachine S E A G)
    (turns : List (Turn S E)) : Account S E A G :=
  turns.foldl (Account.turn guards) { machine := m }

theorem Account.afterTurns_concat (guards : G → Bool) (m : SimpleStateMachine S E A G)
    (turns : List (Turn S E)) (turn : Turn S E) :
    Account.afterTurns guards m (turns ++ [turn]) =
      (Account.afterTurns guards m turns).turn guards turn := by
  simp [Account.afterTurns]

end Account

namespace AsyncMachine

/-- The machine is where the simple one is, has come by the same action slots, and has told
each observer of each change of state. -/
structure Follows (m : EventDrivenStateMachine S E A G B) (acc : Account S E A G)
    (s : AsyncMachine S E A G B Tid) : Prop where
  machine : s.machine.toSimple = acc.machine
  observers : s.machine.observers = m.observers
  visits : s.visits = acc.visits
  notices : s.notices = acc.changes.flatMap fun c => m.observers.map (⟨·, c.1, c.2.1, c.2.2⟩)

variable {m : EventDrivenStateMachine S E A G B} {acc : Account S E A G} {s s' : AsyncMachine S E A G B Tid}

theorem Follows.frame (h : Follows m acc s) (hmachine : s'.machine = s.machine)
    (hvisits : s'.visits = s.visits) (hnotices : s'.notices = s.notices) :
    Follows m acc s' := by
  constructor
  · rw [hmachine, h.machine]
  · rw [hmachine, h.observers]
  · rw [hvisits, h.visits]
  · rw [hnotices, h.notices]

variable [DecidableEq S] [DecidableEq E] {guards : G → Bool}

/-- An event is one for the simple machine, with the same answer. -/
theorem Follows.event (h : Follows m acc s) (guards : G → Bool) (event : E) :
    (s.processEvent guards event).1 = (acc.machine.processEvent guards event).1 ∧
      Follows m (acc.next guards event) (s.processEvent guards event).2 := by
  obtain ⟨hanswer, hvisits, hnotices, hmachine, hobs⟩ :=
    s.machine.processInternalLocked_simulates guards event
  have hstate : s.machine.currentState = acc.machine.currentState := by
    rw [← h.machine]
    rfl
  rw [h.machine] at hanswer hvisits hnotices hmachine
  refine ⟨hanswer, hmachine, hobs.trans h.observers, ?_, ?_⟩
  · simp only [processEvent, Account.next]
    rw [hvisits, h.visits]
  · simp only [processEvent, Account.next]
    rw [hnotices, h.notices]
    split
    · simp [EventDrivenStateMachine.notifyObserversLocked, h.observers, hstate]
    · simp

omit [DecidableEq E] in
theorem Follows.restart (h : Follows m acc s) (initial : S) :
    Follows m (acc.restart initial) (s.reset initial) := by
  have hentry : s.machine.entryActions = acc.machine.entryActions :=
    congrArg SimpleStateMachine.entryActions h.machine
  constructor
  · rw [Account.restart, ← h.machine]
    rfl
  · exact h.observers
  · rw [reset, Account.restart, h.visits]
    simp [EventDrivenStateMachine.reset, SimpleStateMachine.reset, hentry]
  · exact h.notices

/-- The second section of the loop is `process_event`, with the bookkeeping of the loop. -/
theorem handleEvent_eq (item : Item E) :
    s.handleEvent guards item =
      { (s.processEvent guards item.event).2 with
        processing := none
        log := s.log ++ [.dispatched item (s.processEvent guards item.event).1] } :=
  rfl

end AsyncMachine

/-! ## The threads -/

/-- The entry without the answer. -/
def Entry.unanswered : Entry E → Entry E
  | .posted item => .posted item
  | .deferred item => .deferred item
  | .requeued item => .requeued item
  | .dispatched item _ => .dispatched item false

@[simp] theorem Entry.unanswered_posted (item : Item E) :
    Entry.unanswered (.posted item) = .posted item := rfl

@[simp] theorem Entry.unanswered_deferred (item : Item E) :
    Entry.unanswered (.deferred item) = .deferred item := rfl

@[simp] theorem Entry.unanswered_requeued (item : Item E) :
    Entry.unanswered (.requeued item) = .requeued item := rfl

@[simp] theorem Entry.unanswered_dispatched (item : Item E) (taken : Bool) :
    Entry.unanswered (.dispatched item taken) = .dispatched item false := rfl

@[simp] theorem Entry.unanswered_comp_requeued :
    Entry.unanswered ∘ Entry.requeued = (Entry.requeued : Item E → Entry E) := rfl

@[simp] theorem Entry.unanswered_comp_unanswered :
    Entry.unanswered ∘ Entry.unanswered = (Entry.unanswered : Entry E → Entry E) := by
  funext e
  cases e <;> rfl

namespace AsyncMachine

/-- Everything but the machine, what it came by and its answers. -/
def threads (m : EventDrivenStateMachine S E A G B) (s : AsyncMachine S E A G B Tid) :
    AsyncMachine S E A G B Tid :=
  { s with machine := m, visits := [], notices := [], log := s.log.map Entry.unanswered }

@[simp] theorem posts_unanswered (log : List (Entry E)) :
    posts (log.map Entry.unanswered) = posts log := by
  rw [posts, List.filterMap_map]
  refine List.filterMap_congr fun e _ => ?_
  cases e <;> rfl

@[simp] theorem dispatches_unanswered (log : List (Entry E)) :
    dispatches (log.map Entry.unanswered) = dispatches log := by
  rw [dispatches, List.filterMap_map]
  refine List.filterMap_congr fun e _ => ?_
  cases e <;> rfl

variable [DecidableEq S] [DecidableEq E] [DecidableEq Tid] {guards : G → Bool}
  {m : EventDrivenStateMachine S E A G B} {s s' : AsyncMachine S E A G B Tid}

omit [DecidableEq Tid] in
/-- A section of the loop does not depend on the machine. -/
theorem processingLoop_threads (s : AsyncMachine S E A G B Tid) (i : ℕ) :
    ((s.threads m).processingLoop guards i).map (threads m) =
      (s.processingLoop guards i).map (threads m) := by
  cases hi : s.loop i with
  | exited | asleep => simp [processingLoop, threads, hi]
  | ready =>
      cases hq : s.queue with
      | nil =>
          cases hr : s.running <;>
            simp [processingLoop, hi, hq, hr, threads, setLoop]
      | cons item rest =>
          simp [processingLoop, hi, hq, threads, setLoop]
  | popped item =>
      simp [processingLoop, hi, threads, setLoop, handleEvent]

/-- A step of the threads does not depend on the machine. -/
theorem step_threads (s : AsyncMachine S E A G B Tid) (l : Label E Tid) :
    ((s.threads m).step guards l).map (threads m) = (s.step guards l).map (threads m) := by
  by_cases hterm : s.terminated = true
  · have hthreads : (s.threads m).terminated = true := hterm
    rw [step_of_terminated hterm, step_of_terminated hthreads]
  · cases l with
    | post t event =>
        by_cases hc : s.ctl t = .idle <;>
          simp [step, threads, hterm, hc, postEvent, goto]
    | notifyOne t woken =>
        by_cases hc : s.ctl t = .notifying
        · cases woken with
          | none =>
              simp [step, threads, hterm, hc, notifyOne, goto]
          | some i =>
              by_cases hl : s.loop i = .asleep <;>
                simp [step, threads, hterm, hc, notifyOne, goto, setLoop, hl]
        · simp [step, threads, hterm, hc]
    | defer t =>
        by_cases hc : s.ctl t = .idle
        · cases hp : s.processing <;>
            simp [step, threads, hterm, hc, deferCurrentEvent, hp]
        · simp [step, threads, hterm, hc]
    | processDeferred t =>
        by_cases hc : s.ctl t = .idle <;>
          simp [step, threads, hterm, hc, processDeferredEvents]
    | start t =>
        by_cases hc : s.ctl t = .idle
        · cases hr : s.running <;> simp [step, threads, hterm, hc, startAsync, hr]
        · simp [step, threads, hterm, hc]
    | stop t =>
        by_cases hc : s.ctl t = .idle
        · cases hr : s.running <;> simp [step, threads, hterm, hc, hr, goto]
        · simp [step, threads, hterm, hc]
    | notifyAll t =>
        by_cases hc : s.ctl t = .stopping <;>
          simp [step, threads, hterm, hc, notifyAll, goto]
    | join t =>
        by_cases hc : s.ctl t = .joining
        · cases hh : s.handle with
          | none => simp [step, threads, hterm, hc, joinLoop, hh, goto]
          | some i =>
              by_cases hl : s.loop i = .exited <;>
                simp [step, threads, hterm, hc, joinLoop, hh, hl, goto]
        · simp [step, threads, hterm, hc]
    | loop i =>
        simp only [step, show ¬ (s.threads m).terminated = true from hterm, hterm]
        exact processingLoop_threads s i
    | wake i =>
        by_cases hl : s.loop i = .asleep <;> simp [step, threads, hterm, setLoop, hl]

omit [DecidableEq S] [DecidableEq E] [DecidableEq Tid] in
theorem processing_of_threads (h : s.threads m = s'.threads m) : s.processing = s'.processing := by
  injection h

omit [DecidableEq S] [DecidableEq E] [DecidableEq Tid] in
theorem queue_of_threads (h : s.threads m = s'.threads m) : s.queue = s'.queue := by
  injection h

omit [DecidableEq S] [DecidableEq E] [DecidableEq Tid] in
theorem log_of_threads (h : s.threads m = s'.threads m) :
    posts s.log = posts s'.log ∧ dispatches s.log = dispatches s'.log := by
  have hlog : s.log.map Entry.unanswered = s'.log.map Entry.unanswered := by injection h
  constructor
  · rw [← posts_unanswered, hlog, posts_unanswered]
  · rw [← dispatches_unanswered, hlog, dispatches_unanswered]

/-- Two machines with the same threads take the same steps. -/
theorem exists_step_of_threads {s₀ : AsyncMachine S E A G B Tid} {l : Label E Tid}
    (h : s₀.threads m = s.threads m) (hs : s.step guards l = some s') :
    ∃ s₀', s₀.step guards l = some s₀' ∧ s₀'.threads m = s'.threads m := by
  have hstep : (s₀.step guards l).map (threads m) = some (s'.threads m) := by
    rw [← step_threads, h, step_threads, hs, Option.map_some]
  exact Option.map_eq_some_iff.mp hstep

/-- A step handles an event, which is a turn of the loop, or leaves the machine alone. -/
theorem turnOf_of_steps {l : Label E Tid} (hs : Steps guards s l s') :
    (∃ item, s.turnOf guards l = some (.dispatched item (s.processEvent guards item.event).1) ∧
        ∃ i, s' = (s.handleEvent guards item).setLoop i .ready) ∨
      s.turnOf guards l = none ∧ s'.machine = s.machine ∧ s'.visits = s.visits ∧
        s'.notices = s.notices ∧
          s'.log.filterMap Entry.answer? = s.log.filterMap Entry.answer? := by
  cases hs with
  | @handled i item hl => exact .inl ⟨item, by simp [turnOf, hl], i, rfl⟩
  | post event hc => exact .inr ⟨rfl, rfl, rfl, rfl, by simp [goto, postEvent, Entry.answer?]⟩
  | deferred hp => exact .inr ⟨rfl, rfl, rfl, rfl, by simp [Entry.answer?]⟩
  | requeued =>
      refine .inr ⟨rfl, rfl, rfl, rfl, ?_⟩
      simp [processDeferredEvents, Entry.answer?, Function.comp_def]
  | slept hl | left hl | popped hl => exact .inr ⟨by simp [turnOf, hl], rfl, rfl, rfl, rfl⟩
  | _ => exact .inr ⟨rfl, rfl, rfl, rfl, rfl⟩

end AsyncMachine

/-! ## The main results -/

namespace Shared

variable [DecidableEq S] [DecidableEq E] {guards : G → Bool}
  {m : EventDrivenStateMachine S E A G B} {s s' : Shared S E A G B Tid}

/-- The turns are one after the other what they are to the simple machine, with its answers,
and those of the loop are the events it has handled. -/
structure Serial (guards : G → Bool) (m : EventDrivenStateMachine S E A G B)
    (s : Shared S E A G B Tid) : Prop where
  follows : s.async.Follows m (Account.afterTurns guards m.toSimple s.turns)
  answers : Justified
    (fun before turn => (Account.afterTurns guards m.toSimple before).Answers guards turn) s.turns
  handled : s.turns.filterMap Turn.answer? = s.async.log.filterMap Entry.answer?

theorem serial_start (m : EventDrivenStateMachine S E A G B) :
    Serial guards m ({ async := { machine := m } } : Shared S E A G B Tid) :=
  ⟨⟨rfl, rfl, rfl, rfl⟩, justified_nil _, rfl⟩

/-- One more turn. -/
theorem Serial.concat (h : Serial guards m s) (turn : Turn S E)
    (hturns : s'.turns = s.turns ++ [turn])
    (hfollows : s'.async.Follows m
      ((Account.afterTurns guards m.toSimple s.turns).turn guards turn))
    (hanswer : (Account.afterTurns guards m.toSimple s.turns).Answers guards turn)
    (hlog : s'.async.log.filterMap Entry.answer? =
      s.async.log.filterMap Entry.answer? ++ turn.answer?.toList) : Serial guards m s' := by
  constructor
  · rw [hturns, Account.afterTurns_concat]
    exact hfollows
  · rw [hturns]
    exact justified_concat.mpr ⟨h.answers, hanswer⟩
  · rw [hturns, hlog, List.filterMap_append, h.handled]
    cases turn <;> rfl

omit [DecidableEq S] [DecidableEq E] in
theorem fst_answers (log : List (Entry E)) :
    (log.filterMap Entry.answer?).map Prod.fst = dispatches log := by
  rw [dispatches, List.map_filterMap]
  refine List.filterMap_congr fun e _ => ?_
  cases e <;> rfl

variable [DecidableEq Tid]

theorem Serial.step (h : Serial guards m s) {l : SharedLabel S E Tid}
    (hs : s.step guards l = some s') : Serial guards m s' := by
  cases l with
  | own l =>
      obtain ⟨a, ha, rfl⟩ := Option.map_eq_some_iff.mp hs
      rcases AsyncMachine.turnOf_of_steps (AsyncMachine.step_steps ha) with
        ⟨item, hturn, i, rfl⟩ | ⟨hturn, hmachine, hvisits, hnotices, hlog⟩
      · obtain ⟨hanswer, hfollows⟩ := h.follows.event guards item.event
        refine h.concat (.dispatched item _) (by rw [hturn]; rfl) (hfollows.frame rfl rfl rfl)
          hanswer ?_
        simp [AsyncMachine.setLoop, AsyncMachine.handleEvent_eq, Entry.answer?, Turn.answer?]
      · refine ⟨?_, ?_, ?_⟩
        · simp only [hturn, Option.toList_none, List.append_nil]
          exact h.follows.frame hmachine hvisits hnotices
        · simpa [hturn] using h.answers
        · simpa [hturn, hlog] using h.handled
  | processEvent t event =>
      obtain ⟨-, hs⟩ := Option.ite_none_right_eq_some.mp hs
      cases hs
      obtain ⟨hanswer, hfollows⟩ := h.follows.event guards event
      exact h.concat (.called event _) rfl hfollows hanswer (by simp [Turn.answer?])
  | reset t initial =>
      obtain ⟨-, hs⟩ := Option.ite_none_right_eq_some.mp hs
      cases hs
      exact h.concat (.reset initial) rfl (h.follows.restart initial) trivial
        (by simp [AsyncMachine.reset, Turn.answer?])

/-- The threads are where their own steps lead without the callers. -/
def Undisturbed (guards : G → Bool) (m : EventDrivenStateMachine S E A G B)
    (s : Shared S E A G B Tid) : Prop :=
  ∃ alone, run (AsyncMachine.step guards) { machine := m } s.own = some alone ∧
    alone.threads m = s.async.threads m

theorem Undisturbed.step (h : Undisturbed guards m s) {l : SharedLabel S E Tid}
    (hs : s.step guards l = some s') : Undisturbed guards m s' := by
  obtain ⟨alone, hrun, hthreads⟩ := h
  cases l with
  | own l =>
      obtain ⟨a, ha, rfl⟩ := Option.map_eq_some_iff.mp hs
      obtain ⟨alone', halone, hthreads'⟩ := AsyncMachine.exists_step_of_threads hthreads ha
      exact ⟨alone', by simp [run_append, hrun, halone], hthreads'⟩
  | processEvent t event =>
      obtain ⟨-, hs⟩ := Option.ite_none_right_eq_some.mp hs
      cases hs
      exact ⟨alone, hrun, hthreads⟩
  | reset t initial =>
      obtain ⟨-, hs⟩ := Option.ite_none_right_eq_some.mp hs
      cases hs
      exact ⟨alone, hrun, hthreads⟩

/-- **The machine with callers from outside.**  In every run, the machine, its callbacks and
its answers, those to the callers included, are what the simple machine does with the turns
one after the other, the turns of the loop being the events it has handled; and the queues,
the loops and the calls in progress are those of the run without the callers. -/
theorem linearizable (m : EventDrivenStateMachine S E A G B) (guards : G → Bool)
    (ls : List (SharedLabel S E Tid)) :
    Throughout (step guards)
      (fun s => Serial guards m s ∧ Undisturbed guards m s) { async := { machine := m } } ls :=
  throughout_of_step (fun _ _ _ h hs => ⟨h.1.step hs, h.2.step hs⟩)
    ⟨serial_start m, { machine := m }, rfl, rfl⟩ ls

/-- The step puts an event aside. -/
def Defers (s : Shared S E A G B Tid) : SharedLabel S E Tid → Prop
  | .own l => s.async.Defers l
  | _ => False

instance (s : Shared S E A G B Tid) : ∀ l : SharedLabel S E Tid, Decidable (s.Defers l)
  | .own l => inferInstanceAs (Decidable (s.async.Defers l))
  | .processEvent _ _ | .reset _ _ => .isFalse id

omit [DecidableEq S] [DecidableEq E] [DecidableEq Tid] in
/-- Machines with the same threads put the same events aside. -/
theorem defers_of_threads {a b : AsyncMachine S E A G B Tid} (h : a.threads m = b.threads m)
    {l : Label E Tid} (hfree : ¬ b.Defers l) : ¬ a.Defers l := by
  cases l with
  | defer t => simpa [AsyncMachine.Defers, AsyncMachine.processing_of_threads h] using hfree
  | _ => exact hfree

/-- The run without the callers, in order. -/
def Orderly (guards : G → Bool) (m : EventDrivenStateMachine S E A G B)
    (s : Shared S E A G B Tid) : Prop :=
  ∃ alone : AsyncMachine S E A G B Tid, alone.Ordered guards m ∧
    alone.threads m = s.async.threads m

theorem Orderly.step (h : Orderly guards m s) {l : SharedLabel S E Tid} (hfree : ¬ s.Defers l)
    (hs : s.step guards l = some s') : Orderly guards m s' := by
  obtain ⟨alone, hordered, hthreads⟩ := h
  cases l with
  | own l =>
      obtain ⟨a, ha, rfl⟩ := Option.map_eq_some_iff.mp hs
      obtain ⟨alone', halone, hthreads'⟩ := AsyncMachine.exists_step_of_threads hthreads ha
      exact ⟨alone', hordered.step (defers_of_threads hthreads hfree) halone, hthreads'⟩
  | processEvent t event =>
      obtain ⟨-, hs⟩ := Option.ite_none_right_eq_some.mp hs
      cases hs
      exact ⟨alone, hordered, hthreads⟩
  | reset t initial =>
      obtain ⟨-, hs⟩ := Option.ite_none_right_eq_some.mp hs
      cases hs
      exact ⟨alone, hordered, hthreads⟩

/-- **The posted events take their turns in order**, in a run in which no
`defer_current_event` takes effect: those the loop has handled, the one it has popped and
the queue are the posted events, whatever is handed over or reset between. -/
theorem in_order (m : EventDrivenStateMachine S E A G B) (guards : G → Bool)
    (ls : List (SharedLabel S E Tid))
    (hfree : Along (step guards) (fun s l => ¬ s.Defers l)
      ({ async := { machine := m } } : Shared S E A G B Tid) ls) :
    Throughout (step guards)
      (fun s => (s.turns.filterMap Turn.answer?).map Prod.fst ++ s.async.processing.toList ++
        s.async.queue = posts s.async.log) { async := { machine := m } } ls := by
  have hinv : Throughout (step guards) (fun s : Shared S E A G B Tid =>
      Serial guards m s ∧ Orderly guards m s) { async := { machine := m } } ls := by
    refine run_invariant_along (fun s l s' h hnot hs => ?_)
      ⟨serial_start m, { machine := m }, .init m, rfl⟩ hfree
    exact ⟨h.1.step hs, h.2.step hnot hs⟩
  refine hinv.imp fun s ⟨hserial, alone, hordered, hthreads⟩ => ?_
  obtain ⟨hposts, hdispatches⟩ := AsyncMachine.log_of_threads hthreads
  rw [hserial.handled, fst_answers, ← hposts, ← hdispatches,
    ← AsyncMachine.processing_of_threads hthreads, ← AsyncMachine.queue_of_threads hthreads]
  exact hordered.delivered.order

/-- A switch that is turned on by the loop, off by a caller, reset, and turned on by another
event while the loop has popped one. -/
theorem in_order_switch :
    Throughout (step fun _ => true)
      (fun s : Shared _ _ _ _ _ Bool =>
        (s.turns.filterMap Turn.answer?).map Prod.fst ++ s.async.processing.toList ++
          s.async.queue = posts s.async.log)
      { async := { machine := AsyncMachine.switch } }
      [.own (.start true), .own (.post false ()), .own (.loop 0), .own (.loop 0),
        .processEvent true (), .own (.post true ()), .own (.notifyOne true none),
        .reset true false, .own (.loop 0), .processEvent true (), .own (.loop 0)] :=
  in_order AsyncMachine.switch _ _ (by decide +kernel)

end Shared
end Opencode.Async
