import Opencode.Async.Machine
import Opencode.Lib.Run
import Opencode.Lib.History

/-!
# The processing loop and its callers

The asynchronous side of `EventDrivenStateMachine` as a step relation.  Every method holds
the mutex for one section, so a section is one step; `post_event` and `stop_async` go on
after theirs, and each further part is a step of the calling thread.  The processing loop
has two sections: it waits for work and pops an event, gives the mutex back, and takes it
again to handle the event.

A loop that finds nothing to do falls asleep in `cv_.wait`; a notification or a spurious
wake-up brings it back to the test.  Loops are numbered in the order of their creation, and
`processing_thread_` is the number of the loop a joinable handle stands for.  Assigning to a
joinable handle ends the program: no step leads on from there.

An event in a queue carries the number of the `post_event` that put it there.  The log, like
these numbers, is a ghost.

## Main definitions

* `AsyncMachine` — the members of the class, the program counters and the log.
* `postEvent`, `deferCurrentEvent`, `processDeferredEvents`, `startAsync`, `processingLoop` —
  the sections.
* `AsyncMachine.step` — the step relation, `AsyncMachine.Steps` its inversion.
-/

namespace Opencode.Async

open Opencode.Fsm Opencode.Lib

/-- An event in a queue, with the number of its post. -/
structure Item (E : Type) where
  occurrence : ℕ
  event : E
  deriving DecidableEq

/-- Where a processing loop is. -/
inductive Loop (E : Type)
  | exited
  /-- About to take the mutex and to test for work. -/
  | ready
  /-- In `cv_.wait`, not notified. -/
  | asleep
  /-- Between the two sections. -/
  | popped (item : Item E)
  deriving DecidableEq

def Loop.isAsleep {E : Type} : Loop E → Bool
  | .asleep => true
  | _ => false

def Loop.hasExited {E : Type} : Loop E → Bool
  | .exited => true
  | _ => false

@[simp] theorem Loop.isAsleep_iff {E : Type} {l : Loop E} :
    l.isAsleep = true ↔ l = .asleep := by
  cases l <;> simp [isAsleep]

@[simp] theorem Loop.hasExited_iff {E : Type} {l : Loop E} :
    l.hasExited = true ↔ l = .exited := by
  cases l <;> simp [hasExited]

/-- Where a calling thread is: outside, before `notify_one` of `post_event`, or before
`notify_all` or `join` of `stop_async`. -/
inductive Ctl
  | idle
  | notifying
  | stopping
  | joining
  deriving DecidableEq

/-- The thread has cleared `running_` and not yet joined the loop. -/
def Ctl.isStopping : Ctl → Bool
  | .stopping | .joining => true
  | _ => false

/-- What happens to a posted event: it is posted, put aside, put back, and handled, the
answer of `process_internal_locked` with it. -/
inductive Entry (E : Type)
  | posted (item : Item E)
  | deferred (item : Item E)
  | requeued (item : Item E)
  | dispatched (item : Item E) (taken : Bool)
  deriving DecidableEq

def Entry.posted? {E : Type} : Entry E → Option (Item E)
  | .posted item => some item
  | _ => none

def Entry.dispatched? {E : Type} : Entry E → Option (Item E)
  | .dispatched item _ => some item
  | _ => none

/-- The events posted, in the order in which the posts took the mutex. -/
def posts {E : Type} (log : List (Entry E)) : List (Item E) := log.filterMap Entry.posted?

/-- The events handled, in order. -/
def dispatches {E : Type} (log : List (Entry E)) : List (Item E) :=
  log.filterMap Entry.dispatched?

/-- The members of the class, the program counters and the log. -/
structure AsyncMachine (S E A G B Tid : Type) where
  machine : EventDrivenStateMachine S E A G B
  queue : List (Item E) := []
  deferred : List (Item E) := []
  /-- `current_processing_event_`. -/
  processing : Option (Item E) := none
  running : Bool := false
  /-- `processing_thread_`, when it is joinable. -/
  handle : Option ℕ := none
  loop : ℕ → Loop E := fun _ => .exited
  /-- How many loops have been created. -/
  spawned : ℕ := 0
  ctl : Tid → Ctl := fun _ => .idle
  /-- `std::terminate` has been called. -/
  terminated : Bool := false
  /-- The action slots the machine came by. -/
  visits : List (Visit S A) := []
  /-- The calls of the observers. -/
  notices : List (Notice S E B) := []
  /-- Ghost: the history. -/
  log : List (Entry E) := []

/-- The steps of the threads and of the loops. -/
inductive Label (E Tid : Type)
  /-- The section of `post_event`. -/
  | post (t : Tid) (event : E)
  /-- `notify_one`, with the loop it wakes. -/
  | notifyOne (t : Tid) (woken : Option ℕ)
  | defer (t : Tid)
  | processDeferred (t : Tid)
  | start (t : Tid)
  /-- The section of `stop_async`. -/
  | stop (t : Tid)
  | notifyAll (t : Tid)
  | join (t : Tid)
  /-- A section of a loop. -/
  | loop (i : ℕ)
  /-- A spurious wake-up. -/
  | wake (i : ℕ)
  deriving DecidableEq

def Label.isDefer {E Tid : Type} : Label E Tid → Bool
  | .defer _ => true
  | _ => false

namespace AsyncMachine

variable {S E A G B Tid : Type}

def setLoop (s : AsyncMachine S E A G B Tid) (i : ℕ) (l : Loop E) : AsyncMachine S E A G B Tid :=
  { s with loop := Function.update s.loop i l }

def goto [DecidableEq Tid] (s : AsyncMachine S E A G B Tid) (t : Tid) (c : Ctl) :
    AsyncMachine S E A G B Tid :=
  { s with ctl := Function.update s.ctl t c }

/-! ## The sections -/

def postEvent (s : AsyncMachine S E A G B Tid) (event : E) : AsyncMachine S E A G B Tid :=
  let item : Item E := ⟨(posts s.log).length, event⟩
  { s with queue := s.queue ++ [item], log := s.log ++ [.posted item] }

/-- The event between the loop's sections is copied, if there is one. -/
def deferCurrentEvent (s : AsyncMachine S E A G B Tid) : AsyncMachine S E A G B Tid :=
  match s.processing with
  | some item =>
      { s with deferred := s.deferred ++ [item], log := s.log ++ [.deferred item] }
  | none => s

/-- The events put aside go to the end of the queue. -/
def processDeferredEvents (s : AsyncMachine S E A G B Tid) : AsyncMachine S E A G B Tid :=
  { s with
    queue := s.queue ++ s.deferred
    deferred := []
    log := s.log ++ s.deferred.map .requeued }

/-- A new loop, and its thread assigned to the handle. -/
def startAsync (s : AsyncMachine S E A G B Tid) : AsyncMachine S E A G B Tid :=
  if s.running then s
  else
    { s with
      running := true
      loop := Function.update s.loop s.spawned .ready
      spawned := s.spawned + 1
      handle := some (s.handle.getD s.spawned)
      terminated := s.handle.isSome }

/-- `notify_one` wakes a sleeping loop if there is one. -/
def notifyOne (s : AsyncMachine S E A G B Tid) : Option ℕ → Option (AsyncMachine S E A G B Tid)
  | some i => if (s.loop i).isAsleep then some (s.setLoop i .ready) else none
  | none => if ∀ i < s.spawned, ¬ (s.loop i).isAsleep then some s else none

def Loop.notified : Loop E → Loop E
  | .asleep => .ready
  | l => l

def notifyAll (s : AsyncMachine S E A G B Tid) : AsyncMachine S E A G B Tid :=
  { s with loop := fun i => Loop.notified (s.loop i) }

/-- The section of the loop that handles an event. -/
def handleEvent [DecidableEq S] [DecidableEq E] (guards : G → Bool) (s : AsyncMachine S E A G B Tid)
    (item : Item E) : AsyncMachine S E A G B Tid :=
  let (taken, visits, notices, machine) := s.machine.processInternalLocked guards item.event
  { s with
    machine := machine
    visits := s.visits ++ visits
    notices := s.notices ++ notices
    processing := none
    log := s.log ++ [.dispatched item taken] }

/-- The sections of the loop: waiting and popping, or handling.  The wait only ends with
an event in the queue or with `running_` cleared, so the second test of the queue in the
source finds nothing new. -/
def processingLoop [DecidableEq S] [DecidableEq E] (guards : G → Bool) (s : AsyncMachine S E A G B Tid)
    (i : ℕ) : Option (AsyncMachine S E A G B Tid) :=
  match s.loop i with
  | .exited | .asleep => none
  | .ready =>
      match s.queue with
      | [] => if s.running then some (s.setLoop i .asleep) else some (s.setLoop i .exited)
      | item :: rest =>
          some { s.setLoop i (.popped item) with queue := rest, processing := some item }
  | .popped item => some ((s.handleEvent guards item).setLoop i .ready)

/-- `join` returns when the loop has exited; a handle that is not joinable is left alone. -/
def joinLoop (s : AsyncMachine S E A G B Tid) : Option (AsyncMachine S E A G B Tid) :=
  match s.handle with
  | none => some s
  | some i => if (s.loop i).hasExited then some { s with handle := none } else none

/-- **The step relation.** -/
def step [DecidableEq S] [DecidableEq E] [DecidableEq Tid] (guards : G → Bool)
    (s : AsyncMachine S E A G B Tid) (l : Label E Tid) : Option (AsyncMachine S E A G B Tid) :=
  if s.terminated then none
  else
    match l with
    | .post t event =>
        if s.ctl t = .idle then some ((s.postEvent event).goto t .notifying) else none
    | .notifyOne t woken =>
        if s.ctl t = .notifying then (s.notifyOne woken).map (·.goto t .idle) else none
    | .defer t => if s.ctl t = .idle then some s.deferCurrentEvent else none
    | .processDeferred t => if s.ctl t = .idle then some s.processDeferredEvents else none
    | .start t => if s.ctl t = .idle then some s.startAsync else none
    | .stop t =>
        if s.ctl t = .idle then
          if s.running then some ({ s with running := false }.goto t .stopping) else some s
        else none
    | .notifyAll t =>
        if s.ctl t = .stopping then some (s.notifyAll.goto t .joining) else none
    | .join t => if s.ctl t = .joining then s.joinLoop.map (·.goto t .idle) else none
    | .loop i => s.processingLoop guards i
    | .wake i => if (s.loop i).isAsleep then some (s.setLoop i .ready) else none

/-! ## What a step can do -/

variable [DecidableEq S] [DecidableEq E] [DecidableEq Tid] {guards : G → Bool}

/-- The outcomes of a step, one constructor for each. -/
inductive Steps (guards : G → Bool) (s : AsyncMachine S E A G B Tid) :
    Label E Tid → AsyncMachine S E A G B Tid → Prop
  | post {t : Tid} (event : E) (hc : s.ctl t = .idle) :
      Steps guards s (.post t event) ((s.postEvent event).goto t .notifying)
  | woken {t : Tid} {i : ℕ} (hc : s.ctl t = .notifying) (hl : s.loop i = .asleep) :
      Steps guards s (.notifyOne t (some i)) ((s.setLoop i .ready).goto t .idle)
  | unheard {t : Tid} (hc : s.ctl t = .notifying) (hl : ∀ i < s.spawned, s.loop i ≠ .asleep) :
      Steps guards s (.notifyOne t none) (s.goto t .idle)
  | deferred {t : Tid} {item : Item E} (hp : s.processing = some item) :
      Steps guards s (.defer t)
        { s with deferred := s.deferred ++ [item], log := s.log ++ [.deferred item] }
  | notDeferred {t : Tid} (hp : s.processing = none) : Steps guards s (.defer t) s
  | requeued {t : Tid} : Steps guards s (.processDeferred t) s.processDeferredEvents
  | startRefused {t : Tid} (hr : s.running = true) : Steps guards s (.start t) s
  | started {t : Tid} (hr : s.running = false) :
      Steps guards s (.start t)
        { s with
          running := true
          loop := Function.update s.loop s.spawned .ready
          spawned := s.spawned + 1
          handle := some (s.handle.getD s.spawned)
          terminated := s.handle.isSome }
  | stopRefused {t : Tid} (hr : s.running = false) : Steps guards s (.stop t) s
  | stopped {t : Tid} (hc : s.ctl t = .idle) (hr : s.running = true) :
      Steps guards s (.stop t) ({ s with running := false }.goto t .stopping)
  | notifyAll {t : Tid} (hc : s.ctl t = .stopping) :
      Steps guards s (.notifyAll t) (s.notifyAll.goto t .joining)
  | notJoined {t : Tid} (hc : s.ctl t = .joining) (hh : s.handle = none) :
      Steps guards s (.join t) (s.goto t .idle)
  | joined {t : Tid} {i : ℕ} (hc : s.ctl t = .joining) (hh : s.handle = some i)
      (hl : s.loop i = .exited) :
      Steps guards s (.join t) ({ s with handle := none }.goto t .idle)
  | slept {i : ℕ} (hl : s.loop i = .ready) (hq : s.queue = []) (hr : s.running = true) :
      Steps guards s (.loop i) (s.setLoop i .asleep)
  | left {i : ℕ} (hl : s.loop i = .ready) (hq : s.queue = []) (hr : s.running = false) :
      Steps guards s (.loop i) (s.setLoop i .exited)
  | popped {i : ℕ} {item : Item E} {rest : List (Item E)} (hl : s.loop i = .ready)
      (hq : s.queue = item :: rest) :
      Steps guards s (.loop i)
        { s.setLoop i (.popped item) with queue := rest, processing := some item }
  | handled {i : ℕ} {item : Item E} (hl : s.loop i = .popped item) :
      Steps guards s (.loop i) ((s.handleEvent guards item).setLoop i .ready)
  | wake {i : ℕ} (hl : s.loop i = .asleep) : Steps guards s (.wake i) (s.setLoop i .ready)

theorem step_of_terminated {s : AsyncMachine S E A G B Tid} (h : s.terminated = true)
    (l : Label E Tid) : s.step guards l = none := by
  simp [step, h]

theorem terminated_of_step {s s' : AsyncMachine S E A G B Tid} {l : Label E Tid}
    (h : s.step guards l = some s') : s.terminated = false := by
  by_contra ht
  rw [step_of_terminated (by simpa using ht)] at h
  cases h

theorem processingLoop_steps {s s' : AsyncMachine S E A G B Tid} {i : ℕ}
    (h : s.processingLoop guards i = some s') : Steps guards s (.loop i) s' := by
  unfold processingLoop at h
  split at h
  · cases h
  · cases h
  · rename_i hl
    split at h
    · rename_i hq
      split at h
      case isTrue hr =>
        cases h
        exact .slept hl hq hr
      case isFalse hr =>
        cases h
        exact .left hl hq (by simpa using hr)
    · cases h
      exact .popped hl ‹_›
  · cases h
    exact .handled ‹_›

theorem step_steps {s s' : AsyncMachine S E A G B Tid} {l : Label E Tid}
    (h : s.step guards l = some s') : Steps guards s l s' := by
  have hterm := terminated_of_step h
  unfold step at h
  rw [if_neg (by simp [hterm])] at h
  cases l with
  | post t event =>
      obtain ⟨hc, hs⟩ := Option.ite_none_right_eq_some.mp h
      cases hs
      exact .post event hc
  | notifyOne t woken =>
      obtain ⟨hc, hs⟩ := Option.ite_none_right_eq_some.mp h
      obtain ⟨u, hu, rfl⟩ := Option.map_eq_some_iff.mp hs
      cases woken with
      | none =>
          obtain ⟨hl, hs⟩ := Option.ite_none_right_eq_some.mp hu
          cases hs
          exact .unheard hc (by simpa using hl)
      | some i =>
          obtain ⟨hl, hs⟩ := Option.ite_none_right_eq_some.mp hu
          cases hs
          exact .woken hc (by simpa using hl)
  | defer t =>
      obtain ⟨-, hs⟩ := Option.ite_none_right_eq_some.mp h
      cases hs
      unfold deferCurrentEvent
      split
      · exact .deferred ‹_›
      · exact .notDeferred ‹_›
  | processDeferred t =>
      obtain ⟨-, hs⟩ := Option.ite_none_right_eq_some.mp h
      cases hs
      exact .requeued
  | start t =>
      obtain ⟨-, hs⟩ := Option.ite_none_right_eq_some.mp h
      cases hs
      unfold startAsync
      split
      case isTrue hr => exact .startRefused hr
      case isFalse hr => exact .started (by simpa using hr)
  | stop t =>
      obtain ⟨hc, hs⟩ := Option.ite_none_right_eq_some.mp h
      split at hs
      case isTrue hr =>
        cases hs
        exact .stopped hc hr
      case isFalse hr =>
        cases hs
        exact .stopRefused (by simpa using hr)
  | notifyAll t =>
      obtain ⟨hc, hs⟩ := Option.ite_none_right_eq_some.mp h
      cases hs
      exact .notifyAll hc
  | join t =>
      obtain ⟨hc, hs⟩ := Option.ite_none_right_eq_some.mp h
      obtain ⟨u, hu, rfl⟩ := Option.map_eq_some_iff.mp hs
      unfold joinLoop at hu
      split at hu
      · cases hu
        exact .notJoined hc ‹_›
      · obtain ⟨hl, hs⟩ := Option.ite_none_right_eq_some.mp hu
        cases hs
        exact .joined hc ‹_› (by simpa using hl)
  | loop i => exact processingLoop_steps h
  | wake i =>
      obtain ⟨hl, hs⟩ := Option.ite_none_right_eq_some.mp h
      cases hs
      exact .wake (by simpa using hl)

end AsyncMachine

end Opencode.Async
