import Opencode.Lib.Run

/-!
# The thread pool

A fixed number of workers, each with a mailbox, a mutex, a condition variable and a stop
flag.  Any thread submits tasks to the mailbox of a worker; the worker takes them out in
order and runs them, and leaves when it finds its mailbox empty after `shutdown` was set.

A step is what happens under a worker's mutex, or one access to an atomic, or one
notification.  `shutdown()` requests the stop and sets the flag in one section, but the
stop flag is atomic and a worker clears it without the mutex, so the section is two
steps, between which nothing else gets the mutex of that worker.

A worker that sleeps on its condition variable can wake at any time without a
notification, and then looks at its mailbox again.

Tasks are of an arbitrary type.  Which tasks a worker was given and which it has run is
recorded beside it.

The pool is a constructed one: the constructor, which starts the first threads while the
vector of the workers still grows, is left out.  An exception of a task ends its run like
a return; one that is not derived from `std::exception` ends the process and is left out.

## Main definitions

* `Worker`, `ThreadPool`, `Label`, `step` — the parties and their steps.
* `Steps` — the same steps as a relation, one rule for each.
-/

namespace Opencode.Pool

open Opencode.Lib

universe u v

/-- Where a worker is in its loop. -/
inductive Pc (τ : Type u)
  /-- It is about to take its mutex. -/
  | ready
  | asleep
  /-- It has taken a task out and has not cleared the stop flag. -/
  | popped (task : τ)
  | running (task : τ)
  | exited
  deriving DecidableEq

/-- A worker with its context's stop flag, the tasks `submit` accepted for it and the
tasks it has run. -/
structure Worker (τ : Type u) where
  tasks : List τ := []
  shutdown : Bool := false
  stop : Bool := false
  pc : Pc τ := .ready
  accepted : List τ := []
  executed : List τ := []
  deriving DecidableEq

namespace Worker

variable {τ : Type u} (w : Worker τ)

/-- `submit` under the mutex. -/
def push (task : τ) : Worker τ :=
  { w with tasks := w.tasks ++ [task], accepted := w.accepted ++ [task] }

/-- A notification wakes the worker if it sleeps. -/
def notified : Worker τ :=
  match w.pc with
  | .asleep => { w with pc := .ready }
  | _ => w

/-- The loop of the worker up to the end of the section: sleep, leave, or take a task. -/
def enter : Worker τ :=
  match w.tasks with
  | [] => { w with pc := if w.shutdown then .exited else .asleep }
  | task :: tasks => { w with tasks := tasks, pc := .popped task }

end Worker

/-- Where a thread is that has called `submit` or `submitRoundRobin`. -/
inductive Ctl (n : ℕ) (τ : Type u)
  | idle
  /-- It has drawn a worker and is about to submit to it. -/
  | drawn (i : Fin n) (task : τ)
  | notifying (i : Fin n)
  deriving DecidableEq

/-- Where the call of `shutdown()` is. -/
inductive ShutdownPc (n : ℕ)
  | idle
  | requestStop (k : ℕ)
  /-- It holds the mutex of the worker and is about to set its flag. -/
  | setShutdown (i : Fin n)
  | notify (i : Fin n)
  | join (k : ℕ)
  | returned
  deriving DecidableEq

/-- The constructed pool of `n` workers, and the threads that use it.  Left out are the
constructor and the end of the process by an exception that is no `std::exception`. -/
structure ThreadPool (n : ℕ) (τ : Type u) (Tid : Type v) where
  workers : Fin n → Worker τ := fun _ => {}
  nextRoundRobin : UInt64 := 0
  ctl : Tid → Ctl n τ := fun _ => .idle
  shutdownPc : ShutdownPc n := .idle

/-- The steps of the threads that submit, of the workers, and of the thread in
`shutdown()`. -/
inductive Label (n : ℕ) (τ : Type u) (Tid : Type v)
  | submit (t : Tid) (id : ℕ) (task : τ)
  | submitRoundRobin (t : Tid) (task : τ)
  | submitDrawn (t : Tid)
  | notifyOne (t : Tid)
  | enter (i : Fin n)
  | wake (i : Fin n)
  | clearStop (i : Fin n)
  | finish (i : Fin n)
  | stopWorker (id : ℕ)
  | shutdown

namespace ThreadPool

variable {n : ℕ} {τ : Type u} {Tid : Type v}

def setWorker (s : ThreadPool n τ Tid) (i : Fin n) (w : Worker τ) : ThreadPool n τ Tid :=
  { s with workers := Function.update s.workers i w }

theorem workers_setWorker (s : ThreadPool n τ Tid) (i : Fin n) (w : Worker τ) (j : Fin n) :
    (s.setWorker i w).workers j = if j = i then w else s.workers j :=
  Function.update_apply _ _ _ _

theorem workers_setWorker_of_ne (s : ThreadPool n τ Tid) {i j : Fin n} (h : j ≠ i)
    {w : Worker τ} : (s.setWorker i w).workers j = s.workers j :=
  Function.update_of_ne h _ _

/-- What holds of all workers, and of the one that changes, holds of all afterwards. -/
theorem forall_setWorker {s : ThreadPool n τ Tid} {P : Worker τ → Prop}
    (h : ∀ j, P (s.workers j)) (i : Fin n) (w : Worker τ) :
    (∀ j, P ((s.setWorker i w).workers j)) ↔ P w := by
  refine (Function.forall_update_iff s.workers fun _ w => P w).trans ?_
  exact and_iff_left fun j _ => h j

/-- The mutex of the worker is held by `shutdown()`. -/
def Locked (s : ThreadPool n τ Tid) (i : Fin n) : Prop := s.shutdownPc = .setShutdown i

instance (s : ThreadPool n τ Tid) (i : Fin n) : Decidable (s.Locked i) :=
  inferInstanceAs (Decidable (_ = _))

variable [DecidableEq Tid]

def goto (s : ThreadPool n τ Tid) (t : Tid) (c : Ctl n τ) : ThreadPool n τ Tid :=
  { s with ctl := Function.update s.ctl t c }

/-- The section of `submit`; the notification comes after it. -/
def pushTo (s : ThreadPool n τ Tid) (t : Tid) (i : Fin n) (task : τ) :
    Option (ThreadPool n τ Tid) :=
  if s.Locked i then none
  else some ((s.setWorker i ((s.workers i).push task)).goto t (.notifying i))

/-- The next step of `shutdown()`. -/
def stepShutdown (s : ThreadPool n τ Tid) : Option (ThreadPool n τ Tid) :=
  match s.shutdownPc with
  | .idle => some { s with shutdownPc := .requestStop 0 }
  | .requestStop k =>
      if h : k < n then
        let i : Fin n := ⟨k, h⟩
        some { s.setWorker i { s.workers i with stop := true } with shutdownPc := .setShutdown i }
      else some { s with shutdownPc := .join 0 }
  | .setShutdown i =>
      some { s.setWorker i { s.workers i with shutdown := true } with shutdownPc := .notify i }
  | .notify i =>
      some { s.setWorker i (s.workers i).notified with shutdownPc := .requestStop (i + 1) }
  | .join k =>
      if h : k < n then
        match (s.workers ⟨k, h⟩).pc with
        | .exited => some { s with shutdownPc := .join (k + 1) }
        | _ => none
      else some { s with shutdownPc := .returned }
  | .returned => none

def step (s : ThreadPool n τ Tid) : Label n τ Tid → Option (ThreadPool n τ Tid)
  | .submit t id task =>
      match s.ctl t with
      | .idle => if h : id < n then s.pushTo t ⟨id, h⟩ task else some s
      | _ => none
  | .submitRoundRobin t task =>
      match s.ctl t with
      | .idle =>
          if h : 0 < n then
            let i : Fin n := ⟨s.nextRoundRobin.toNat % n, Nat.mod_lt _ h⟩
            some { s.goto t (.drawn i task) with nextRoundRobin := s.nextRoundRobin + 1 }
          else some s
      | _ => none
  | .submitDrawn t =>
      match s.ctl t with
      | .drawn i task => s.pushTo t i task
      | _ => none
  | .notifyOne t =>
      match s.ctl t with
      | .notifying i => some ((s.setWorker i (s.workers i).notified).goto t .idle)
      | _ => none
  | .enter i =>
      match (s.workers i).pc with
      | .ready => if s.Locked i then none else some (s.setWorker i (s.workers i).enter)
      | _ => none
  | .wake i =>
      match (s.workers i).pc with
      | .asleep => some (s.setWorker i { s.workers i with pc := .ready })
      | _ => none
  | .clearStop i =>
      match (s.workers i).pc with
      | .popped task => some (s.setWorker i { s.workers i with stop := false, pc := .running task })
      | _ => none
  | .finish i =>
      match (s.workers i).pc with
      | .running task =>
          some (s.setWorker i
            { s.workers i with pc := .ready, executed := (s.workers i).executed ++ [task] })
      | _ => none
  | .stopWorker id =>
      if h : id < n then
        some (s.setWorker ⟨id, h⟩ { s.workers ⟨id, h⟩ with stop := true })
      else some s
  | .shutdown => s.stepShutdown

/-- The worker and the task a step submits. -/
def pushes (s : ThreadPool n τ Tid) : Label n τ Tid → Option (Fin n × τ)
  | .submit _ id task => if h : id < n then some (⟨id, h⟩, task) else none
  | .submitDrawn t =>
      match s.ctl t with
      | .drawn i task => some (i, task)
      | _ => none
  | _ => none

/-! ## The steps as a relation -/

/-- The steps, one rule for each thing that can happen. -/
inductive Steps (s : ThreadPool n τ Tid) : Label n τ Tid → ThreadPool n τ Tid → Prop
  | pushed {l : Label n τ Tid} {t : Tid} {i : Fin n} {task : τ} (hpush : s.pushes l = some (i, task))
      (hctl : ∀ j, s.ctl t ≠ .notifying j) (hlock : ¬s.Locked i) :
      Steps s l ((s.setWorker i ((s.workers i).push task)).goto t (.notifying i))
  | refused {l : Label n τ Tid} (hpush : s.pushes l = none) (hclear : ∀ i, l ≠ .clearStop i)
      (hshutdown : l ≠ .shutdown) : Steps s l s
  | drew {t : Tid} {task : τ} {i : Fin n} {next : UInt64} (hctl : s.ctl t = .idle) :
      Steps s (.submitRoundRobin t task) { s.goto t (.drawn i task) with nextRoundRobin := next }
  | notifiedOne {t : Tid} {i : Fin n} (hctl : s.ctl t = .notifying i) :
      Steps s (.notifyOne t) ((s.setWorker i (s.workers i).notified).goto t .idle)
  | entered {i : Fin n} (hpc : (s.workers i).pc = .ready) (hlock : ¬s.Locked i) :
      Steps s (.enter i) (s.setWorker i (s.workers i).enter)
  | woke {i : Fin n} (hpc : (s.workers i).pc = .asleep) :
      Steps s (.wake i) (s.setWorker i { s.workers i with pc := .ready })
  | cleared {i : Fin n} {task : τ} (hpc : (s.workers i).pc = .popped task) :
      Steps s (.clearStop i)
        (s.setWorker i { s.workers i with stop := false, pc := .running task })
  | finished {i : Fin n} {task : τ} (hpc : (s.workers i).pc = .running task) :
      Steps s (.finish i)
        (s.setWorker i
          { s.workers i with pc := .ready, executed := (s.workers i).executed ++ [task] })
  | stopped {i : Fin n} :
      Steps s (.stopWorker i) (s.setWorker i { s.workers i with stop := true })
  | called (hpc : s.shutdownPc = .idle) : Steps s .shutdown { s with shutdownPc := .requestStop 0 }
  | requested {i : Fin n} (hpc : s.shutdownPc = .requestStop i) :
      Steps s .shutdown
        { s.setWorker i { s.workers i with stop := true } with shutdownPc := .setShutdown i }
  | requestedAll {k : ℕ} (hpc : s.shutdownPc = .requestStop k) :
      Steps s .shutdown { s with shutdownPc := .join 0 }
  | flagged {i : Fin n} (hpc : s.shutdownPc = .setShutdown i) :
      Steps s .shutdown
        { s.setWorker i { s.workers i with shutdown := true } with shutdownPc := .notify i }
  | notifiedAll {i : Fin n} (hpc : s.shutdownPc = .notify i) :
      Steps s .shutdown
        { s.setWorker i (s.workers i).notified with shutdownPc := .requestStop (i + 1) }
  | joined {i : Fin n} (hpc : s.shutdownPc = .join i) (hexited : (s.workers i).pc = .exited) :
      Steps s .shutdown { s with shutdownPc := .join (i + 1) }
  | returned {k : ℕ} (hpc : s.shutdownPc = .join k) (hk : n ≤ k) :
      Steps s .shutdown { s with shutdownPc := .returned }

theorem stepShutdown_steps {s s' : ThreadPool n τ Tid} (h : s.stepShutdown = some s') :
    s.Steps .shutdown s' := by
  unfold stepShutdown at h
  split at h
  · cases h
    exact .called ‹_›
  · split at h
    · cases h
      exact .requested (i := ⟨_, ‹_›⟩) ‹_›
    · cases h
      exact .requestedAll ‹_›
  · cases h
    exact .flagged ‹_›
  · cases h
    exact .notifiedAll ‹_›
  · split at h
    · split at h
      · cases h
        exact .joined (i := ⟨_, ‹_›⟩) ‹_› ‹_›
      · cases h
    · cases h
      exact .returned ‹_› (Nat.le_of_not_lt ‹_›)
  · cases h

theorem pushTo_steps {s s' : ThreadPool n τ Tid} {l : Label n τ Tid} {t : Tid} {i : Fin n} {task : τ}
    (hpush : s.pushes l = some (i, task)) (hctl : ∀ j, s.ctl t ≠ .notifying j)
    (h : s.pushTo t i task = some s') : s.Steps l s' := by
  unfold pushTo at h
  split at h
  · cases h
  · cases h
    exact .pushed hpush hctl ‹_›

/-- Every step is one of the relation. -/
theorem step_steps {s s' : ThreadPool n τ Tid} {l : Label n τ Tid} (h : s.step l = some s') :
    s.Steps l s' := by
  cases l with
  | submit t id task =>
      simp only [step] at h
      split at h
      case h_1 hctl =>
        split at h
        case isTrue hid => exact pushTo_steps (by simp [pushes, hid]) (by simp [hctl]) h
        case isFalse hid =>
          cases h
          exact .refused (by simp [pushes, hid]) (by simp) (by simp)
      case h_2 => cases h
  | submitRoundRobin t task =>
      simp only [step] at h
      split at h
      case h_1 hctl =>
        split at h
        case isTrue => cases h; exact .drew hctl
        case isFalse => cases h; exact .refused rfl (by simp) (by simp)
      case h_2 => cases h
  | submitDrawn t =>
      simp only [step] at h
      split at h
      case h_1 i task hctl => exact pushTo_steps (by simp [pushes, hctl]) (by simp [hctl]) h
      case h_2 => cases h
  | notifyOne t =>
      simp only [step] at h
      split at h
      case h_1 hctl => cases h; exact .notifiedOne hctl
      case h_2 => cases h
  | enter i =>
      simp only [step] at h
      split at h
      case h_1 hpc =>
        split at h
        case isTrue => cases h
        case isFalse hlock => cases h; exact .entered hpc hlock
      case h_2 => cases h
  | wake i =>
      simp only [step] at h
      split at h
      case h_1 hpc => cases h; exact .woke hpc
      case h_2 => cases h
  | clearStop i =>
      simp only [step] at h
      split at h
      case h_1 hpc => cases h; exact .cleared hpc
      case h_2 => cases h
  | finish i =>
      simp only [step] at h
      split at h
      case h_1 hpc => cases h; exact .finished hpc
      case h_2 => cases h
  | stopWorker id =>
      simp only [step] at h
      split at h
      case isTrue hid => cases h; exact .stopped (i := ⟨id, hid⟩)
      case isFalse => cases h; exact .refused rfl (by simp) (by simp)
  | shutdown => exact stepShutdown_steps h

end ThreadPool
end Opencode.Pool
