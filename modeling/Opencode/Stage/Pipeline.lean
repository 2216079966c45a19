import Mathlib
import Opencode.Lib.Run

/-!
# The stage pipeline

`Pipeline` runs a vector of stages on a worker thread of its own.  Any number of
controller threads start it, ask it to stop, wait for it and configure it.  The
module has the worker and the controllers as parties of one system: an atomic step
is a section under the mutex, a load or a store of an atomic, the beginning or the
end of a call of a stage or of the cleanup.

`start` holds the mutex over several steps, because `stopFlag` is written by
`request_stop` without it: a request may fall between any two of them.  A stage and
the cleanup are opaque.  Their calls end when the schedule says so, normally or with
an exception, and a stage that calls `request_stop` itself is a controller step
between its beginning and its end.

The ghost fields are the configuration of every run and one history of what
happened.

## Main definitions

* `Pipeline` — the members of the class, the program counters and the ghost fields.
* `workerStep` — `run`.
* `Action`, `threadStep` — the steps of `set_steps`, `set_cleanup`, `start`,
  `request_stop`, `stop` and `wait`.
* `step` — one step of either party.
-/

namespace Opencode.Stage

open Opencode.Lib

/-- What a run does, in the order in which it happens. -/
inductive RunEvent (St C X : Type)
  | began (st : St)
  | ended (st : St)
  | threw (st : St) (x : X)
  | cleanupBegan (c : C) (aborted : Bool)
  | cleanupEnded
  | cleanupThrew (x : X)
  /-- `done_` is set. -/
  | finished
  deriving DecidableEq

/-- An entry of the history. -/
inductive Entry (St C X Tid : Type)
  /-- The start of run `r` stores `false` in the stop flag. -/
  | reset (r : ℕ)
  /-- The start of run `r` returns. -/
  | startReturned (r : ℕ)
  | stopRequested
  | event (r : ℕ) (e : RunEvent St C X)
  /-- A `wait` called during run `called` returns, with the exception it rethrows. -/
  | waitReturned (t : Tid) (called : Option ℕ) (x : Option X)
  deriving DecidableEq

/-- Where the worker is in `run`, with its local variables.  Between two runs it is
`exited`. -/
inductive Worker (St X : Type)
  | exited
  /-- The test of the loop. -/
  | head (i : ℕ)
  | call (i : ℕ)
  | inStage (i : ℕ) (st : St)
  /-- The load of the stop flag after stage `i`. -/
  | check (i : ℕ)
  | after (failure : Option X) (aborted : Bool)
  | clean (failure : Option X) (aborted : Bool)
  | inCleanup (failure : Option X) (aborted : Bool)
  | finish (failure : Option X)
  /-- `notify_all`, with `done_` set. -/
  | notify
  deriving DecidableEq

/-- The worker is between the creation of its thread and the setting of `done_`. -/
def Worker.active {St X : Type} : Worker St X → Bool
  | .exited | .notify => false
  | _ => true

/-- The thread has not ended. -/
def Worker.alive {St X : Type} : Worker St X → Bool
  | .exited => false
  | _ => true

/-- The loop has been left with `aborted` set, and the cleanup not been called. -/
def Worker.aborting {St X : Type} : Worker St X → Bool
  | .after _ aborted | .clean _ aborted => aborted
  | _ => false

theorem Worker.aborting_of_inactive {St X : Type} {w : Worker St X} (h : w.active = false) :
    w.aborting = false := by
  cases w <;> simp_all [active, aborting]

/-- A configuration: the step vector and the cleanup, absent when it is empty. -/
abbrev Config (St C : Type) := List St × Option C

/-- Where a controller thread is.  Inside `start` it carries the configuration that
stood when the call was accepted, inside `wait` the run during which it was called. -/
inductive Ctl (St C : Type)
  | idle
  | starting (cfg : Config St C)
  | resetting (cfg : Config St C)
  | spawning (cfg : Config St C)
  | leaving
  | waiting (called : Option ℕ)
  | rethrowing (called : Option ℕ)
  deriving DecidableEq

/-- The thread is inside the locked section of `start`. -/
def Ctl.inStart {St C : Type} : Ctl St C → Bool
  | .starting _ | .resetting _ | .spawning _ | .leaving => true
  | _ => false

/-- The configuration a `start` is about to create a run with. -/
def Ctl.pending {St C : Type} : Ctl St C → Option (Config St C)
  | .starting cfg | .resetting cfg | .spawning cfg => some cfg
  | _ => none

theorem Ctl.inStart_of_pending {St C : Type} {c : Ctl St C} {cfg : Config St C}
    (h : c.pending = some cfg) : c.inStart = true := by
  cases c <;> simp_all [pending, inStart]

/-- The members of the class, the program counters and the ghost fields. -/
structure Pipeline (St C X Tid : Type) where
  steps : List St := []
  cleanup : Option C := none
  stopFlag : Bool := false
  current : ℤ := -1
  mutex : Option Tid := none
  done : Bool := false
  failure : Option X := none
  /-- `worker_.joinable()`. -/
  joinable : Bool := false
  worker : Worker St X := .exited
  ctl : Tid → Ctl St C := fun _ => .idle
  /-- Ghost: the configuration of every run so far. -/
  configs : List (Config St C) := []
  /-- Ghost: the history. -/
  log : List (Entry St C X Tid) := []

namespace Pipeline

variable {St C X Tid : Type}

def config (s : Pipeline St C X Tid) : Config St C := (s.steps, s.cleanup)

def runningLocked (s : Pipeline St C X Tid) : Bool := s.joinable && !s.done

/-- The number of the latest run. -/
def latest (s : Pipeline St C X Tid) : ℕ := s.configs.length - 1

/-- The run that is in progress, by the pipeline's own notion of running. -/
def inProgress (s : Pipeline St C X Tid) : Option ℕ :=
  if s.runningLocked then some s.latest else none

def record (s : Pipeline St C X Tid) (e : Entry St C X Tid) : Pipeline St C X Tid :=
  { s with log := s.log ++ [e] }

/-- The worker moves on. -/
def goto (s : Pipeline St C X Tid) (w : Worker St X) : Pipeline St C X Tid :=
  { s with worker := w }

/-- The worker moves on and its run records an event. -/
def emit (s : Pipeline St C X Tid) (w : Worker St X) (e : RunEvent St C X) :
    Pipeline St C X Tid :=
  { s with worker := w, log := s.log ++ [.event s.latest e] }

/-- One step of `run`.  The outcome is used where a call of a stage or of the cleanup
ends: `some x` is the exception it throws. -/
def workerStep (s : Pipeline St C X Tid) (outcome : Option X) :
    Option (Pipeline St C X Tid) :=
  match s.worker with
  | .exited => none
  | .head i =>
      if i < s.steps.length then
        -- `static_cast<int>` of the index
        some { s with current := (i : ℤ).bmod (2 ^ 32), worker := .call i }
      else some (s.goto (.after none false))
  | .call i => s.steps[i]?.map fun st => s.emit (.inStage i st) (.began st)
  | .inStage i st =>
      match outcome with
      | none => some (s.emit (.check i) (.ended st))
      | some x => some (s.emit (.after (some x) true) (.threw st x))
  | .check i =>
      if s.stopFlag then some (s.goto (.after none true)) else some (s.goto (.head (i + 1)))
  | .after failure aborted => some { s with current := -1, worker := .clean failure aborted }
  | .clean failure aborted =>
      match s.cleanup with
      | none => some (s.goto (.finish failure))
      | some c => some (s.emit (.inCleanup failure aborted) (.cleanupBegan c aborted))
  | .inCleanup failure _ =>
      match outcome with
      | none => some (s.emit (.finish failure) .cleanupEnded)
      | some x => some (s.emit (.finish (failure.or (some x))) (.cleanupThrew x))
  | .finish failure =>
      if s.mutex = none then
        some { s.emit .notify .finished with failure := failure, done := true }
      else none
  | .notify => some (s.goto .exited)

/-- What a step of the worker leaves alone, and that it does not begin a run. -/
structure WorkerFrame (s s' : Pipeline St C X Tid) : Prop where
  config : s'.config = s.config
  stopFlag : s'.stopFlag = s.stopFlag
  mutex : s'.mutex = s.mutex
  joinable : s'.joinable = s.joinable
  ctl : s'.ctl = s.ctl
  configs : s'.configs = s.configs
  active : s'.worker.active = true → s.worker.active = true ∧ s'.done = s.done
  log : s'.log = s.log ∨
    s.worker.active = true ∧ ∃ e, s'.log = s.log ++ [.event s.latest e]

theorem workerStep_frame {s s' : Pipeline St C X Tid} {outcome : Option X}
    (h : s.workerStep outcome = some s') : WorkerFrame s s' := by
  unfold workerStep at h
  split at h
  case h_3 i hw =>
    obtain ⟨st, -, rfl⟩ := Option.map_eq_some_iff.mp h
    constructor <;> simp [emit, Pipeline.config, hw, Worker.active]
  all_goals
    rename_i hw
    repeat' split at h
  all_goals
    cases h <;> constructor <;>
      simp [emit, goto, Pipeline.config, hw, Worker.active]

/-- The steps of a controller thread. -/
inductive Action (St C : Type)
  | setSteps (steps : List St)
  | setCleanup (cleanup : Option C)
  /-- `start` takes the mutex and tests whether a run is in progress. -/
  | start
  | join
  | reset
  /-- The rest of `start`; the creation of the thread may fail. -/
  | spawn (created : Bool)
  | unlock
  | requestStop
  /-- `request_stop` and the call of `wait`. -/
  | stop
  | wait
  /-- The predicate of the condition variable holds. -/
  | awake
  | rethrow
  deriving DecidableEq

variable [DecidableEq Tid]

/-- Thread `t` moves on. -/
def move (s : Pipeline St C X Tid) (t : Tid) (c : Ctl St C) : Pipeline St C X Tid :=
  { s with ctl := Function.update s.ctl t c }

@[simp] theorem move_ctl_self (s : Pipeline St C X Tid) (t : Tid) (c : Ctl St C) :
    (s.move t c).ctl t = c := by
  simp [move]

@[simp] theorem move_ctl_of_ne (s : Pipeline St C X Tid) {t u : Tid} (c : Ctl St C)
    (h : u ≠ t) : (s.move t c).ctl u = s.ctl u := by
  simp [move, h]

/-- One step of thread `t`.  A call that throws `std::logic_error` leaves everything
as it was, and so does `start` when it finds the pipeline running. -/
def threadStep (s : Pipeline St C X Tid) (t : Tid) (a : Action St C) :
    Option (Pipeline St C X Tid) :=
  match a, s.ctl t with
  | .setSteps steps, .idle =>
      if s.mutex = none then
        some (if s.runningLocked then s else { s with steps := steps })
      else none
  | .setCleanup cleanup, .idle =>
      if s.mutex = none then
        some (if s.runningLocked then s else { s with cleanup := cleanup })
      else none
  | .start, .idle =>
      if s.mutex = none then
        some (if s.runningLocked then s
          else { s with mutex := some t }.move t (.starting s.config))
      else none
  | .join, .starting cfg =>
      -- `join` returns when the thread of the previous run has ended
      if s.joinable && s.worker.alive then none
      else some ({ s with joinable := false }.move t (.resetting cfg))
  | .reset, .resetting cfg =>
      some (({ s with stopFlag := false }.record (.reset s.configs.length)).move t
        (.spawning cfg))
  | .spawn created, .spawning cfg =>
      let s := { s with failure := none, done := false, current := -1 }
      if created then
        some ({ s with joinable := true, worker := .head 0, configs := s.configs ++ [cfg] }.move t
          .leaving)
      else some ({ s with mutex := none }.move t .idle)
  | .unlock, .leaving =>
      some (({ s with mutex := none }.record (.startReturned s.latest)).move t .idle)
  | .requestStop, .idle => some ({ s with stopFlag := true }.record .stopRequested)
  | .stop, .idle =>
      some (({ s with stopFlag := true }.record .stopRequested).move t (.waiting s.inProgress))
  | .wait, .idle => some (s.move t (.waiting s.inProgress))
  | .awake, .waiting called =>
      if s.mutex = none ∧ (s.done = true ∨ s.joinable = false) then
        some (s.move t (.rethrowing called))
      else none
  | .rethrow, .rethrowing called =>
      if s.mutex = none then
        some ((s.record (.waitReturned t called s.failure)).move t .idle)
      else none
  | _, _ => none

/-- A step of the worker, or of a controller thread. -/
inductive Label (St C X Tid : Type)
  | worker (outcome : Option X)
  | thread (t : Tid) (a : Action St C)
  deriving DecidableEq

def step (s : Pipeline St C X Tid) : Label St C X Tid → Option (Pipeline St C X Tid)
  | .worker outcome => s.workerStep outcome
  | .thread t a => s.threadStep t a

/-! ## What a step can do -/

/-- The steps of a thread, one case for each way a step can go. -/
inductive Moves (s : Pipeline St C X Tid) (t : Tid) :
    Action St C → Pipeline St C X Tid → Prop
  | refused {a : Action St C} : s.runningLocked = true → Moves s t a s
  | setSteps {steps : List St} : s.ctl t = .idle → s.mutex = none → s.runningLocked = false →
      Moves s t (.setSteps steps) { s with steps := steps }
  | setCleanup {cleanup : Option C} : s.ctl t = .idle → s.mutex = none →
      s.runningLocked = false →
      Moves s t (.setCleanup cleanup) { s with cleanup := cleanup }
  | start : s.ctl t = .idle → s.mutex = none → s.runningLocked = false →
      Moves s t .start ({ s with mutex := some t }.move t (.starting s.config))
  | join {cfg : Config St C} : s.ctl t = .starting cfg →
      (s.joinable = true → s.worker = .exited) →
      Moves s t .join ({ s with joinable := false }.move t (.resetting cfg))
  | reset {cfg : Config St C} : s.ctl t = .resetting cfg →
      Moves s t .reset (({ s with stopFlag := false }.record (.reset s.configs.length)).move t
        (.spawning cfg))
  | spawned {cfg : Config St C} : s.ctl t = .spawning cfg →
      Moves s t (.spawn true) ({ s with
        failure := none, done := false, current := -1, joinable := true, worker := .head 0,
        configs := s.configs ++ [cfg] }.move t .leaving)
  | notSpawned {cfg : Config St C} : s.ctl t = .spawning cfg →
      Moves s t (.spawn false) ({ s with
        failure := none, done := false, current := -1, mutex := none }.move t .idle)
  | unlock : s.ctl t = .leaving →
      Moves s t .unlock (({ s with mutex := none }.record (.startReturned s.latest)).move t .idle)
  | requestStop : s.ctl t = .idle →
      Moves s t .requestStop ({ s with stopFlag := true }.record .stopRequested)
  | stop : s.ctl t = .idle → Moves s t .stop
      (({ s with stopFlag := true }.record .stopRequested).move t (.waiting s.inProgress))
  | wait : s.ctl t = .idle → Moves s t .wait (s.move t (.waiting s.inProgress))
  | awake {called : Option ℕ} : s.ctl t = .waiting called → s.mutex = none →
      (s.done = true ∨ s.joinable = false) → Moves s t .awake (s.move t (.rethrowing called))
  | rethrow {called : Option ℕ} : s.ctl t = .rethrowing called → s.mutex = none →
      Moves s t .rethrow ((s.record (.waitReturned t called s.failure)).move t .idle)

theorem threadStep_moves {s s' : Pipeline St C X Tid} {t : Tid} {a : Action St C}
    (h : s.threadStep t a = some s') : Moves s t a s' := by
  unfold threadStep at h
  split at h
  case h_1 | h_2 | h_3 =>
    rename_i hc
    split at h <;> [rename_i hm; cases h]
    split at h <;> rename_i hr <;> cases h
    · exact .refused hr
    · simp only [Bool.not_eq_true] at hr
      first
        | exact .setSteps hc hm hr
        | exact .setCleanup hc hm hr
        | exact .start hc hm hr
  case h_4 cfg hc =>
    split at h <;> [cases h; rename_i hj]
    cases h
    refine .join hc ?_
    intro hjoin
    cases hw : s.worker <;> simp_all [Worker.alive]
  case h_5 cfg hc =>
    cases h
    exact .reset hc
  case h_6 created cfg hc =>
    cases created <;> cases h
    · exact .notSpawned hc
    · exact .spawned hc
  case h_7 hc =>
    cases h
    exact .unlock hc
  case h_8 hc =>
    cases h
    exact .requestStop hc
  case h_9 hc =>
    cases h
    exact .stop hc
  case h_10 hc =>
    cases h
    exact .wait hc
  case h_11 called hc =>
    split at h <;> [rename_i hm; cases h]
    cases h
    exact .awake hc hm.1 hm.2
  case h_12 called hc =>
    split at h <;> [rename_i hm; cases h]
    cases h
    exact .rethrow hc hm
  case h_13 => cases h

end Pipeline

end Opencode.Stage
