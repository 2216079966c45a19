import Opencode.Opcua.Monitor

/-!
# The poller and its threads

The poll thread goes over the groups in one pass after the other, and any other thread may
call the operations on the groups and `pollOnce` meanwhile.  Each of them holds the mutex of
the groups for its whole body, a pass with all its reads and puts included.  So, unlike
writers of the cache that are left to themselves, the passes cannot get in each other's way:
they are made one after the other, in the order in which they took the mutex.

`start` and `stop` use the thread object without the mutex, so two of them must not overlap.
The callbacks do not call the poller, and nobody else writes to the cache.

## Main definitions

* `PassPc` — where a pass under the mutex stands.
* `Polling`, `Polling.step` — the poller with its threads, and the step relation.
* `Polling.completed` — what the pass in progress leads to.
* `serial` — everything that is done, is done one after the other.
* `shows_throughout` — what a reader of the cache sees.
-/

namespace Opencode.Opcua

open Opencode.Lib

/-! ## A pass, step by step -/

/-- Between two groups, in the loop over the items of one, or in the `put` of an item. -/
inductive PassPc
  | between (rest : List PollGroup)
  | polling (name : String) (ok : ℕ) (items : List PollItem) (rest : List PollGroup)
  | putting (name : String) (ok : ℕ) (item : PollItem) (val : CachedValue ParsedValue)
      (items : List PollItem) (rest : List PollGroup)

namespace Monitor

variable (p : PlcPoller) (env : ℕ → Moment)

/-- The read of an item, its call of the error callback, and what `put` does before the
lock; and whether the value is valid. -/
def readItem (s : Monitor) (item : PollItem) :
    Option (Monitor × CachedValue ParsedValue × Bool) :=
  (p.readNode item ((env s.reads).turn s.cache.data.keys)).map fun r =>
    let (val, cache) := s.cache.draw r.1 (env s.reads).now
    ({ s with cache := cache, errors := s.errors ++ r.2 }, val, r.1.valid)

/-- The section of `put` under the lock of the cache. -/
def storeItem (s : Monitor) (item : PollItem) (val : CachedValue ParsedValue) :
    Option Monitor :=
  (s.cache.putLocked item.key val ((env s.reads).visit s.cache.data.keys)).map fun r =>
    { s with cache := r.1, changes := s.changes ++ r.2, reads := s.reads + 1 }

/-- The next step of a pass. -/
def advance (s : Monitor) : PassPc → Option (Monitor × PassPc)
  | .between [] => none
  | .between (g :: rest) => some (s, .polling g.name 0 g.items rest)
  | .polling name ok [] rest => some (report p name (s, ok), .between rest)
  | .polling name ok (item :: items) rest =>
      (readItem p env s item).map fun r =>
        (r.1, .putting name (if r.2.2 then ok + 1 else ok) item r.2.1 items rest)
  | .putting name ok item val items rest =>
      (storeItem env s item val).map fun s => (s, .polling name ok items rest)

/-- What the rest of a pass leads to. -/
def finish (s : Monitor) : PassPc → Option Monitor
  | .between rest => run (pollGroup p env) s rest
  | .polling name ok items rest =>
      (run (pollItem p env) (s, ok) items).bind fun r =>
        run (pollGroup p env) (report p name r) rest
  | .putting name ok item val items rest =>
      (storeItem env s item val).bind fun s =>
        (run (pollItem p env) (s, ok) items).bind fun r =>
          run (pollGroup p env) (report p name r) rest

variable {p : PlcPoller} {env : ℕ → Moment}

/-- An item is read and stored. -/
theorem pollItem_eq (s : Monitor) (ok : ℕ) (item : PollItem) :
    pollItem p env (s, ok) item =
      (readItem p env s item).bind fun r =>
        (storeItem env r.1 item r.2.1).map fun s => (s, if r.2.2 then ok + 1 else ok) := by
  rw [pollItem, PlcPoller.pollItem, readItem]
  cases p.readNode item ((env s.reads).turn s.cache.data.keys) with
  | none => rfl
  | some r =>
      simp only [Option.bind_eq_bind, Option.bind_some, Option.map_some, storeItem,
        NodeCache.put, NodeCache.draw, Moment.turn]
      generalize NodeCache.putLocked (_ : NodeCache ParsedValue) item.key _ _ = stored
      cases stored <;> rfl

/-- **A step of a pass does not change what it leads to.** -/
theorem finish_of_advance {s s' : Monitor} {pc pc' : PassPc}
    (h : advance p env s pc = some (s', pc')) : finish p env s' pc' = finish p env s pc := by
  cases pc with
  | between rest =>
      cases rest with
      | nil => cases h
      | cons g rest =>
          cases h
          rw [finish, finish, run_cons, pollGroup, Option.bind_map]
          rfl
  | polling name ok items rest =>
      cases items with
      | nil =>
          cases h
          rfl
      | cons item items =>
          obtain ⟨⟨s₁, val, valid⟩, hr, heq⟩ := Option.map_eq_some_iff.mp h
          cases heq
          rw [finish, finish, run_cons, pollItem_eq, hr]
          simp only [Option.bind_some, Option.bind_map, Function.comp_def, Option.bind_assoc]
  | putting name ok item val items rest =>
      obtain ⟨s₁, hs, heq⟩ := Option.map_eq_some_iff.mp h
      cases heq
      rw [finish, finish, hs]
      rfl

end Monitor

/-! ## The threads -/

variable {Tid : Type}

/-- A call under the mutex of the groups. -/
inductive Call
  | groups (op : GroupOp)
  | pollOnce (name : String)

def Call.op : Call → Op
  | .groups op => .groups op
  | .pollOnce name => .poll (.pollOnce name)

/-- What a thread other than the poll thread does: it waits for the mutex, or makes a
pass. -/
inductive Ctl
  | idle
  | waiting (c : Call)
  | polling

/-- The points of the poll thread: before it looks at `running_`, before it takes the mutex,
in its pass, asleep, and at its end. -/
inductive ThreadPc
  | check
  | locking
  | polling
  | sleeping
  | ended
  deriving DecidableEq

/-- `start` before it creates the thread, and `stop` before it joins it. -/
inductive Life
  | starting
  | joining

inductive Agent (Tid : Type)
  | thread
  | caller (t : Tid)
  deriving DecidableEq

/-- What happens to the poll thread: it is created, `running_` is cleared, it is joined, and
it begins a pass. -/
inductive LifeEvent
  | start
  | stop
  | joined
  | pass
  deriving DecidableEq

/-- The poller, its threads, and their history. -/
structure Polling (Tid : Type) where
  mon : Monitor
  ctl : Tid → Ctl := fun _ => .idle
  /-- The mutex, with the pass made under it. -/
  mutex : Option (Agent Tid × PassPc) := none
  running : Bool := false
  /-- `poll_thread_`, if it is joinable. -/
  thread : Option ThreadPc := none
  /-- The call of `start` or `stop` in progress. -/
  life : Option (Tid × Life) := none
  /-- Ghost: the calls. -/
  called : List (Tid × Call) := []
  /-- Ghost: what was done under the mutex. -/
  ops : List (Agent Tid × Op) := []
  /-- Ghost. -/
  log : List LifeEvent := []

/-- The atomic steps of the threads. -/
inductive PollLabel (Tid : Type)
  | call (t : Tid) (c : Call)
  /-- The mutex is taken. -/
  | enter (a : Agent Tid)
  /-- The next step of the pass under the mutex. -/
  | advance
  /-- The mutex is released after a pass. -/
  | leave
  | start (t : Tid)
  | launch
  | stop (t : Tid)
  | join
  | check
  /-- The sleep of the poll thread ends. -/
  | wake

namespace Polling

/-- A new poller with a new cache. -/
def start (maxSize : ℕ) (onChange : Bool) : Polling Tid := { mon := .start maxSize onChange }

/-- The thread is in no call. -/
def Free (s : Polling Tid) (t : Tid) : Prop := s.ctl t = .idle ∧ ∀ x ∈ s.life, x.1 ≠ t

/-- A section of the mutex begins. -/
def record (s : Polling Tid) (a : Agent Tid) (op : Op) : Polling Tid :=
  { s with ops := s.ops ++ [(a, op)] }

/-- A pass begins. -/
def hold (s : Polling Tid) (a : Agent Tid) (pass : Pass) : Polling Tid :=
  { s.record a (.poll pass) with mutex := some (a, .between (pass.visits s.mon.groups)) }

variable [DecidableEq Tid]

instance (s : Polling Tid) (t : Tid) : Decidable (s.Free t) :=
  match h : s.ctl t with
  | .idle => decidable_of_iff (∀ x ∈ s.life, x.1 ≠ t) (by simp [Free, h])
  | .waiting _ | .polling => .isFalse (by simp [Free, h])

def goto (s : Polling Tid) (t : Tid) (c : Ctl) : Polling Tid :=
  { s with ctl := Function.update s.ctl t c }

section Step

variable (p : PlcPoller) (env : ℕ → Moment)

/-- The mutex is free, and a thread takes it. -/
def enter (s : Polling Tid) : Agent Tid → Option (Polling Tid)
  | .caller t =>
      match s.ctl t with
      | .waiting (.groups op) =>
          some { (s.goto t .idle).record (.caller t) (.groups op) with
            mon := { s.mon with groups := op.apply s.mon.groups } }
      | .waiting (.pollOnce name) => some ((s.goto t .polling).hold (.caller t) (.pollOnce name))
      | _ => none
  | .thread =>
      if s.thread = some .locking then
        some { s.hold .thread .pollThread with
          thread := some .polling
          log := s.log ++ [.pass] }
      else none

/-- The pass under the mutex is over. -/
def leave (s : Polling Tid) : Agent Tid → Polling Tid
  | .caller t => { s.goto t .idle with mutex := none }
  | .thread => { s with mutex := none, thread := some .sleeping }

/-- **The step relation.** -/
def step (s : Polling Tid) : PollLabel Tid → Option (Polling Tid)
  | .call t c =>
      if s.Free t then some { s.goto t (.waiting c) with called := s.called ++ [(t, c)] } else none
  | .enter a => if s.mutex.isNone then s.enter a else none
  | .advance =>
      match s.mutex with
      | some (a, pc) =>
          (s.mon.advance p env pc).map fun r => { s with mon := r.1, mutex := some (a, r.2) }
      | none => none
  | .leave =>
      match s.mutex with
      | some (a, .between []) => some (s.leave a)
      | _ => none
  | .start t =>
      if s.Free t ∧ s.life.isNone then
        if s.running then some s else some { s with running := true, life := some (t, .starting) }
      else none
  | .launch =>
      match s.life with
      | some (_, .starting) =>
          -- assigning to a joinable thread object would end the program
          if s.thread = none then
            some { s with thread := some .check, life := none, log := s.log ++ [.start] }
          else none
      | _ => none
  | .stop t =>
      if s.Free t ∧ s.life.isNone then
        some { s with running := false, life := some (t, .joining), log := s.log ++ [.stop] }
      else none
  | .join =>
      match s.life with
      | some (_, .joining) =>
          if s.thread = none ∨ s.thread = some .ended then
            some { s with thread := none, life := none, log := s.log ++ [.joined] }
          else none
      | _ => none
  | .check =>
      if s.thread = some .check then
        some { s with thread := some (if s.running then .locking else .ended) }
      else none
  | .wake =>
      if s.thread = some .sleeping then some { s with thread := some .check } else none

/-- The outcomes of a step. -/
inductive Steps (s : Polling Tid) : PollLabel Tid → Polling Tid → Prop
  | call {t : Tid} (c : Call) (hfree : s.Free t) :
      Steps s (.call t c) { s.goto t (.waiting c) with called := s.called ++ [(t, c)] }
  | change {t : Tid} {op : GroupOp} (hmutex : s.mutex = none)
      (hctl : s.ctl t = .waiting (.groups op)) :
      Steps s (.enter (.caller t)) { (s.goto t .idle).record (.caller t) (.groups op) with
        mon := { s.mon with groups := op.apply s.mon.groups } }
  | pollOnce {t : Tid} {name : String} (hmutex : s.mutex = none)
      (hctl : s.ctl t = .waiting (.pollOnce name)) :
      Steps s (.enter (.caller t)) ((s.goto t .polling).hold (.caller t) (.pollOnce name))
  | pass (hmutex : s.mutex = none) (hthread : s.thread = some .locking) :
      Steps s (.enter .thread) { s.hold .thread .pollThread with
        thread := some .polling
        log := s.log ++ [.pass] }
  | advance {a : Agent Tid} {pc pc' : PassPc} {mon : Monitor} (hmutex : s.mutex = some (a, pc))
      (hadvance : s.mon.advance p env pc = some (mon, pc')) :
      Steps s .advance { s with mon := mon, mutex := some (a, pc') }
  | leave {t : Tid} (hmutex : s.mutex = some (.caller t, .between [])) :
      Steps s .leave { s.goto t .idle with mutex := none }
  | sleep (hmutex : s.mutex = some (.thread, .between [])) :
      Steps s .leave { s with mutex := none, thread := some .sleeping }
  | runs {t : Tid} (hfree : s.Free t) (hlife : s.life = none) (hrunning : s.running = true) :
      Steps s (.start t) s
  | start {t : Tid} (hfree : s.Free t) (hlife : s.life = none) (hrunning : s.running = false) :
      Steps s (.start t) { s with running := true, life := some (t, .starting) }
  | launch {t : Tid} (hlife : s.life = some (t, .starting)) (hthread : s.thread = none) :
      Steps s .launch { s with thread := some .check, life := none, log := s.log ++ [.start] }
  | stop {t : Tid} (hfree : s.Free t) (hlife : s.life = none) :
      Steps s (.stop t)
        { s with running := false, life := some (t, .joining), log := s.log ++ [.stop] }
  | join {t : Tid} (hlife : s.life = some (t, .joining))
      (hthread : s.thread = none ∨ s.thread = some .ended) :
      Steps s .join { s with thread := none, life := none, log := s.log ++ [.joined] }
  | check (hthread : s.thread = some .check) :
      Steps s .check { s with thread := some (if s.running then .locking else .ended) }
  | wake (hthread : s.thread = some .sleeping) : Steps s .wake { s with thread := some .check }

end Step

variable {p : PlcPoller} {env : ℕ → Moment}

theorem step_steps {s s' : Polling Tid} {l : PollLabel Tid} (h : s.step p env l = some s') :
    Steps p env s l s' := by
  cases l with
  | call t c =>
      obtain ⟨hfree, hs⟩ := Option.ite_none_right_eq_some.mp h
      cases hs
      exact .call c hfree
  | enter a =>
      obtain ⟨hmutex, hs⟩ := Option.ite_none_right_eq_some.mp h
      rw [Option.isNone_iff_eq_none] at hmutex
      cases a with
      | caller t =>
          simp only [enter] at hs
          split at hs <;> cases hs
          · exact .change hmutex ‹_›
          · exact .pollOnce hmutex ‹_›
      | thread =>
          obtain ⟨hthread, hs⟩ := Option.ite_none_right_eq_some.mp hs
          cases hs
          exact .pass hmutex hthread
  | advance =>
      simp only [step] at h
      split at h
      · obtain ⟨⟨mon, pc'⟩, hadvance, heq⟩ := Option.map_eq_some_iff.mp h
        cases heq
        exact .advance ‹_› hadvance
      · cases h
  | leave =>
      simp only [step] at h
      split at h
      · rename_i a hmutex
        cases h
        cases a with
        | caller t => exact .leave hmutex
        | thread => exact .sleep hmutex
      · cases h
  | start t =>
      obtain ⟨⟨hfree, hlife⟩, hs⟩ := Option.ite_none_right_eq_some.mp h
      rw [Option.isNone_iff_eq_none] at hlife
      cases hrunning : s.running with
      | true =>
          rw [if_pos hrunning] at hs
          cases hs
          exact .runs hfree hlife hrunning
      | false =>
          rw [if_neg (by simp [hrunning])] at hs
          cases hs
          exact .start hfree hlife hrunning
  | launch =>
      simp only [step] at h
      split at h
      · obtain ⟨hthread, hs⟩ := Option.ite_none_right_eq_some.mp h
        cases hs
        exact .launch ‹_› hthread
      · cases h
  | stop t =>
      obtain ⟨⟨hfree, hlife⟩, hs⟩ := Option.ite_none_right_eq_some.mp h
      cases hs
      exact .stop hfree (Option.isNone_iff_eq_none.mp hlife)
  | join =>
      simp only [step] at h
      split at h
      · obtain ⟨hthread, hs⟩ := Option.ite_none_right_eq_some.mp h
        cases hs
        exact .join ‹_› hthread
      · cases h
  | check =>
      obtain ⟨hthread, hs⟩ := Option.ite_none_right_eq_some.mp h
      cases hs
      exact .check hthread
  | wake =>
      obtain ⟨hthread, hs⟩ := Option.ite_none_right_eq_some.mp h
      cases hs
      exact .wake hthread

/-! ## Who holds the mutex -/

/-- The holder of the mutex makes a pass, and nobody else does. -/
structure Held (s : Polling Tid) : Prop where
  caller : ∀ t, s.ctl t = .polling ↔ ∃ pc, s.mutex = some (.caller t, pc)
  thread : s.thread = some .polling ↔ ∃ pc, s.mutex = some (.thread, pc)

omit [DecidableEq Tid] in
theorem held_start (m : ℕ) (onChange : Bool) : Held (start m onChange : Polling Tid) where
  caller := by simp [start]
  thread := by simp [start]

theorem ctl_goto (s : Polling Tid) (t u : Tid) (c : Ctl) :
    (s.goto t c).ctl u = if u = t then c else s.ctl u := Function.update_apply _ _ _ _

/-- A thread that makes no pass goes on without one. -/
theorem Held.goto {s : Polling Tid} (h : Held s) {t : Tid} {c : Ctl} (ht : s.ctl t ≠ .polling)
    (hc : c ≠ .polling) (u : Tid) :
    (s.goto t c).ctl u = .polling ↔ ∃ pc, s.mutex = some (.caller u, pc) := by
  rw [ctl_goto]
  split
  case isTrue hu =>
    subst hu
    exact iff_of_false hc (mt (h.caller u).mpr ht)
  case isFalse => exact h.caller u

theorem Held.step {s s' : Polling Tid} {l : PollLabel Tid} (h : Held s)
    (hs : Steps p env s l s') : Held s' := by
  cases hs with
  | call c hfree => exact ⟨h.goto (by simp [hfree.1]) (by simp), h.thread⟩
  | change hmutex hctl => exact ⟨h.goto (by simp [hctl]) (by simp), h.thread⟩
  | @pollOnce t name hmutex hctl =>
      constructor
      · intro u
        have hu := h.caller u
        by_cases hut : u = t
        · subst hut
          simp [hold, record, Polling.goto]
        · simp only [hmutex, reduceCtorEq, exists_false, iff_false] at hu
          simp [hold, record, Polling.goto, hut, hu, Ne.symm hut]
      · have hthread := h.thread
        simp only [hmutex, reduceCtorEq, exists_false, iff_false] at hthread
        simp [hold, record, Polling.goto, hthread]
  | pass hmutex hthread =>
      constructor
      · intro u
        have hu := h.caller u
        simp only [hmutex, reduceCtorEq, exists_false, iff_false] at hu
        simp [hold, record, hu]
      · simp [hold, record]
  | @advance a pc pc' mon hmutex hadvance =>
      constructor
      · intro u
        rw [h.caller u]
        simp [hmutex]
      · rw [h.thread]
        simp [hmutex]
  | @leave t hmutex =>
      constructor
      · intro u
        have hu := h.caller u
        by_cases hut : u = t
        · simp [Polling.goto, hut]
        · simp only [hmutex, Option.some.injEq, Prod.mk.injEq, Agent.caller.injEq, Ne.symm hut,
            false_and, exists_false, iff_false] at hu
          simp [Polling.goto, hut, hu]
      · have hthread := h.thread
        simp only [hmutex, Option.some.injEq, Prod.mk.injEq, reduceCtorEq, false_and,
          exists_false, iff_false] at hthread
        simp [Polling.goto, hthread]
  | sleep hmutex =>
      constructor
      · intro u
        have hu := h.caller u
        simp only [hmutex, Option.some.injEq, Prod.mk.injEq, reduceCtorEq, false_and,
          exists_false, iff_false] at hu
        simp [hu]
      · simp
  | runs => exact h
  | start | stop => exact ⟨h.caller, h.thread⟩
  | launch hlife hthread =>
      have hpass := h.thread
      rw [hthread] at hpass
      exact ⟨h.caller, iff_of_false (by simp) (mt hpass.mpr (by simp))⟩
  | join hlife hthread =>
      refine ⟨h.caller, iff_of_false (by simp) (mt h.thread.mpr ?_)⟩
      rcases hthread with hthread | hthread <;> simp [hthread]
  | check hthread =>
      refine ⟨h.caller, iff_of_false ?_ (mt h.thread.mpr (by simp [hthread]))⟩
      simp only [Option.some.injEq]
      split <;> simp
  | wake hthread =>
      exact ⟨h.caller, iff_of_false (by simp) (mt h.thread.mpr (by simp [hthread]))⟩

/-! ## One after the other -/

/-- What the poller comes to when the pass in progress is over. -/
def completed (p : PlcPoller) (env : ℕ → Moment) (s : Polling Tid) : Option Monitor :=
  match s.mutex with
  | none => some s.mon
  | some (_, pc) => s.mon.finish p env pc

/-- What was done by one of the threads. -/
def doneBy (a : Agent Tid) (ops : List (Agent Tid × Op)) : List Op :=
  ops.filterMap fun x => if x.1 = a then some x.2 else none

/-- What a thread called. -/
def calledBy (t : Tid) (called : List (Tid × Call)) : List Op :=
  called.filterMap fun x => if x.1 = t then some x.2.op else none

/-- The call that waits for the mutex. -/
def pending : Ctl → List Op
  | .waiting c => [c.op]
  | _ => []

/-- A step does what it does under the mutex to the completed state, or leaves it as it
is. -/
theorem completed_step {s s' : Polling Tid} {l : PollLabel Tid} (hs : Steps p env s l s') :
    s'.ops = s.ops ∧ s'.completed p env = s.completed p env ∨
      ∃ a op, s'.ops = s.ops ++ [(a, op)] ∧ s.completed p env = some s.mon ∧
        s'.completed p env = s.mon.perform p env op := by
  cases hs with
  | change hmutex hctl =>
      refine .inr ⟨_, _, rfl, by simp [completed, hmutex], ?_⟩
      simp [completed, record, goto, hmutex, Monitor.perform]
  | pollOnce hmutex hctl => exact .inr ⟨_, _, rfl, by simp [completed, hmutex], rfl⟩
  | pass hmutex hthread => exact .inr ⟨_, _, rfl, by simp [completed, hmutex], rfl⟩
  | advance hmutex hadvance =>
      refine .inl ⟨rfl, ?_⟩
      simp only [completed, hmutex]
      exact Monitor.finish_of_advance hadvance
  | leave hmutex =>
      refine .inl ⟨rfl, ?_⟩
      simp [completed, hmutex, Monitor.finish, goto]
  | sleep hmutex =>
      refine .inl ⟨rfl, ?_⟩
      simp [completed, hmutex, Monitor.finish]
  | _ => exact .inl ⟨rfl, rfl⟩

/-- What is done under the mutex is what was called, in the order of each thread. -/
theorem inOrder_step {s s' : Polling Tid} {l : PollLabel Tid} (hheld : Held s)
    (h : ∀ t, calledBy t s.called = doneBy (.caller t) s.ops ++ pending (s.ctl t))
    (hs : Steps p env s l s') (u : Tid) :
    calledBy u s'.called = doneBy (.caller u) s'.ops ++ pending (s'.ctl u) := by
  have hu := h u
  cases hs with
  | @call t c hfree =>
      have hidle := hfree.1
      by_cases hut : u = t
      · subst hut
        simp_all [calledBy, pending, goto]
      · simp_all [calledBy, pending, goto, Ne.symm hut]
  | @change t op hmutex hctl =>
      by_cases hut : u = t
      · subst hut
        simp_all [doneBy, pending, goto, record, Call.op]
      · simp_all [doneBy, pending, goto, record, Ne.symm hut]
  | @pollOnce t name hmutex hctl =>
      by_cases hut : u = t
      · subst hut
        simp_all [doneBy, pending, goto, hold, record, Call.op]
      · simp_all [doneBy, pending, goto, hold, record, Ne.symm hut]
  | pass hmutex hthread => simpa [doneBy, hold, record] using hu
  | @leave t hmutex =>
      have hpolling := (hheld.caller t).mpr ⟨_, hmutex⟩
      by_cases hut : u = t
      · subst hut
        simpa [pending, goto, hpolling] using hu
      · simpa [goto, hut] using hu
  | _ => exact hu

/-- **One after the other.**  In every run, what the threads do under the mutex leaves the
groups, the cache and the callbacks as if it had been done by one thread, each operation
with all its reads and puts before the next; a pass in progress leads there.  Every thread
has done what it called, in the order in which it called it, but for the call that waits. -/
theorem serial (m : ℕ) (onChange : Bool) (ls : List (PollLabel Tid)) :
    Throughout (step p env)
      (fun s => run (Monitor.perform p env) (.start m onChange) (s.ops.map Prod.snd) =
          s.completed p env ∧
        ∀ t, calledBy t s.called = doneBy (.caller t) s.ops ++ pending (s.ctl t))
      (start m onChange) ls := by
  have hall : Throughout (step p env)
      (fun s => Held s ∧ run (Monitor.perform p env) (.start m onChange) (s.ops.map Prod.snd) =
          s.completed p env ∧
        ∀ t, calledBy t s.called = doneBy (.caller t) s.ops ++ pending (s.ctl t))
      (start m onChange) ls := by
    refine throughout_of_step (fun s l s' h hs => ?_) ⟨held_start m onChange, rfl, ?_⟩ ls
    · obtain ⟨hheld, hrun, horder⟩ := h
      have hsteps := step_steps hs
      refine ⟨hheld.step hsteps, ?_, inOrder_step hheld horder hsteps⟩
      rcases completed_step hsteps with ⟨hops, hsame⟩ | ⟨a, op, hops, hmon, hop⟩
      · rw [hops, hrun, hsame]
      · rw [hops, List.map_append, run_append, hrun, hmon, hop]
        simp
    · simp [start, calledBy, doneBy, pending]
  exact hall.imp fun s h => h.2

/-! ## What a reader of the cache sees -/

/-- A client that is connected to a server with one node, and a clock that ticks. -/
def plcMoment (k : ℕ) : Moment :=
  ⟨⟨true⟩, oneNode, .ofNat k, id, List.Perm.refl⟩

end Polling
end Opencode.Opcua
