import Mathlib
import Opencode.Lib.Settle
import Opencode.Stage.Protocol

/-!
# Every call returns

A caller of `wait` sleeps until `done_` is set, `start` waits with the mutex held until
the thread of the last run has ended, and the worker needs that mutex to set `done_`.
Whatever the calls in progress, the pipeline does not block: with no further call it
comes to rest, where the thread of the worker has ended and every call has returned.
Stop requests may come at any time, and a start in progress still gets its run.  A stage
and the cleanup are one step each: that their calls end by themselves is taken for granted.

## Main definitions

* `Worker.remaining`, `Ctl.remaining` — how many steps a party has at most before it.
* `Pipeline.AtRest` — nothing is in progress.
* `comesToRest_throughout` — the pipeline comes to rest, from every state of every run.
-/

namespace Opencode.Stage

open Opencode.Lib
open scoped BigOperators

variable {St C X Tid : Type}

/-! ## What is left to do -/

/-- The steps a run of `n` stages has before it. -/
def Worker.remaining (n : ℕ) : Worker St X → ℕ
  | .exited => 0
  | .notify => 1
  | .finish _ => 2
  | .inCleanup _ _ => 3
  | .clean _ _ => 4
  | .after _ _ => 5
  | .head i => 4 * (n - i) + 6
  | .call i => 4 * (n - i) + 5
  | .inStage i _ => 4 * (n - i) + 4
  | .check i => 4 * (n - i) + 3

/-- The steps of a call in progress, with those of the run it is about to create. -/
def Ctl.remaining : Ctl St C → ℕ
  | .idle => 0
  | .leaving => 1
  | .spawning cfg => 4 * cfg.1.length + 8
  | .resetting cfg => 4 * cfg.1.length + 9
  | .starting cfg => 4 * cfg.1.length + 10
  | .rethrowing _ => 1
  | .waiting _ => 2

/-- The thread is inside `start` and has joined the handle of the last run. -/
def Ctl.hasJoined : Ctl St C → Bool
  | .resetting _ | .spawning _ => true
  | _ => false

theorem Ctl.inStart_of_hasJoined {c : Ctl St C} (h : c.hasJoined = true) : c.inStart = true := by
  cases c <;> simp_all [hasJoined, inStart]

namespace Pipeline

/-- The step carries on a call. -/
def Action.carriesOn : Action St C → Bool
  | .join | .reset | .spawn _ | .unlock | .awake | .rethrow => true
  | _ => false

/-- A step of the worker, or one that carries on a call. -/
def Label.own : Label St C X Tid → Bool
  | .worker _ => true
  | .thread _ a => a.carriesOn

def Label.isRequestStop : Label St C X Tid → Bool
  | .thread _ .requestStop => true
  | _ => false

/-- The thread of the worker has ended and every call has returned. -/
def AtRest (s : Pipeline St C X Tid) : Prop := s.worker = .exited ∧ ∀ t, s.ctl t = .idle

/-! ## The invariant -/

/-- The mutex is held by a thread inside `start`, which has joined the handle before it
goes on, and a pipeline that counts as running has an active worker. -/
structure Live (s : Pipeline St C X Tid) : Prop where
  invariant : Invariant s
  working : s.runningLocked = true → s.worker.active = true
  held : ∀ t, s.mutex = some t → (s.ctl t).inStart = true
  joined : ∀ t, (s.ctl t).hasJoined = true → s.joinable = false

theorem Live.init : Live ({} : Pipeline St C X Tid) where
  invariant := Invariant.init
  working h := by simp [runningLocked] at h
  held t h := by simp at h
  joined t h := by simp [Ctl.hasJoined] at h

/-- A step of the worker that ends in a running pipeline leaves the worker active. -/
theorem working_workerStep {s s' : Pipeline St C X Tid} {outcome : Option X}
    (hstep : s.workerStep outcome = some s')
    (h : s.runningLocked = true → s.worker.active = true) (hr : s'.runningLocked = true) :
    s'.worker.active = true := by
  cases hw : s.worker <;> simp only [workerStep, hw] at hstep
  case exited => cases hstep
  case notify =>
    cases hstep
    exact absurd (h hr) (by simp [hw, Worker.active])
  case call i =>
    obtain ⟨st, -, rfl⟩ := Option.map_eq_some_iff.mp hstep
    rfl
  case finish failure =>
    split at hstep <;> cases hstep
    simp [runningLocked, emit] at hr
  all_goals
    repeat' split at hstep
  all_goals
    cases hstep
    rfl

variable [DecidableEq Tid]

omit [DecidableEq Tid] in
theorem Live.worker {s s' : Pipeline St C X Tid} {outcome : Option X} (h : Live s)
    (hstep : s.workerStep outcome = some s') (hinv : Invariant s') : Live s' := by
  have f : WorkerFrame s s' := workerStep_frame hstep
  refine ⟨hinv, working_workerStep hstep h.working, fun t ht => ?_, fun t ht => ?_⟩
  · rw [f.ctl]
    exact h.held t (f.mutex ▸ ht)
  · rw [f.joinable]
    exact h.joined t (f.ctl ▸ ht)

/-- What holds of the thread that moves, and of the others where they are. -/
theorem forall_ctl_move {s : Pipeline St C X Tid} {P : Tid → Ctl St C → Prop} {t : Tid}
    {c : Ctl St C} (hself : P t c) (hother : ∀ u, u ≠ t → P u (s.ctl u)) (u : Tid) :
    P u ((s.move t c).ctl u) := by
  by_cases hu : u = t
  · subst hu
    rwa [move_ctl_self]
  · rw [move_ctl_of_ne s c hu]
    exact hother u hu

/-- A thread that waits for nothing of `start` moves on. -/
theorem Live.moved {s s' : Pipeline St C X Tid} {t : Tid} {c : Ctl St C} (h : Live s)
    (hinv : Invariant s') (hctl : s'.ctl = (s.move t c).ctl) (hmutex : s'.mutex = s.mutex)
    (hdone : s'.done = s.done) (hjoinable : s'.joinable = s.joinable)
    (hworker : s'.worker = s.worker) (hstart : s.mutex = some t → c.inStart = true)
    (hjoined : c.hasJoined = true → s.joinable = false) : Live s' where
  invariant := hinv
  working hr := by
    rw [runningLocked, hdone, hjoinable] at hr
    rw [hworker]
    exact h.working hr
  held := by
    rw [hctl, hmutex]
    exact forall_ctl_move (P := fun u c => s.mutex = some u → c.inStart = true) hstart
      fun u _ => h.held u
  joined := by
    rw [hctl, hjoinable]
    exact forall_ctl_move (P := fun _ c => c.hasJoined = true → s.joinable = false) hjoined
      fun u _ => h.joined u

theorem Live.thread {s s' : Pipeline St C X Tid} {t : Tid} {a : Action St C} (h : Live s)
    (hm : Moves s t a s') (hinv : Invariant s') : Live s' := by
  have hh : Handles s := h.invariant.handles
  cases hm with
  | refused _ => exact h
  | setSteps hc hmut hr | setCleanup hc hmut hr => exact ⟨hinv, h.working, h.held, h.joined⟩
  | start hc hmut hr =>
      refine ⟨hinv, h.working, fun u hu => ?_, ?_⟩
      · obtain rfl : t = u := by simpa [move] using hu
        simp [move, Ctl.inStart]
      · exact forall_ctl_move (P := fun _ c => c.hasJoined = true → s.joinable = false)
          (by simp [Ctl.hasJoined]) fun u _ => h.joined u
  | @join cfg hc hj =>
      have hin : (s.ctl t).inStart = true := by rw [hc]; rfl
      refine ⟨hinv, fun hr => by simp [runningLocked, move] at hr, ?_, fun _ _ => rfl⟩
      exact forall_ctl_move (P := fun u c => s.mutex = some u → c.inStart = true)
        (fun _ => rfl) fun u _ => h.held u
  | @reset cfg hc =>
      exact h.moved (c := .spawning cfg) hinv rfl rfl rfl rfl rfl (fun _ => rfl)
        fun _ => h.joined t (by rw [hc]; rfl)
  | @spawned cfg hc =>
      have hin : (s.ctl t).inStart = true := by rw [hc]; rfl
      refine ⟨hinv, fun _ => rfl, ?_, ?_⟩
      · exact forall_ctl_move (P := fun u c => s.mutex = some u → c.inStart = true)
          (fun _ => rfl) fun u _ => h.held u
      · refine forall_ctl_move (P := fun _ c => c.hasJoined = true → true = false)
          (by simp [Ctl.hasJoined]) fun u hu hju => ?_
        exact absurd (Ctl.inStart_of_hasJoined hju) (hh.not_inStart_of_ne hin hu)
  | @notSpawned cfg hc =>
      have hj : s.joinable = false := h.joined t (by rw [hc]; rfl)
      refine ⟨hinv, fun hr => ?_, fun u hu => by simp [move] at hu, fun _ _ => hj⟩
      simp [runningLocked, move, hj] at hr
  | unlock hc =>
      refine ⟨hinv, h.working, fun u hu => by simp [move, record] at hu, ?_⟩
      exact forall_ctl_move (P := fun _ c => c.hasJoined = true → s.joinable = false)
        (by simp [Ctl.hasJoined]) fun u _ => h.joined u
  | requestStop hc => exact ⟨hinv, h.working, h.held, h.joined⟩
  | stop hc | wait hc =>
      refine h.moved (c := .waiting s.inProgress) hinv rfl rfl rfl rfl rfl (fun hmut => ?_)
        (by simp [Ctl.hasJoined])
      exact absurd (h.held t hmut) (by simp [hc, Ctl.inStart])
  | @awake called hc hmut hd =>
      exact h.moved (c := .rethrowing called) hinv rfl rfl rfl rfl rfl (by simp [hmut])
        (by simp [Ctl.hasJoined])
  | @rethrow called hc hmut =>
      exact h.moved (c := .idle) hinv rfl rfl rfl rfl rfl (by simp [hmut])
        (by simp [Ctl.hasJoined])

theorem Live.step {s s' : Pipeline St C X Tid} {l : Label St C X Tid} (h : Live s)
    (hstep : s.step l = some s') : Live s' := by
  have hinv : Invariant s' := h.invariant.step hstep
  cases l with
  | worker outcome => exact h.worker hstep hinv
  | thread t a => exact h.thread (threadStep_moves hstep) hinv

/-! ## Steps are left as long as something is in progress -/

/-- Outside these threads nobody is inside a call. -/
def Within (T : Finset Tid) (s : Pipeline St C X Tid) : Prop := ∀ t ∉ T, s.ctl t = .idle

/-- The steps the worker and the calls in progress have before them. -/
def remaining (T : Finset Tid) (s : Pipeline St C X Tid) : ℕ :=
  s.worker.remaining s.steps.length + ∑ t ∈ T, (s.ctl t).remaining

omit [DecidableEq Tid] in
theorem Within.mem {T : Finset Tid} {s : Pipeline St C X Tid} (h : Within T s) {t : Tid}
    (ht : s.ctl t ≠ .idle) : t ∈ T := by
  by_contra hT
  exact ht (h t hT)

omit [DecidableEq Tid] in
/-- A stage the worker is at is one of the vector. -/
theorem Live.at_worker {s : Pipeline St C X Tid} (h : Live s) (hw : s.worker.active = true) :
    At s.config s.worker (events s.latest s.log) :=
  h.invariant.traces.now s.config (h.invariant.handles.config hw)

omit [DecidableEq Tid] in
theorem remaining_workerStep {s s' : Pipeline St C X Tid} {outcome : Option X} (h : Live s)
    (hstep : s.workerStep outcome = some s') :
    s'.worker.remaining s.steps.length < s.worker.remaining s.steps.length := by
  have hat := h.at_worker
  cases hw : s.worker <;> simp only [workerStep, hw] at hstep hat
  case exited => cases hstep
  case head i =>
    split at hstep <;> cases hstep <;> simp [Worker.remaining, goto]
  case call i =>
    obtain ⟨st, -, rfl⟩ := Option.map_eq_some_iff.mp hstep
    simp [Worker.remaining, emit]
  case inStage i st =>
    obtain ⟨hst, -⟩ := hat rfl
    have hi : i < s.steps.length := (List.getElem?_eq_some_iff.mp hst).1
    split at hstep <;> cases hstep <;> simp only [Worker.remaining, emit] <;> omega
  case check i =>
    obtain ⟨hi, -⟩ := hat rfl
    simp only [Pipeline.config] at hi
    split at hstep <;> cases hstep <;> simp only [Worker.remaining, goto] <;> omega
  case finish failure =>
    split at hstep <;> cases hstep
    simp [Worker.remaining, emit]
  all_goals
    repeat' split at hstep
  all_goals
    cases hstep
    simp [Worker.remaining, emit, goto]

/-- A thread that carries on a call is inside one, and less is left of the call
afterwards, with the run it may have created. -/
theorem remaining_threadStep {s s' : Pipeline St C X Tid} {t : Tid} {a : Action St C}
    (h : Live s) (hstep : s.threadStep t a = some s') (ha : a.carriesOn = true) :
    s.ctl t ≠ .idle ∧ ∃ c, s'.ctl = Function.update s.ctl t c ∧ s'.steps = s.steps ∧
      s'.worker.remaining s.steps.length + c.remaining <
        s.worker.remaining s.steps.length + (s.ctl t).remaining := by
  have hplaced := (h.invariant.handles.placed t).2
  cases a with
  | setSteps | setCleanup | start | requestStop | stop | wait => cases ha
  | join =>
      cases hc : s.ctl t with
      | starting cfg =>
          simp only [threadStep, hc] at hstep
          split at hstep <;> cases hstep
          exact ⟨by simp, .resetting cfg, rfl, rfl, by simp [move, Ctl.remaining]⟩
      | _ => simp [threadStep, hc] at hstep
  | reset =>
      cases hc : s.ctl t with
      | resetting cfg =>
          simp only [threadStep, hc] at hstep
          cases hstep
          exact ⟨by simp, .spawning cfg, rfl, rfl, by simp [move, record, Ctl.remaining]⟩
      | _ => simp [threadStep, hc] at hstep
  | spawn created =>
      cases hc : s.ctl t with
      | spawning cfg =>
          obtain ⟨rfl, -⟩ := hplaced cfg (by rw [hc]; rfl)
          simp only [threadStep, hc] at hstep
          split at hstep <;> cases hstep
          · refine ⟨by simp, .leaving, rfl, rfl, ?_⟩
            simp only [move, Worker.remaining, Ctl.remaining, Pipeline.config]
            omega
          · exact ⟨by simp, .idle, rfl, rfl, by simp [move, Ctl.remaining]⟩
      | _ => simp [threadStep, hc] at hstep
  | unlock =>
      cases hc : s.ctl t with
      | leaving =>
          simp only [threadStep, hc] at hstep
          cases hstep
          exact ⟨by simp, .idle, rfl, rfl, by simp [move, record, Ctl.remaining]⟩
      | _ => simp [threadStep, hc] at hstep
  | awake =>
      cases hc : s.ctl t with
      | waiting called =>
          simp only [threadStep, hc] at hstep
          split at hstep <;> cases hstep
          exact ⟨by simp, .rethrowing called, rfl, rfl, by simp [move, Ctl.remaining]⟩
      | _ => simp [threadStep, hc] at hstep
  | rethrow =>
      cases hc : s.ctl t with
      | rethrowing called =>
          simp only [threadStep, hc] at hstep
          split at hstep <;> cases hstep
          exact ⟨by simp, .idle, rfl, rfl, by simp [move, record, Ctl.remaining]⟩
      | _ => simp [threadStep, hc] at hstep

/-- Every own step leaves less to do, among the same threads. -/
theorem remaining_lt {T : Finset Tid} {s s' : Pipeline St C X Tid} {l : Label St C X Tid}
    (h : Live s) (hT : Within T s) (hown : l.own = true) (hstep : s.step l = some s') :
    Within T s' ∧ remaining T s' < remaining T s := by
  cases l with
  | worker outcome =>
      have f : WorkerFrame s s' := workerStep_frame hstep
      have hlt := remaining_workerStep h hstep
      have hsteps : s'.steps = s.steps := congrArg Prod.fst f.config
      refine ⟨fun t ht => by rw [f.ctl]; exact hT t ht, ?_⟩
      rw [remaining, remaining, f.ctl, hsteps]
      omega
  | thread t a =>
      obtain ⟨hc, c, hctl, hsteps, hlt⟩ := remaining_threadStep h hstep hown
      have ht : t ∈ T := hT.mem hc
      have hsum := sum_update ht Ctl.remaining s.ctl c
      refine ⟨fun u hu => ?_, ?_⟩
      · rw [hctl, Function.update_of_ne (ne_of_mem_of_not_mem ht hu).symm]
        exact hT u hu
      · rw [remaining, remaining, hctl, hsteps]
        omega

theorem requestStop_step {T : Finset Tid} {s s' : Pipeline St C X Tid} {l : Label St C X Tid}
    (hT : Within T s) (hl : l.isRequestStop = true) (hstep : s.step l = some s') :
    Within T s' ∧ remaining T s' = remaining T s := by
  cases l with
  | worker outcome => cases hl
  | thread t a =>
      cases a with
      | requestStop =>
          cases hc : s.ctl t <;> simp only [Pipeline.step, threadStep, hc] at hstep <;>
            cases hstep
          exact ⟨hT, rfl⟩
      | _ => cases hl

omit [DecidableEq Tid] in
/-- The worker goes on, except to take a mutex that is not free. -/
theorem Live.worker_moves {s : Pipeline St C X Tid} (h : Live s) (hw : s.worker ≠ .exited)
    (hmutex : s.mutex = none ∨ s.worker = .notify) : ∃ s', s.workerStep none = some s' := by
  have hat := h.at_worker
  cases hc : s.worker <;> simp only [hc] at hat hw hmutex
  case exited => exact absurd rfl hw
  case call i =>
    obtain ⟨hi, -⟩ := hat rfl
    simp only [Pipeline.config] at hi
    exact ⟨_, by simp only [workerStep, hc, List.getElem?_eq_getElem hi, Option.map_some]; rfl⟩
  case finish failure =>
    have hm : s.mutex = none := by simpa using hmutex
    exact ⟨_, by simp only [workerStep, hc, hm, if_true]; rfl⟩
  case head i =>
    simp only [workerStep, hc]
    split <;> exact ⟨_, rfl⟩
  case check i =>
    simp only [workerStep, hc]
    split <;> exact ⟨_, rfl⟩
  case clean failure aborted =>
    simp only [workerStep, hc]
    split <;> exact ⟨_, rfl⟩
  all_goals exact ⟨_, by simp only [workerStep, hc]; rfl⟩

/-- The thread that holds the mutex goes on, or the worker it waits for has only to end. -/
theorem Live.holder_moves {s : Pipeline St C X Tid} (h : Live s) {t : Tid}
    (hm : s.mutex = some t) : ∃ l s', l.own = true ∧ s.step l = some s' := by
  have hin : (s.ctl t).inStart = true := h.held t hm
  cases hc : s.ctl t with
  | starting cfg =>
      have hw : s.worker.active = false :=
        ((h.invariant.handles.placed t).2 cfg (by rw [hc]; rfl)).2
      by_cases hworker : s.worker = .exited
      · exact ⟨.thread t .join, _, rfl, by
          simp only [Pipeline.step, threadStep, hc, hworker, Worker.alive, Bool.and_false]; rfl⟩
      · have hnotify : s.worker = .notify := by
          cases hs : s.worker <;> simp_all [Worker.active]
        obtain ⟨s', hs'⟩ := h.worker_moves hworker (.inr hnotify)
        exact ⟨.worker none, s', rfl, hs'⟩
  | resetting cfg =>
      exact ⟨.thread t .reset, _, rfl, by simp only [Pipeline.step, threadStep, hc]; rfl⟩
  | spawning cfg =>
      exact ⟨.thread t (.spawn true), _, rfl, by simp only [Pipeline.step, threadStep, hc]; rfl⟩
  | leaving =>
      exact ⟨.thread t .unlock, _, rfl, by simp only [Pipeline.step, threadStep, hc]; rfl⟩
  | _ => simp [hc, Ctl.inStart] at hin

/-- With the mutex free and the worker gone, every call in progress is one of `wait`,
and nothing keeps it. -/
theorem Live.waiter_moves {s : Pipeline St C X Tid} (h : Live s) (hm : s.mutex = none)
    (hw : s.worker = .exited) {t : Tid} (ht : s.ctl t ≠ .idle) :
    ∃ l s', l.own = true ∧ s.step l = some s' := by
  have hover : s.done = true ∨ s.joinable = false := by
    have hr : ¬ s.runningLocked = true := fun hr => by simpa [hw, Worker.active] using h.working hr
    rw [runningLocked] at hr
    cases hd : s.done <;> simp_all
  have hin := h.invariant.handles.not_inStart hm t
  cases hc : s.ctl t with
  | idle => exact absurd hc ht
  | waiting called =>
      exact ⟨.thread t .awake, _, rfl, by
        simp only [Pipeline.step, threadStep, hc, hm, hover, true_and, if_true]; rfl⟩
  | rethrowing called =>
      exact ⟨.thread t .rethrow, _, rfl, by
        simp only [Pipeline.step, threadStep, hc, hm, if_true]; rfl⟩
  | starting cfg | resetting cfg | spawning cfg | leaving => simp [hc, Ctl.inStart] at hin

/-- As long as something is in progress, something can go on. -/
theorem Live.moves {s : Pipeline St C X Tid} (h : Live s) :
    AtRest s ∨ ∃ l s', l.own = true ∧ s.step l = some s' := by
  cases hm : s.mutex with
  | some t => exact .inr (h.holder_moves hm)
  | none =>
      by_cases hw : s.worker = .exited
      · by_cases hidle : ∀ t, s.ctl t = .idle
        · exact .inl ⟨hw, hidle⟩
        · obtain ⟨t, ht⟩ := not_forall.mp hidle
          exact .inr (h.waiter_moves hm hw ht)
      · obtain ⟨s', hs'⟩ := h.worker_moves hw (.inl hm)
        exact .inr ⟨.worker none, s', rfl, hs'⟩

/-! ## The pipeline comes to rest -/

theorem settles (T : Finset Tid) :
    Settles (@step St C X Tid _) Label.own Label.isRequestStop
      (fun s => Live s ∧ Within T s) AtRest (remaining T) where
  keeps s l s' h hl hs := by
    refine ⟨h.1.step hs, ?_⟩
    rcases hl with hown | hcalm
    · exact (remaining_lt h.1 h.2 hown hs).1
    · exact (requestStop_step h.2 hcalm hs).1
  lowers s l s' h hown hs := (remaining_lt h.1 h.2 hown hs).2
  calm_le s l s' h hcalm hs := (requestStop_step h.2 hcalm hs).2.le
  moves s h := h.1.moves

/-- A step makes at most one more thread busy. -/
theorem exists_within {T : Finset Tid} {s s' : Pipeline St C X Tid} {l : Label St C X Tid}
    (hT : Within T s) (hstep : s.step l = some s') : ∃ T', Within T' s' := by
  cases l with
  | worker outcome =>
      have f : WorkerFrame s s' := workerStep_frame hstep
      exact ⟨T, fun t ht => by rw [f.ctl]; exact hT t ht⟩
  | thread t a =>
      refine ⟨insert t T, fun u hu => ?_⟩
      obtain ⟨hut, hu⟩ : u ≠ t ∧ u ∉ T := by simpa using hu
      have hctl : s'.ctl u = s.ctl u := by
        cases threadStep_moves hstep <;> simp [move, record, hut]
      exact hctl.trans (hT u hu)

/-- **Every call returns.**  From every state of every run the pipeline comes to rest once
no further call is made, however the worker and the calls in progress are scheduled and
whenever a stop is requested, as long as every stage and the cleanup end by themselves. -/
theorem comesToRest_throughout (ls : List (Label St C X Tid)) :
    Throughout Pipeline.step (ComesToRest Pipeline.step Label.own Label.isRequestStop AtRest)
      ({} : Pipeline St C X Tid) ls := by
  have hlive : Throughout Pipeline.step (fun s => Live s ∧ ∃ T, Within T s)
      ({} : Pipeline St C X Tid) ls :=
    throughout_of_step (fun s l s' h hs => ⟨h.1.step hs, h.2.elim fun _ hT => exists_within hT hs⟩)
      ⟨Live.init, ∅, fun _ _ => rfl⟩ ls
  exact hlive.imp fun s ⟨h, T, hT⟩ => (settles T).comesToRest ⟨h, hT⟩

end Pipeline

end Opencode.Stage
