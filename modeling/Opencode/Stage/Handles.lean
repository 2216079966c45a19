import Mathlib
import Opencode.Stage.Words

/-!
# The worker, the mutex and the words of the runs

Two invariants of the pipeline, each kept by every step of the worker and of the
controllers.  `Handles` is about the mutex, the thread handle and the configuration:
while a worker is active nobody is in the part of `start` that precedes its creation,
and the configuration is that of its run.  `Traces` is about the events of the runs:
every run but the latest has produced a complete word, and the latest one what the
place of the worker says.

## Main definitions

* `Pipeline.Handles`, `Pipeline.Traces` — the invariants.
* `at_workerStep` — a step of the worker takes its run from one point to the next.
-/

namespace Opencode.Stage

variable {St C X Tid : Type}

namespace Pipeline

/-! ## The mutex and the thread handle -/

section Handles

/-- A thread inside `start` holds the mutex, and up to the creation of the worker the
configuration stands and no worker is active. -/
def Placed (s : Pipeline St C X Tid) (t : Tid) (c : Ctl St C) : Prop :=
  (c.inStart = true → s.mutex = some t) ∧
    ∀ cfg, c.pending = some cfg → s.config = cfg ∧ s.worker.active = false

theorem Placed.of_not_inStart {s : Pipeline St C X Tid} {t : Tid} {c : Ctl St C}
    (h : ¬ c.inStart = true) : Placed s t c :=
  ⟨fun hc => absurd hc h, fun _ hc => absurd (Ctl.inStart_of_pending hc) h⟩

/-- The handle is joinable and `done_` unset while the worker is active, the active
worker runs the current configuration, and every thread is in its place. -/
structure Handles (s : Pipeline St C X Tid) : Prop where
  active : s.worker.active = true → s.joinable = true ∧ s.done = false
  started : s.joinable = true → 0 < s.configs.length
  config : s.worker.active = true → s.configs[s.latest]? = some s.config
  placed : ∀ t, Placed s t (s.ctl t)

theorem Handles.init : Handles ({} : Pipeline St C X Tid) where
  active h := by simp [Worker.active] at h
  started h := by simp at h
  config h := by simp [Worker.active] at h
  placed t := .of_not_inStart (by simp [Ctl.inStart])

/-- The worker is not active once `done_` is set or the handle joined. -/
theorem Handles.inactive {s : Pipeline St C X Tid} (h : Handles s)
    (hr : s.done = true ∨ s.joinable = false) : s.worker.active = false := by
  rw [← Bool.not_eq_true]
  intro hw
  obtain ⟨hj, hd⟩ := h.active hw
  simp [hj, hd] at hr

theorem Handles.inactive_of_not_running {s : Pipeline St C X Tid} (h : Handles s)
    (hr : s.runningLocked = false) : s.worker.active = false := by
  refine h.inactive ?_
  simp only [runningLocked, Bool.and_eq_false_iff, Bool.not_eq_false'] at hr
  exact hr.symm

/-- With the mutex free, nobody is inside `start`. -/
theorem Handles.not_inStart {s : Pipeline St C X Tid} (h : Handles s) (hm : s.mutex = none)
    (u : Tid) : ¬ (s.ctl u).inStart = true := by
  intro hu
  have hmu : s.mutex = some u := (h.placed u).1 hu
  simp [hm] at hmu

/-- While one thread is inside `start`, the others are outside. -/
theorem Handles.not_inStart_of_ne {s : Pipeline St C X Tid} (h : Handles s) {t u : Tid}
    (ht : (s.ctl t).inStart = true) (hne : u ≠ t) : ¬ (s.ctl u).inStart = true := by
  intro hu
  have heq : some u = some t := ((h.placed u).1 hu).symm.trans ((h.placed t).1 ht)
  exact hne (Option.some.inj heq)

theorem Handles.worker {s s' : Pipeline St C X Tid} (h : Handles s) (f : WorkerFrame s s') :
    Handles s' where
  active hw := by
    obtain ⟨hs, hd⟩ := f.active hw
    rw [f.joinable, hd]
    exact h.active hs
  started hj := by
    rw [f.configs]
    exact h.started (f.joinable ▸ hj)
  config hw := by
    rw [latest, f.configs, f.config]
    exact h.config (f.active hw).1
  placed t := by
    obtain ⟨hmut, hpend⟩ := h.placed t
    rw [Placed, f.ctl, f.mutex, f.config]
    refine ⟨hmut, fun cfg hcfg => ⟨(hpend cfg hcfg).1, ?_⟩⟩
    have hw : ¬ s.worker.active = true := by simp [(hpend cfg hcfg).2]
    rw [← Bool.not_eq_true]
    exact fun hs => hw (f.active hs).1

variable [DecidableEq Tid]

/-- The places after a thread has moved. -/
theorem placed_move {s : Pipeline St C X Tid} {t : Tid} {c : Ctl St C} (hself : Placed s t c)
    (hother : ∀ u, u ≠ t → Placed s u (s.ctl u)) (u : Tid) :
    Placed (s.move t c) u ((s.move t c).ctl u) := by
  by_cases hu : u = t
  · subst hu
    rw [move_ctl_self]
    exact hself
  · rw [move_ctl_of_ne s c hu]
    exact hother u hu

theorem Handles.thread {s s' : Pipeline St C X Tid} {t : Tid} {a : Action St C}
    (h : Handles s) (hm : Moves s t a s') : Handles s' := by
  cases hm with
  | refused _ => exact h
  | setSteps hc hmut hr | setCleanup hc hmut hr =>
      have hw : s.worker.active = false := h.inactive_of_not_running hr
      refine ⟨h.active, h.started, fun hw' => ?_, fun u => ?_⟩
      · simp [hw] at hw'
      · exact .of_not_inStart (h.not_inStart hmut u)
  | start hc hmut hr =>
      refine ⟨h.active, h.started, h.config, placed_move ⟨fun _ => rfl, ?_⟩ ?_⟩
      · intro cfg hcfg
        obtain rfl : s.config = cfg := by simpa [Ctl.pending] using hcfg
        exact ⟨rfl, h.inactive_of_not_running hr⟩
      · intro u _
        exact .of_not_inStart (h.not_inStart hmut u)
  | @join cfg hc hj =>
      have hplaced : Placed s t (.resetting cfg) := by
        simpa [Placed, hc, Ctl.inStart, Ctl.pending] using h.placed t
      have hw : s.worker.active = false := (hplaced.2 cfg rfl).2
      refine ⟨fun hw' => ?_, fun hj => ?_, h.config, placed_move hplaced fun u _ => h.placed u⟩
      · simp [move, hw] at hw'
      · simp [move] at hj
  | @reset cfg hc =>
      have hplaced : Placed s t (.spawning cfg) := by
        simpa [Placed, hc, Ctl.inStart, Ctl.pending] using h.placed t
      exact ⟨h.active, h.started, h.config, placed_move hplaced fun u _ => h.placed u⟩
  | @spawned cfg hc =>
      have hin : (s.ctl t).inStart = true := by rw [hc]; rfl
      obtain ⟨hcfg, -⟩ := (h.placed t).2 cfg (by rw [hc]; rfl)
      refine ⟨fun _ => ⟨rfl, rfl⟩, fun _ => by simp [move], fun _ => ?_,
        placed_move ⟨fun _ => (h.placed t).1 hin, fun _ hc' => ?_⟩ fun u hne => ?_⟩
      · simpa [move, latest, Pipeline.config] using hcfg.symm
      · simp [Ctl.pending] at hc'
      · exact .of_not_inStart (h.not_inStart_of_ne hin hne)
  | @notSpawned cfg hc =>
      have hin : (s.ctl t).inStart = true := by rw [hc]; rfl
      have hw : s.worker.active = false := ((h.placed t).2 cfg (by rw [hc]; rfl)).2
      refine ⟨fun hw' => ?_, h.started, h.config,
        placed_move (.of_not_inStart (by simp [Ctl.inStart])) fun u hne => ?_⟩
      · simp [move, hw] at hw'
      · exact .of_not_inStart (h.not_inStart_of_ne hin hne)
  | unlock hc =>
      have hin : (s.ctl t).inStart = true := by rw [hc]; rfl
      refine ⟨h.active, h.started, h.config,
        placed_move (.of_not_inStart (by simp [Ctl.inStart])) fun u hne => ?_⟩
      exact .of_not_inStart (h.not_inStart_of_ne hin hne)
  | requestStop hc => exact ⟨h.active, h.started, h.config, h.placed⟩
  | stop hc | wait hc | awake hc hmut hd | rethrow hc hmut =>
      exact ⟨h.active, h.started, h.config,
        placed_move (.of_not_inStart (by simp [Ctl.inStart])) fun u _ => h.placed u⟩

end Handles

/-! ## The events of the runs -/

section Traces

/-- Every earlier run has produced a complete word, the latest one what the place of
the worker says, and no other run anything. -/
structure Traces (s : Pipeline St C X Tid) : Prop where
  past : ∀ r cfg, s.configs[r]? = some cfg → r ≠ s.latest → Word cfg (events r s.log)
  now : ∀ cfg, s.configs[s.latest]? = some cfg → At cfg s.worker (events s.latest s.log)
  fresh : ∀ r, s.configs.length ≤ r → events r s.log = []

theorem Traces.init : Traces ({} : Pipeline St C X Tid) where
  past r cfg h := by simp at h
  now cfg h := by simp at h
  fresh r _ := rfl

@[simp] theorem events_emit (s : Pipeline St C X Tid) (w : Worker St X)
    (e : RunEvent St C X) :
    events s.latest (s.emit w e).log = events s.latest s.log ++ [e] := by
  simp [emit]

/-- A step of the worker takes the run from one of its points to the next. -/
theorem at_workerStep {s s' : Pipeline St C X Tid} {outcome : Option X} {cfg : Config St C}
    (hstep : s.workerStep outcome = some s') (hcfg : s.worker.active = true → s.config = cfg)
    (h : At cfg s.worker (events s.latest s.log)) :
    At cfg s'.worker (events s.latest s'.log) := by
  cases hw : s.worker <;> rw [hw] at h hcfg <;> simp only [workerStep, hw] at hstep
  case exited => cases hstep
  case notify =>
    cases hstep
    exact h
  all_goals obtain rfl : s.config = cfg := hcfg rfl
  case head i =>
    obtain ⟨hi, hevs⟩ := h
    split at hstep <;> cases hstep
    · exact ⟨by assumption, hevs⟩
    · obtain rfl : i = s.steps.length := by
        have hi' : i ≤ s.steps.length := hi
        omega
      simp only [goto, At, hevs, Pipeline.config, List.take_length]
      exact .all
  case call i =>
    obtain ⟨hi, hevs⟩ := h
    obtain ⟨st, hst, rfl⟩ := Option.map_eq_some_iff.mp hstep
    refine ⟨hst, ?_⟩
    rw [events_emit, hevs]
  case inStage i st =>
    obtain ⟨hst, hevs⟩ := h
    cases outcome <;> cases hstep <;> rw [events_emit, hevs]
    case none =>
      refine ⟨(List.getElem?_eq_some_iff.mp hst).1, ?_⟩
      simp [completed_take_succ hst]
    case some x =>
      simpa [emit, At] using Stages.threw hst
  case check i =>
    obtain ⟨hi, hevs⟩ := h
    split at hstep <;> cases hstep
    · simp only [goto, At, hevs]
      exact .stopped (Nat.succ_pos i) hi
    · exact ⟨hi, hevs⟩
  case after failure aborted =>
    cases hstep
    exact h
  case clean failure aborted =>
    split at hstep <;> cases hstep <;> rename_i hc
    · refine ⟨aborted, _, [], h, ?_, (List.append_nil _).symm⟩
      simp only [Pipeline.config, hc]
      exact .absent
    · exact ⟨_, _, hc, h, events_emit s _ _⟩
  case inCleanup failure aborted =>
    obtain ⟨c, body, hc, hbody, hevs⟩ := h
    cases outcome <;> cases hstep <;> rw [events_emit, hevs, List.append_assoc] <;>
      refine ⟨aborted, body, _, hbody, ?_, rfl⟩ <;> rw [hc]
    case none => exact .ended
    case some x => exact .threw
  case finish failure =>
    obtain ⟨aborted, body, tail, hbody, htail, hevs⟩ := h
    split at hstep <;> cases hstep
    refine ⟨aborted, body, tail, hbody, htail, ?_⟩
    rw [← hevs]
    exact events_emit s .notify .finished

theorem Traces.worker {s s' : Pipeline St C X Tid} {outcome : Option X} (h : Traces s)
    (hh : Handles s) (hstep : s.workerStep outcome = some s') : Traces s' := by
  have f : WorkerFrame s s' := workerStep_frame hstep
  have hlatest : s'.latest = s.latest := by rw [latest, f.configs, latest]
  -- the step adds to the latest run only, and not before there is one
  have hother : ∀ r, r ≠ s.latest → events r s'.log = events r s.log := by
    intro r hr
    rcases f.log with hlog | ⟨-, e, hlog⟩
    · rw [hlog]
    · simp [hlog, hr.symm]
  refine ⟨?_, ?_, ?_⟩
  · intro r cfg hcfg hr
    rw [hlatest] at hr
    rw [f.configs] at hcfg
    rw [hother r hr]
    exact h.past r cfg hcfg hr
  · intro cfg hcfg
    rw [hlatest, f.configs] at *
    refine at_workerStep hstep (fun hw => ?_) (h.now cfg hcfg)
    have hnow := hh.config hw
    rw [hcfg] at hnow
    exact (Option.some.inj hnow).symm
  · intro r hr
    rw [f.configs] at hr
    rcases f.log with hlog | ⟨hw, e, hlog⟩
    · rw [hlog]
      exact h.fresh r hr
    · have hlen : 0 < s.configs.length := hh.started (hh.active hw).1
      rw [hother r (by rw [latest]; omega)]
      exact h.fresh r hr

/-- Once nothing runs, every run there is has finished. -/
theorem Traces.finished_mem {s : Pipeline St C X Tid} (h : Traces s) {r : ℕ}
    (hw : s.worker.active = false) (hr : r < s.configs.length) :
    .finished ∈ events r s.log := by
  have hcfg : s.configs[r]? = some s.configs[r] := List.getElem?_eq_getElem hr
  by_cases hlatest : r = s.latest
  · subst hlatest
    exact ((h.now _ hcfg).word hw).finished_mem
  · exact (h.past r _ hcfg hlatest).finished_mem

variable [DecidableEq Tid]

/-- Only the creation of a thread touches the worker, the list of runs or their
events. -/
theorem Moves.frame {s s' : Pipeline St C X Tid} {t : Tid} {a : Action St C}
    (hm : Moves s t a s') (ha : a ≠ .spawn true) :
    s'.worker = s.worker ∧ s'.configs = s.configs ∧
      ∀ r, events r s'.log = events r s.log := by
  cases hm with
  | spawned hc => exact absurd rfl ha
  | _ => exact ⟨rfl, rfl, fun r => by simp [move, record]⟩

theorem Traces.thread {s s' : Pipeline St C X Tid} {t : Tid} {a : Action St C} (h : Traces s)
    (hh : Handles s) (hm : Moves s t a s') : Traces s' := by
  by_cases ha : a = .spawn true
  · subst ha
    cases hm with
    | refused _ => exact h
    | @spawned cfg hc =>
        have hw : s.worker.active = false := ((hh.placed t).2 cfg (by rw [hc]; rfl)).2
        refine ⟨?_, ?_, ?_⟩
        · intro r cfg' hcfg hr
          simp only [move, latest, List.length_append, List.length_singleton,
            Nat.add_sub_cancel] at hcfg hr
          have hlt : r < s.configs.length := by
            have := (List.getElem?_eq_some_iff.mp hcfg).1
            simp only [List.length_append, List.length_singleton] at this
            omega
          rw [List.getElem?_append_left hlt] at hcfg
          by_cases hr' : r = s.latest
          · subst hr'
            exact (h.now cfg' hcfg).word hw
          · exact h.past r cfg' hcfg hr'
        · intro cfg' hcfg
          have hnone : events s.configs.length s.log = [] := h.fresh _ le_rfl
          simp [move, latest, At, hnone]
        · intro r hr
          simp only [move, List.length_append, List.length_singleton] at hr
          exact h.fresh r (by omega)
  · obtain ⟨hw, hc, hlog⟩ := hm.frame ha
    refine ⟨?_, ?_, ?_⟩ <;> simp only [latest, hw, hc, hlog]
    · exact h.past
    · exact h.now
    · exact h.fresh

end Traces

end Pipeline

end Opencode.Stage
