import Mathlib
import Opencode.Lib.History
import Opencode.Stage.Handles

/-!
# The run protocol of the pipeline

Under every schedule of the worker and the controllers each run produces a word of its
configuration, an abort has a cause, the configuration stands still meanwhile, and a
waiter does not overtake the run it waits for.

`Causes` is the third part of the invariant, next to `Handles` and `Traces`: it ties
the stop flag, the abort and the waiters to what the history has seen.

## Main definitions

* `Protocol s` — the protocol, as a statement about a state and its history.
* `protocol_throughout` — it holds throughout every run.
-/

namespace Opencode.Stage

open Opencode.Lib

variable {St C X Tid : Type}

/-! ## The protocol -/

/-- A run may abort because one of its stages threw, or because a stop was requested
after its start had reset the flag. -/
def Cause (r : ℕ) (log : List (Entry St C X Tid)) : Prop :=
  (∃ st x, .threw st x ∈ events r log) ∨ Since (.reset r) .stopRequested log

/-- What an entry asks of the history before it: a cleanup told of an abort has a
cause, and a waiter called during a run returns after that run has finished. -/
def Warranted (pre : List (Entry St C X Tid)) : Entry St C X Tid → Prop
  | .event r (.cleanupBegan _ true) => Cause r pre
  | .waitReturned _ (some r) _ => .finished ∈ events r pre
  | _ => True

/-- **The run protocol**, of a state and its history. -/
structure Protocol (s : Pipeline St C X Tid) : Prop where
  /-- Each run has produced a part of a word of its configuration, and the whole word
  once `done_` has been set for it. -/
  word : ∀ r cfg, s.configs[r]? = some cfg → ∃ W, Word cfg W ∧ events r s.log <+: W ∧
    (.finished ∈ events r s.log → events r s.log = W)
  /-- There are no other events. -/
  noOther : ∀ r, s.configs.length ≤ r → events r s.log = []
  /-- Every entry of the history is warranted by what precedes it. -/
  warranted : Justified Warranted s.log
  /-- Until `done_` is set, the configuration is the one the run started with, -/
  configured : ∀ r cfg, s.configs[r]? = some cfg → .finished ∉ events r s.log →
    s.config = cfg
  /-- and so it is inside the `start` that is about to create the run. -/
  starting : ∀ t cfg, (s.ctl t).pending = some cfg → s.config = cfg

namespace Pipeline

/-! ## The stop flag, the waiters and the history -/

section Causes

/-- The flag has been reset for run `r`, and is only set by a request since then. -/
def Armed (r : ℕ) (s : Pipeline St C X Tid) : Prop :=
  .reset r ∈ s.log ∧ (s.stopFlag = true → Since (.reset r) .stopRequested s.log)

/-- What the place of a thread says about the history. -/
def Attends (s : Pipeline St C X Tid) : Ctl St C → Prop
  | .spawning _ => Armed s.configs.length s
  | .waiting (some r) => r < s.configs.length
  | .rethrowing (some r) => .finished ∈ events r s.log
  | _ => True

/-- The active worker was started with the flag reset, an abort has a cause, every
thread attends to its run and every entry of the history is warranted. -/
structure Causes (s : Pipeline St C X Tid) : Prop where
  armed : s.worker.active = true → Armed s.latest s
  aborting : s.worker.aborting = true → Cause s.latest s.log
  attends : ∀ t, Attends s (s.ctl t)
  warranted : Justified Warranted s.log

theorem Causes.init : Causes ({} : Pipeline St C X Tid) where
  armed h := by simp [Worker.active] at h
  aborting h := by simp [Worker.aborting] at h
  attends _ := trivial
  warranted := justified_nil Warranted

/-- The history grows and no flag is reset. -/
structure Grows (s s' : Pipeline St C X Tid) : Prop where
  configs : s'.configs = s.configs
  events : ∀ r e, e ∈ events r s.log → e ∈ events r s'.log
  armed : ∀ r, Armed r s → Armed r s'
  since : ∀ r, Since (.reset r) .stopRequested s.log →
    Since (.reset r) .stopRequested s'.log

theorem Grows.of_log_eq {s s' : Pipeline St C X Tid} (hc : s'.configs = s.configs)
    (hf : s'.stopFlag = s.stopFlag) (hl : s'.log = s.log) : Grows s s' where
  configs := hc
  events r e he := by rwa [hl]
  armed r h := by rwa [Armed, hf, hl]
  since r h := by rwa [hl]

theorem Grows.of_concat {s s' : Pipeline St C X Tid} {e : Entry St C X Tid}
    (hc : s'.configs = s.configs) (hl : s'.log = s.log ++ [e]) (he : ∀ r, e ≠ .reset r)
    (hf : s'.stopFlag = s.stopFlag ∨ e = .stopRequested) : Grows s s' where
  configs := hc
  events r e he := by simp [hl, he]
  armed r h := by
    obtain ⟨hreset, hsince⟩ := h
    refine ⟨by simp [hl, hreset], ?_⟩
    intro hflag
    rw [hl]
    rcases hf with hf | rfl
    · exact (hsince (hf ▸ hflag)).concat (he r)
    · exact .of_concat hreset (he r)
  since r h := by
    rw [hl]
    exact h.concat (he r)

theorem Grows.latest {s s' : Pipeline St C X Tid} (g : Grows s s') : s'.latest = s.latest := by
  rw [Pipeline.latest, g.configs, Pipeline.latest]

theorem Grows.cause {s s' : Pipeline St C X Tid} (g : Grows s s') {r : ℕ}
    (h : Cause r s.log) : Cause r s'.log := by
  rcases h with ⟨st, x, h⟩ | h
  · exact .inl ⟨st, x, g.events r _ h⟩
  · exact .inr (g.since r h)

/-- Runs are only added and events only recorded, so a thread loses nothing; one that
is about to create a worker needs the flag to be armed. -/
theorem Attends.mono {s s' : Pipeline St C X Tid} {c : Ctl St C} (h : Attends s c)
    (hspawn : ∀ cfg, c = .spawning cfg → Armed s'.configs.length s')
    (hlen : s.configs.length ≤ s'.configs.length)
    (hevents : ∀ r e, e ∈ events r s.log → e ∈ events r s'.log) : Attends s' c := by
  cases c with
  | spawning cfg => exact hspawn cfg rfl
  | waiting called =>
      cases called with
      | none => trivial
      | some r => exact Nat.lt_of_lt_of_le h hlen
  | rethrowing called =>
      cases called with
      | none => trivial
      | some r => exact hevents r _ h
  | _ => trivial

theorem Grows.attends {s s' : Pipeline St C X Tid} (g : Grows s s') {c : Ctl St C}
    (h : Attends s c) : Attends s' c := by
  refine h.mono ?_ (by rw [g.configs]) g.events
  rintro cfg rfl
  rw [g.configs]
  exact g.armed _ h

theorem WorkerFrame.grows {s s' : Pipeline St C X Tid} (f : WorkerFrame s s') : Grows s s' := by
  rcases f.log with hl | ⟨-, e, hl⟩
  · exact .of_log_eq f.configs f.stopFlag hl
  · exact .of_concat f.configs hl (by simp) (.inl f.stopFlag)

/-- The run aborts when a stage throws or when it finds the flag set. -/
theorem aborting_workerStep {s s' : Pipeline St C X Tid} {outcome : Option X}
    (hstep : s.workerStep outcome = some s') (h : Causes s)
    (ha : s'.worker.aborting = true) : Cause s.latest s'.log := by
  have g : Grows s s' := (workerStep_frame hstep).grows
  cases hw : s.worker <;> simp only [workerStep, hw] at hstep
  case inStage i st =>
    cases outcome <;> cases hstep
    case none => simp [emit, Worker.aborting] at ha
    case some x => exact .inl ⟨st, x, by simp⟩
  case check i =>
    split at hstep <;> cases hstep
    · exact .inr ((h.armed (by rw [hw]; rfl)).2 (by assumption))
    · simp [goto, Worker.aborting] at ha
  case after failure aborted =>
    cases hstep
    cases aborted
    · simp [Worker.aborting] at ha
    · exact g.cause (h.aborting (by rw [hw]; rfl))
  case call i =>
    obtain ⟨st, -, rfl⟩ := Option.map_eq_some_iff.mp hstep
    simp [emit, Worker.aborting] at ha
  all_goals repeat' split at hstep
  all_goals cases hstep <;> simp [emit, goto, Worker.aborting] at ha

/-- The cleanup is told of an abort only after the loop was left with one. -/
theorem aborting_of_cleanupBegan {s s' : Pipeline St C X Tid} {outcome : Option X} {c : C}
    (hstep : s.workerStep outcome = some s')
    (hlog : s'.log = s.log ++ [.event s.latest (.cleanupBegan c true)]) :
    s.worker.aborting = true := by
  cases hw : s.worker <;> simp only [workerStep, hw] at hstep
  case call i =>
    obtain ⟨st, -, rfl⟩ := Option.map_eq_some_iff.mp hstep
    simp [emit] at hlog
  case clean failure aborted =>
    split at hstep <;> cases hstep
    · simp [goto] at hlog
    · simp only [emit, List.append_cancel_left_eq, List.cons.injEq, Entry.event.injEq,
        RunEvent.cleanupBegan.injEq] at hlog
      exact hlog.1.2.2
  all_goals repeat' split at hstep
  all_goals cases hstep <;> simp [emit, goto] at hlog

theorem Causes.worker {s s' : Pipeline St C X Tid} {outcome : Option X} (h : Causes s)
    (hstep : s.workerStep outcome = some s') : Causes s' := by
  have f : WorkerFrame s s' := workerStep_frame hstep
  have g : Grows s s' := f.grows
  refine ⟨?_, ?_, ?_, ?_⟩
  · intro hw
    rw [g.latest]
    exact g.armed _ (h.armed (f.active hw).1)
  · intro ha
    rw [g.latest]
    exact aborting_workerStep hstep h ha
  · intro t
    rw [f.ctl]
    exact g.attends (h.attends t)
  · rcases f.log with hlog | ⟨-, e, hlog⟩
    · rw [hlog]
      exact h.warranted
    · rw [hlog, justified_concat]
      refine ⟨h.warranted, ?_⟩
      cases e with
      | cleanupBegan c aborted =>
          cases aborted with
          | false => trivial
          | true => exact h.aborting (aborting_of_cleanupBegan hstep hlog)
      | _ => trivial

/-- A waiter is called during a run that exists. -/
theorem Handles.attends_waiting {s : Pipeline St C X Tid} (h : Handles s) :
    Attends s (.waiting s.inProgress) := by
  unfold inProgress
  split
  · rename_i hr
    simp only [runningLocked, Bool.and_eq_true] at hr
    have hlen : 0 < s.configs.length := h.started hr.1
    simp only [Attends, latest]
    omega
  · trivial

variable [DecidableEq Tid]

/-- What the threads attend to after one of them has moved. -/
theorem attends_move {s : Pipeline St C X Tid} {t : Tid} {c : Ctl St C} (hself : Attends s c)
    (hother : ∀ u, u ≠ t → Attends s (s.ctl u)) (u : Tid) :
    Attends (s.move t c) ((s.move t c).ctl u) := by
  by_cases hu : u = t
  · subst hu
    rw [move_ctl_self]
    exact hself
  · rw [move_ctl_of_ne s c hu]
    exact hother u hu

/-- A thread moves on in a step that neither resets the flag nor creates a worker. -/
theorem Causes.move {s s₁ : Pipeline St C X Tid} {t : Tid} {c : Ctl St C} (h : Causes s)
    (g : Grows s s₁) (hw : s₁.worker = s.worker) (hctl : s₁.ctl = s.ctl)
    (hself : Attends s₁ c) (hj : Justified Warranted s₁.log) : Causes (s₁.move t c) := by
  refine ⟨?_, ?_, attends_move hself fun u _ => ?_, hj⟩
  · intro hact
    have harmed : Armed s.latest s₁ := g.armed _ (h.armed (hw ▸ hact))
    rw [← g.latest] at harmed
    exact harmed
  · intro hab
    have hcause : Cause s.latest s₁.log := g.cause (h.aborting (hw ▸ hab))
    rw [← g.latest] at hcause
    exact hcause
  · rw [hctl]
    exact g.attends (h.attends u)

theorem Causes.thread {s s' : Pipeline St C X Tid} {t : Tid} {a : Action St C} (h : Causes s)
    (hh : Handles s) (ht : Traces s) (hm : Moves s t a s') : Causes s' := by
  cases hm with
  | refused _ => exact h
  | setSteps hc hmut hr | setCleanup hc hmut hr =>
      exact ⟨h.armed, h.aborting, h.attends, h.warranted⟩
  | start hc hmut hr => exact h.move (.of_log_eq rfl rfl rfl) rfl rfl trivial h.warranted
  | join hc hj => exact h.move (.of_log_eq rfl rfl rfl) rfl rfl trivial h.warranted
  | @reset cfg hc =>
      have hin : (s.ctl t).inStart = true := by rw [hc]; rfl
      have hw : s.worker.active = false := ((hh.placed t).2 cfg (by rw [hc]; rfl)).2
      refine ⟨fun hw' => ?_, fun hab => ?_, attends_move ?_ fun u hne => ?_, ?_⟩
      · simp [Pipeline.move, record, hw] at hw'
      · simp [Pipeline.move, record, Worker.aborting_of_inactive hw] at hab
      · exact ⟨by simp [record], fun hf => by simp [record] at hf⟩
      · refine (h.attends u).mono (fun cfg' hcu => ?_) le_rfl (fun r e he => by simp [record, he])
        have hu : ¬ (s.ctl u).inStart = true := hh.not_inStart_of_ne hin hne
        exact absurd (by rw [hcu]; rfl) hu
      · exact justified_concat.mpr ⟨h.warranted, trivial⟩
  | @spawned cfg hc =>
      have hin : (s.ctl t).inStart = true := by rw [hc]; rfl
      have harmed : Armed s.configs.length s := by simpa [hc, Attends] using h.attends t
      refine ⟨fun _ => ?_, fun hab => ?_, attends_move trivial fun u hne => ?_, h.warranted⟩
      · simpa [Pipeline.move, latest, Armed] using harmed
      · simp [Pipeline.move, Worker.aborting] at hab
      · refine (h.attends u).mono (fun cfg' hcu => ?_) (by simp) (fun _ _ he => he)
        have hu : ¬ (s.ctl u).inStart = true := hh.not_inStart_of_ne hin hne
        exact absurd (by rw [hcu]; rfl) hu
  | notSpawned hc => exact h.move (.of_log_eq rfl rfl rfl) rfl rfl trivial h.warranted
  | unlock hc =>
      exact h.move (.of_concat rfl rfl (by simp) (.inl rfl)) rfl rfl trivial
        (justified_concat.mpr ⟨h.warranted, trivial⟩)
  | requestStop hc =>
      have g : Grows s ({ s with stopFlag := true }.record .stopRequested) :=
        .of_concat rfl rfl (by simp) (.inr rfl)
      exact ⟨fun hw => g.armed _ (h.armed hw), fun hab => g.cause (h.aborting hab),
        fun u => g.attends (h.attends u), justified_concat.mpr ⟨h.warranted, trivial⟩⟩
  | stop hc =>
      have g : Grows s ({ s with stopFlag := true }.record .stopRequested) :=
        .of_concat rfl rfl (by simp) (.inr rfl)
      exact h.move g rfl rfl (g.attends hh.attends_waiting)
        (justified_concat.mpr ⟨h.warranted, trivial⟩)
  | wait hc => exact h.move (.of_log_eq rfl rfl rfl) rfl rfl hh.attends_waiting h.warranted
  | @awake called hc hmut hd =>
      refine h.move (.of_log_eq rfl rfl rfl) rfl rfl ?_ h.warranted
      cases called with
      | none => trivial
      | some r =>
          have hr : r < s.configs.length := by simpa [hc, Attends] using h.attends t
          exact ht.finished_mem (hh.inactive hd) hr
  | @rethrow called hc hmut =>
      refine h.move (.of_concat rfl rfl (by simp) (.inl rfl)) rfl rfl trivial
        (justified_concat.mpr ⟨h.warranted, ?_⟩)
      cases called with
      | none => trivial
      | some r => simpa [hc, Attends, Warranted] using h.attends t

end Causes

/-! ## Every run keeps the protocol -/

section Run

/-- The three parts of the invariant. -/
structure Invariant (s : Pipeline St C X Tid) : Prop where
  handles : Handles s
  traces : Traces s
  causes : Causes s

theorem Invariant.init : Invariant ({} : Pipeline St C X Tid) :=
  ⟨Handles.init, Traces.init, Causes.init⟩

/-- The protocol is what the invariant says about the history. -/
theorem Invariant.protocol {s : Pipeline St C X Tid} (h : Invariant s) : Protocol s where
  word r cfg hcfg := by
    by_cases hr : r = s.latest
    · subst hr
      have hat := h.traces.now cfg hcfg
      cases hw : s.worker.active with
      | false =>
          exact ⟨_, hat.word hw, List.prefix_refl _, fun _ => rfl⟩
      | true =>
          obtain ⟨W, hW, hpre⟩ := hat.exists_word
          exact ⟨W, hW, hpre, fun hfin => absurd hfin (hat.finished_notMem hw)⟩
    · exact ⟨_, h.traces.past r cfg hcfg hr, List.prefix_refl _, fun _ => rfl⟩
  noOther := h.traces.fresh
  warranted := h.causes.warranted
  configured r cfg hcfg hfin := by
    have hr : r < s.configs.length := (List.getElem?_eq_some_iff.mp hcfg).1
    have hw : s.worker.active = true := by
      rw [← Bool.not_eq_false]
      exact fun hw => hfin (h.traces.finished_mem hw hr)
    have hlatest : r = s.latest := by
      by_contra hne
      exact hfin (h.traces.past r cfg hcfg hne).finished_mem
    have hnow := h.handles.config hw
    rw [← hlatest, hcfg] at hnow
    exact (Option.some.inj hnow).symm
  starting t cfg hc := ((h.handles.placed t).2 cfg hc).1

variable [DecidableEq Tid]

/-- One step keeps the invariant. -/
theorem Invariant.step {s s' : Pipeline St C X Tid} {l : Label St C X Tid}
    (h : Invariant s) (hstep : s.step l = some s') : Invariant s' := by
  cases l with
  | worker outcome =>
      exact ⟨h.handles.worker (workerStep_frame hstep), h.traces.worker h.handles hstep,
        h.causes.worker hstep⟩
  | thread t a =>
      have hm : Moves s t a s' := threadStep_moves hstep
      exact ⟨h.handles.thread hm, h.traces.thread h.handles hm,
        h.causes.thread h.handles h.traces hm⟩

/-- **The run protocol holds throughout every run**, whatever the schedule of the
worker and the controllers and however many runs of the pipeline it contains. -/
theorem protocol_throughout (ls : List (Label St C X Tid)) :
    Throughout Pipeline.step Protocol ({} : Pipeline St C X Tid) ls := by
  refine throughout_iff.mpr fun ms _ s hrun => ?_
  exact (run_invariant (fun _ _ _ h hs => h.step hs) Invariant.init hrun).protocol

-- Two stages and a `stop` during the first one: the second is skipped, the cleanup is
-- told of the abort, and `stop` returns after it.
example : (run Pipeline.step ({} : Pipeline Bool Unit Empty Bool)
    [.thread true (.setSteps [false, true]), .thread true (.setCleanup (some ())),
      .thread true .start, .thread true .join, .thread true .reset, .thread true (.spawn true),
      .thread true .unlock, .worker none, .worker none, .thread false .stop, .worker none,
      .worker none, .worker none, .worker none, .worker none, .worker none, .worker none,
      .thread false .awake, .thread false .rethrow]).map (fun s => s.log.drop 2) =
    some [.event 0 (.began false), .stopRequested, .event 0 (.ended false),
      .event 0 (.cleanupBegan () true), .event 0 .cleanupEnded, .event 0 .finished,
      .waitReturned false (some 0) none] := by
  decide +kernel

end Run

end Pipeline

end Opencode.Stage
