import Mathlib
import Opencode.Stage.Protocol

/-!
# What a waiter reports

`wait` sleeps until `done_` is set, gives the mutex back, and takes it again to look at
`failure_`.  In between another thread may start the next run, which clears `failure_`:
the waiter then returns normally from a run that failed, or rethrows the exception of a
later one.  A waiter called during a run reports that run's failure in every schedule in
which no `start` is accepted while such a waiter has yet to return.

## Main definitions

* `failureOf evs` — the exception a run failed with, the stage's before the cleanup's.
* `Faithful` — what a returning waiter has to report.
* `Pipeline.Overtakes` — the `start` that a waiter has to fear.
* `faithful_of_not_overtaken` — without it, every waiter is faithful.
-/

namespace Opencode.Stage

open Opencode.Lib

variable {St C X Tid : Type}

def RunEvent.stageException : RunEvent St C X → Option X
  | .threw _ x => some x
  | _ => none

def RunEvent.cleanupException : RunEvent St C X → Option X
  | .cleanupThrew x => some x
  | _ => none

/-- The exception a run failed with: that of a stage, else that of the cleanup. -/
def failureOf (evs : List (RunEvent St C X)) : Option X :=
  (evs.findSome? RunEvent.stageException).or (evs.findSome? RunEvent.cleanupException)

@[simp] theorem failureOf_nil : failureOf ([] : List (RunEvent St C X)) = none := rfl

/-- Only the two exceptions count. -/
theorem failureOf_concat {evs : List (RunEvent St C X)} {e : RunEvent St C X}
    (hs : e.stageException = none) (hc : e.cleanupException = none) :
    failureOf (evs ++ [e]) = failureOf evs := by
  simp [failureOf, List.findSome?_append, hs, hc]

theorem failureOf_concat_threw {evs : List (RunEvent St C X)} (st : St) (x : X)
    (h : failureOf evs = none) : failureOf (evs ++ [.threw st x]) = some x := by
  obtain ⟨hs, -⟩ := Option.or_eq_none_iff.mp h
  simp [failureOf, List.findSome?_append, hs, RunEvent.stageException]

theorem failureOf_concat_cleanupThrew (evs : List (RunEvent St C X)) (x : X) :
    failureOf (evs ++ [.cleanupThrew x]) = (failureOf evs).or (some x) := by
  simp [failureOf, List.findSome?_append, RunEvent.stageException, RunEvent.cleanupException]

/-- The failure the worker of an active run carries with it. -/
def Worker.carries : Worker St X → Option (Option X)
  | .head _ | .call _ | .inStage _ _ | .check _ => some none
  | .after failure _ | .clean failure _ | .inCleanup failure _ | .finish failure => some failure
  | .exited | .notify => none

/-- A waiter that returns from a run reports the failure of that run. -/
def Faithful (pre : List (Entry St C X Tid)) : Entry St C X Tid → Prop
  | .waitReturned _ (some r) x => x = failureOf (events r pre)
  | _ => True

/-- The run during which a thread that has yet to return called `wait` or `stop`. -/
def Ctl.waitsFor : Ctl St C → Option ℕ
  | .waiting called | .rethrowing called => called
  | _ => none

namespace Pipeline

/-- A `start` is accepted while a waiter called during a run has yet to return. -/
def Overtakes (s : Pipeline St C X Tid) : Label St C X Tid → Prop
  | .thread _ .start => s.runningLocked = false ∧ ∃ t, (s.ctl t).waitsFor.isSome
  | _ => False

instance [Fintype Tid] (s : Pipeline St C X Tid) :
    ∀ l : Label St C X Tid, Decidable (s.Overtakes l)
  | .thread _ .start =>
      inferInstanceAs (Decidable (s.runningLocked = false ∧ ∃ t, (s.ctl t).waitsFor.isSome))
  | .worker _ => .isFalse id
  | .thread _ (.setSteps _) | .thread _ (.setCleanup _) | .thread _ .join | .thread _ .reset
  | .thread _ (.spawn _) | .thread _ .unlock | .thread _ .requestStop | .thread _ .stop
  | .thread _ .wait | .thread _ .awake | .thread _ .rethrow => .isFalse id

/-! ## The failure of the latest run -/

/-- The worker carries the failure of its run, and `failure_` holds it once `done_` is
set. -/
structure Outcomes (s : Pipeline St C X Tid) : Prop where
  carried : ∀ f, s.worker.carries = some f → failureOf (events s.latest s.log) = f
  stored : s.done = true → s.failure = failureOf (events s.latest s.log)

theorem Outcomes.init : Outcomes ({} : Pipeline St C X Tid) where
  carried f h := by simp [Worker.carries] at h
  stored h := by simp at h

/-- A step of the worker keeps account of the failure. -/
theorem carries_workerStep {s s' : Pipeline St C X Tid} {outcome : Option X} (h : Outcomes s)
    (hstep : s.workerStep outcome = some s') {f : Option X} (hf : s'.worker.carries = some f) :
    failureOf (events s.latest s'.log) = f := by
  have hcarried := h.carried
  cases hw : s.worker <;> rw [hw] at hcarried <;> simp only [workerStep, hw] at hstep
  case exited => cases hstep
  case notify =>
    cases hstep
    simp [goto, Worker.carries] at hf
  case head i =>
    have hnone := hcarried none rfl
    split at hstep <;> cases hstep
    · simpa [hnone, Worker.carries] using hf
    · simpa [goto, hnone, Worker.carries] using hf
  case call i =>
    obtain ⟨st, -, rfl⟩ := Option.map_eq_some_iff.mp hstep
    rw [events_emit, failureOf_concat rfl rfl, hcarried none rfl]
    simpa [emit, Worker.carries] using hf
  case inStage i st =>
    cases outcome <;> cases hstep <;> rw [events_emit]
    case none =>
      rw [failureOf_concat rfl rfl, hcarried none rfl]
      simpa [emit, Worker.carries] using hf
    case some x =>
      rw [failureOf_concat_threw st x (hcarried none rfl)]
      simpa [emit, Worker.carries] using hf
  case check i =>
    have hnone := hcarried none rfl
    split at hstep <;> cases hstep <;> simpa [goto, hnone, Worker.carries] using hf
  case after failure aborted =>
    cases hstep
    rw [hcarried failure rfl]
    simpa [Worker.carries] using hf
  case clean failure aborted =>
    split at hstep <;> cases hstep
    · rw [goto, hcarried failure rfl]
      simpa [goto, Worker.carries] using hf
    · rw [events_emit, failureOf_concat rfl rfl, hcarried failure rfl]
      simpa [emit, Worker.carries] using hf
  case inCleanup failure aborted =>
    cases outcome <;> cases hstep <;> rw [events_emit]
    case none =>
      rw [failureOf_concat rfl rfl, hcarried failure rfl]
      simpa [emit, Worker.carries] using hf
    case some x =>
      rw [failureOf_concat_cleanupThrew, hcarried failure rfl]
      simpa [emit, Worker.carries] using hf
  case finish failure =>
    split at hstep <;> cases hstep
    simp [emit, Worker.carries] at hf

/-- `done_` is set with the failure the worker carries, and stays set. -/
theorem done_workerStep {s s' : Pipeline St C X Tid} {outcome : Option X}
    (hstep : s.workerStep outcome = some s') :
    (s'.done = s.done ∧ s'.failure = s.failure ∧
        (s.worker.active = false → s'.log = s.log)) ∨
      ∃ f, s.worker = .finish f ∧ s'.done = true ∧ s'.failure = f ∧
        s'.log = s.log ++ [.event s.latest .finished] := by
  cases hw : s.worker <;> simp only [workerStep, hw] at hstep
  case call i =>
    obtain ⟨st, -, rfl⟩ := Option.map_eq_some_iff.mp hstep
    exact .inl ⟨rfl, rfl, by simp [Worker.active]⟩
  case finish failure =>
    split at hstep <;> cases hstep
    exact .inr ⟨failure, rfl, rfl, rfl, rfl⟩
  all_goals repeat' split at hstep
  all_goals cases hstep <;> exact .inl ⟨rfl, rfl, by simp [Worker.active, goto]⟩

theorem Outcomes.worker {s s' : Pipeline St C X Tid} {outcome : Option X} (h : Outcomes s)
    (hh : Handles s) (hstep : s.workerStep outcome = some s') : Outcomes s' := by
  have hlatest : s'.latest = s.latest := by
    rw [latest, (workerStep_frame hstep).configs, latest]
  refine ⟨fun f hf => ?_, fun hdone => ?_⟩
  · rw [hlatest]
    exact carries_workerStep h hstep hf
  · rw [hlatest]
    rcases done_workerStep hstep with ⟨hd, hf, hlog⟩ | ⟨f, hw, -, hf, hlog⟩
    · have hdone' : s.done = true := hd ▸ hdone
      rw [hf, hlog (hh.inactive (.inl hdone'))]
      exact h.stored hdone'
    · have hcarried := h.carried f (by rw [hw]; rfl)
      rw [hf, hlog, events_append, events_event, if_pos rfl, failureOf_concat rfl rfl, hcarried]

section

variable [DecidableEq Tid]

theorem Outcomes.thread {s s' : Pipeline St C X Tid} {t : Tid} {a : Action St C}
    (h : Outcomes s) (ht : Traces s) (hm : Moves s t a s') : Outcomes s' := by
  by_cases ha : a = .spawn true
  · subst ha
    cases hm with
    | refused _ => exact h
    | @spawned cfg hc =>
        have hnone : events s.configs.length s.log = [] := ht.fresh _ le_rfl
        refine ⟨fun f hf => ?_, fun hd => ?_⟩
        · simpa [move, latest, hnone, Worker.carries] using hf
        · simp [move] at hd
  · obtain ⟨hw, hconfigs, hevents⟩ := hm.frame ha
    have hlatest : s'.latest = s.latest := by rw [latest, hconfigs, latest]
    refine ⟨fun f hf => ?_, fun hd => ?_⟩
    · rw [hlatest, hevents]
      exact h.carried f (hw ▸ hf)
    · rw [hlatest, hevents]
      cases hm with
      | spawned hc => exact absurd rfl ha
      | notSpawned hc => simp [move] at hd
      | _ => exact h.stored hd

end

/-! ## The waiters -/

/-- Nothing runs while a `start` is about to create a run; a waiter waits for the latest
run, whose handle has not been joined; and behind its wait `done_` is set. -/
structure Watched (s : Pipeline St C X Tid) : Prop where
  pending : ∀ t, (s.ctl t).pending ≠ none → s.runningLocked = false
  waits : ∀ t r, (s.ctl t).waitsFor = some r → r = s.latest ∧ s.joinable = true ∧
    ∀ u, (s.ctl u).pending = none
  done : ∀ t r, s.ctl t = .rethrowing (some r) → s.done = true
  faithful : Justified Faithful s.log

theorem Watched.init : Watched ({} : Pipeline St C X Tid) where
  pending t h := by simp [Ctl.pending] at h
  waits t r h := by simp [Ctl.waitsFor] at h
  done t r h := by simp at h
  faithful := justified_nil Faithful

theorem Watched.worker {s s' : Pipeline St C X Tid} {outcome : Option X} (h : Watched s)
    (hstep : s.workerStep outcome = some s') : Watched s' := by
  have f : WorkerFrame s s' := workerStep_frame hstep
  have hdone : s.done = true → s'.done = true := by
    rcases done_workerStep hstep with ⟨hd, -⟩ | ⟨_, -, hd, -⟩
    · exact fun h => hd ▸ h
    · exact fun _ => hd
  refine ⟨fun t ht => ?_, fun t r ht => ?_, fun t r ht => ?_, ?_⟩
  · have hrun := h.pending t (f.ctl ▸ ht)
    simp only [runningLocked, Bool.and_eq_false_iff, Bool.not_eq_false', f.joinable] at hrun ⊢
    exact hrun.imp_right hdone
  · rw [latest, f.configs, f.joinable, f.ctl]
    exact h.waits t r (f.ctl ▸ ht)
  · exact hdone (h.done t r (f.ctl ▸ ht))
  · rcases f.log with hlog | ⟨-, e, hlog⟩
    · rw [hlog]
      exact h.faithful
    · rw [hlog, justified_concat]
      exact ⟨h.faithful, trivial⟩

/-- While a `start` is about to create a run, nobody waits for one. -/
theorem Watched.not_waitsFor {s : Pipeline St C X Tid} (h : Watched s) {t : Tid}
    {cfg : Config St C} (ht : (s.ctl t).pending = some cfg) (u : Tid) :
    (s.ctl u).waitsFor = none := by
  cases hu : (s.ctl u).waitsFor with
  | none => rfl
  | some r =>
      have hnone := (h.waits u r hu).2.2 t
      rw [ht] at hnone
      cases hnone

/-- A waiter is called during the latest run, with nobody about to start another. -/
theorem Watched.waits_inProgress {s : Pipeline St C X Tid} (h : Watched s) {r : ℕ}
    (hr : s.inProgress = some r) :
    r = s.latest ∧ s.joinable = true ∧ ∀ u, (s.ctl u).pending = none := by
  unfold inProgress at hr
  split at hr
  case isTrue hrun =>
    refine ⟨(Option.some.inj hr).symm, ?_, fun u => ?_⟩
    · simp only [runningLocked, Bool.and_eq_true] at hrun
      exact hrun.1
    · by_contra hu
      rw [h.pending u hu] at hrun
      cases hrun
  case isFalse => cases hr

section

variable [DecidableEq Tid]

/-- The waiters after a step of a thread inside `start`, or of one that enters it: there
are none. -/
theorem Watched.of_starting {s₁ : Pipeline St C X Tid} {t : Tid} {c : Ctl St C}
    (hrun : c.pending ≠ none → s₁.runningLocked = false)
    (hother : ∀ u, u ≠ t → (s₁.ctl u).pending = none)
    (hwaits : ∀ u, u ≠ t → (s₁.ctl u).waitsFor = none) (hc : c.waitsFor = none)
    (hj : Justified Faithful s₁.log) : Watched (s₁.move t c) := by
  have hnone : ∀ u, ((s₁.move t c).ctl u).waitsFor = none := by
    intro u
    by_cases hu : u = t
    · subst hu
      rw [move_ctl_self, hc]
    · rw [move_ctl_of_ne s₁ c hu, hwaits u hu]
  refine ⟨fun u hu => ?_, fun u r hu => ?_, fun u r hu => ?_, hj⟩
  · by_cases hut : u = t
    · subst hut
      exact hrun (by rwa [move_ctl_self] at hu)
    · rw [move_ctl_of_ne s₁ c hut] at hu
      exact absurd (hother u hut) hu
  · rw [hnone u] at hu
    cases hu
  · have hwait := hnone u
    rw [hu] at hwait
    cases hwait

/-- The waiters after a step of a thread outside the critical part of `start`. -/
theorem Watched.move {s s₁ : Pipeline St C X Tid} {t : Tid} {c : Ctl St C} (h : Watched s)
    (hctl : s₁.ctl = s.ctl) (hconfigs : s₁.configs = s.configs)
    (hjoin : s₁.joinable = s.joinable) (hdone : s₁.done = s.done) (hpend : c.pending = none)
    (hwaits : ∀ r, c.waitsFor = some r → r = s.latest ∧ s.joinable = true ∧
      ∀ u, (s.ctl u).pending = none)
    (hret : ∀ r, c = .rethrowing (some r) → s.done = true)
    (hj : Justified Faithful s₁.log) : Watched (s₁.move t c) := by
  have hpending : ∀ u, ((s₁.move t c).ctl u).pending ≠ none → (s.ctl u).pending ≠ none := by
    intro u hu
    by_cases hut : u = t
    · subst hut
      rw [move_ctl_self] at hu
      exact absurd hpend hu
    · rwa [move_ctl_of_ne s₁ c hut, hctl] at hu
  have hlatest : (s₁.move t c).latest = s.latest := by simp [Pipeline.move, latest, hconfigs]
  refine ⟨fun u hu => ?_, fun u r hu => ?_, fun u r hu => ?_, hj⟩
  · have hrun := h.pending u (hpending u hu)
    simpa [Pipeline.move, runningLocked, hjoin, hdone] using hrun
  · have hold : r = s.latest ∧ s.joinable = true ∧ ∀ u, (s.ctl u).pending = none := by
      by_cases hut : u = t
      · subst hut
        exact hwaits r (by rwa [move_ctl_self] at hu)
      · exact h.waits u r (by rwa [move_ctl_of_ne s₁ c hut, hctl] at hu)
    refine ⟨hold.1.trans hlatest.symm, hjoin.trans hold.2.1, fun v => ?_⟩
    by_contra hv
    exact hpending v hv (hold.2.2 v)
  · by_cases hut : u = t
    · subst hut
      rw [move_ctl_self] at hu
      exact hdone.trans (hret r hu)
    · rw [move_ctl_of_ne s₁ c hut, hctl] at hu
      exact hdone.trans (h.done u r hu)

theorem Watched.thread {s s' : Pipeline St C X Tid} {t : Tid} {a : Action St C}
    (h : Watched s) (hh : Handles s) (ho : Outcomes s)
    (hfree : ¬ s.Overtakes (.thread t a)) (hm : Moves s t a s') : Watched s' := by
  have houtside : ∀ u, ¬ (s.ctl u).inStart = true → (s.ctl u).pending = none := by
    intro u hu
    rw [Option.eq_none_iff_forall_ne_some]
    exact fun cfg hcfg => hu (Ctl.inStart_of_pending hcfg)
  -- a thread inside `start` keeps the others from waiting
  have hinside : ∀ cfg, (s.ctl t).pending = some cfg →
      (∀ u, u ≠ t → (s.ctl u).pending = none) ∧ ∀ u, u ≠ t → (s.ctl u).waitsFor = none := by
    intro cfg ht
    exact ⟨fun u hu => houtside u (hh.not_inStart_of_ne (Ctl.inStart_of_pending ht) hu),
      fun u _ => h.not_waitsFor ht u⟩
  cases hm with
  | refused _ => exact h
  | setSteps hc hmut hr | setCleanup hc hmut hr =>
      exact ⟨h.pending, h.waits, h.done, h.faithful⟩
  | start hc hmut hr =>
      have hnone : ∀ u, (s.ctl u).waitsFor = none := by
        intro u
        rw [← Option.not_isSome_iff_eq_none]
        exact fun hu => hfree ⟨hr, u, hu⟩
      exact .of_starting (fun _ => hr) (fun u _ => houtside u (hh.not_inStart hmut u))
        (fun u _ => hnone u) rfl h.faithful
  | @join cfg hc hj =>
      obtain ⟨hother, hwaits⟩ := hinside cfg (by rw [hc]; rfl)
      exact .of_starting (fun _ => rfl) hother hwaits rfl h.faithful
  | @reset cfg hc =>
      obtain ⟨hother, hwaits⟩ := hinside cfg (by rw [hc]; rfl)
      exact .of_starting (fun _ => h.pending t (by rw [hc]; simp [Ctl.pending])) hother hwaits
        rfl (justified_concat.mpr ⟨h.faithful, trivial⟩)
  | @spawned cfg hc | @notSpawned cfg hc =>
      obtain ⟨hother, hwaits⟩ := hinside cfg (by rw [hc]; rfl)
      exact .of_starting (fun hp => absurd rfl hp) hother hwaits rfl h.faithful
  | unlock hc =>
      exact h.move rfl rfl rfl rfl rfl (by simp [Ctl.waitsFor]) (by simp)
        (justified_concat.mpr ⟨h.faithful, trivial⟩)
  | requestStop hc =>
      exact ⟨h.pending, h.waits, h.done, justified_concat.mpr ⟨h.faithful, trivial⟩⟩
  | stop hc =>
      exact h.move rfl rfl rfl rfl rfl (fun r hr => h.waits_inProgress hr) (by simp)
        (justified_concat.mpr ⟨h.faithful, trivial⟩)
  | wait hc =>
      exact h.move rfl rfl rfl rfl rfl (fun r hr => h.waits_inProgress hr) (by simp) h.faithful
  | @awake called hc hmut hd =>
      refine h.move rfl rfl rfl rfl rfl (fun r hr => ?_) (fun r hr => ?_) h.faithful
      · exact h.waits t r (by rw [hc]; exact hr)
      · obtain rfl : called = some r := by simpa using hr
        have hjoin := (h.waits t r (by rw [hc]; rfl)).2.1
        simpa [hjoin] using hd
  | @rethrow called hc hmut =>
      refine h.move rfl rfl rfl rfl rfl (by simp [Ctl.waitsFor]) (by simp)
        (justified_concat.mpr ⟨h.faithful, ?_⟩)
      cases called with
      | none => trivial
      | some r =>
          have hlatest := (h.waits t r (by rw [hc]; rfl)).1
          rw [Faithful, hlatest]
          exact ho.stored (h.done t r hc)

/-- **Every waiter is faithful** in a run in which no `start` is accepted while a waiter
called during a run has yet to return. -/
theorem faithful_of_not_overtaken (ls : List (Label St C X Tid))
    (hfree : Along Pipeline.step (fun s l => ¬ s.Overtakes l) ({} : Pipeline St C X Tid) ls) :
    Throughout Pipeline.step (fun s => Justified Faithful s.log) {} ls := by
  have hinv : Throughout Pipeline.step
      (fun s : Pipeline St C X Tid => Invariant s ∧ Outcomes s ∧ Watched s) {} ls := by
    refine run_invariant_along ?_ ⟨Invariant.init, Outcomes.init, Watched.init⟩ hfree
    rintro s l s' ⟨hi, ho, hw⟩ hnot hstep
    refine ⟨hi.step hstep, ?_⟩
    cases l with
    | worker outcome => exact ⟨ho.worker hi.handles hstep, hw.worker hstep⟩
    | thread t a =>
        have hm : Moves s t a s' := threadStep_moves hstep
        exact ⟨ho.thread hi.traces hm, hw.thread hi.handles ho hnot hm⟩
  exact hinv.imp fun s h => h.2.2.faithful

/-- A run whose only stage throws, and the waiter that returns before the next start. -/
theorem faithful_of_one_run :
    Throughout Pipeline.step (fun s : Pipeline Unit Empty String Bool => Justified Faithful s.log)
      {} [.thread true (.setSteps [()]), .thread true .start, .thread true .join,
        .thread true .reset, .thread true (.spawn true), .thread true .unlock, .worker none,
        .worker none, .thread false .wait, .worker (some "broken"), .worker none, .worker none,
        .worker none, .worker none, .thread false .awake, .thread false .rethrow,
        .thread true .start] :=
  faithful_of_not_overtaken _ (by decide +kernel)

/-- The next `start` comes before the waiter looks at the failure: the run has failed and
the waiter returns normally. -/
theorem not_faithful_of_restart :
    ¬ Throughout Pipeline.step (fun s : Pipeline Unit Empty String Bool => Justified Faithful s.log)
      {} [.thread true (.setSteps [()]), .thread true .start, .thread true .join,
        .thread true .reset, .thread true (.spawn true), .thread true .unlock, .worker none,
        .worker none, .thread false .wait, .worker (some "broken"), .worker none, .worker none,
        .worker none, .worker none, .thread false .awake, .thread true .start, .thread true .join,
        .thread true .reset, .thread true (.spawn true), .thread true .unlock,
        .thread false .rethrow] := by
  refine not_throughout_of_end
    (R := fun s => s.log =
      [Entry.reset 0, .startReturned 0, .event 0 (.began ()), .event 0 (.threw () "broken"),
          .event 0 .finished, .reset 1, .startReturned 1] ++
        [Entry.waitReturned false (some 0) none])
    (by decide +kernel) ?_
  intro s hlog hj
  rw [hlog, justified_concat] at hj
  exact absurd (show none = some "broken" from hj.2) (by simp)

end

end Pipeline

end Opencode.Stage
