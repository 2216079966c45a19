import Mathlib
import Opencode.Stage.Protocol

/-!
# Stop requests

The worker looks at the stop flag after each stage and nowhere else.  A request that
finds a stage executing is seen at the end of that stage, so no other stage begins; one
that falls between the test of the flag and the next call lets one more stage begin.
Either way the flag stays set until the run is over, because only the `start` of
another run clears it.

## Main definitions

* `begun r log` — the stages run `r` has begun.
* `Worker.mayBegin` — how many stages may still begin when the flag is set.
* `begun_after_request` — what a request guarantees.
-/

namespace Opencode.Stage

open Opencode.Lib

variable {St C X Tid : Type}

/-- The stages a run has begun, in order. -/
def begun (r : ℕ) (log : List (Entry St C X Tid)) : List St :=
  (events r log).filterMap fun
    | .began st => some st
    | _ => none

/-- A stage is executing: its call has begun and the flag has not been tested after it. -/
def Worker.executing : Worker St X → Bool
  | .inStage _ _ | .check _ => true
  | _ => false

/-- How many stages may still begin when the flag is set. -/
def Worker.mayBegin : Worker St X → ℕ
  | .head _ | .call _ => 1
  | _ => 0

theorem Worker.mayBegin_le (w : Worker St X) : w.mayBegin ≤ 1 := by
  cases w <;> simp [mayBegin]

theorem Worker.mayBegin_of_executing {w : Worker St X} (h : w.executing = true) :
    w.mayBegin = 0 := by
  cases w <;> simp_all [executing, mayBegin]

namespace Pipeline

/-! ## Returned starts -/

/-- A `start` that has created its thread, or has returned, belongs to a run. -/
structure Returned (s : Pipeline St C X Tid) : Prop where
  leaving : ∀ t, s.ctl t = .leaving → 0 < s.configs.length
  returned : ∀ r, .startReturned r ∈ s.log → r < s.configs.length

theorem Returned.init : Returned ({} : Pipeline St C X Tid) where
  leaving t h := by simp at h
  returned r h := by simp at h

theorem Returned.worker {s s' : Pipeline St C X Tid} (h : Returned s) (f : WorkerFrame s s') :
    Returned s' := by
  refine ⟨fun t ht => ?_, fun r hr => ?_⟩
  · rw [f.configs]
    exact h.leaving t (f.ctl ▸ ht)
  · rw [f.configs]
    rcases f.log with hlog | ⟨-, e, hlog⟩
    · exact h.returned r (hlog ▸ hr)
    · exact h.returned r (by simpa [hlog] using hr)

section

variable [DecidableEq Tid]

/-- A thread moves on to a place that is not the end of `start`. -/
theorem Returned.move {s s₁ : Pipeline St C X Tid} {t : Tid} {c : Ctl St C} (h : Returned s)
    (hctl : s₁.ctl = s.ctl) (hconfigs : s₁.configs = s.configs)
    (hlog : ∀ r, .startReturned r ∈ s₁.log → .startReturned r ∈ s.log ∨ r < s.configs.length)
    (hc : c ≠ .leaving) : Returned (s₁.move t c) := by
  refine ⟨fun u hu => ?_, fun r hr => ?_⟩
  · have hu' : s.ctl u = .leaving := by
      by_cases hut : u = t
      · subst hut
        rw [move_ctl_self] at hu
        exact absurd hu hc
      · rwa [move_ctl_of_ne s₁ c hut, hctl] at hu
    exact hconfigs ▸ h.leaving u hu'
  · rcases hlog r hr with hr | hr
    · exact hconfigs ▸ h.returned r hr
    · exact hconfigs ▸ hr

theorem Returned.thread {s s' : Pipeline St C X Tid} {t : Tid} {a : Action St C}
    (h : Returned s) (hm : Moves s t a s') : Returned s' := by
  cases hm with
  | refused _ => exact h
  | setSteps hc hmut hr | setCleanup hc hmut hr => exact ⟨h.leaving, h.returned⟩
  | start hc hmut hr => exact h.move rfl rfl (fun _ hr => .inl hr) (by simp)
  | join hc hj => exact h.move rfl rfl (fun _ hr => .inl hr) (by simp)
  | reset hc => exact h.move rfl rfl (fun r hr => .inl (by simpa [record] using hr)) (by simp)
  | spawned hc =>
      refine ⟨fun _ _ => by simp [Pipeline.move], fun r hr => ?_⟩
      have hr' : r < s.configs.length := h.returned r hr
      simp only [Pipeline.move, List.length_append, List.length_singleton]
      omega
  | notSpawned hc => exact h.move rfl rfl (fun _ hr => .inl hr) (by simp)
  | unlock hc =>
      refine h.move rfl rfl (fun r hr => ?_) (by simp)
      have hlen : 0 < s.configs.length := h.leaving t hc
      simp only [record, List.mem_append, List.mem_singleton, Entry.startReturned.injEq,
        latest] at hr
      rcases hr with hr | rfl
      · exact .inl hr
      · exact .inr (by omega)
  | requestStop hc => exact ⟨h.leaving, fun r hr => h.returned r (by simpa [record] using hr)⟩
  | stop hc => exact h.move rfl rfl (fun r hr => .inl (by simpa [record] using hr)) (by simp)
  | wait hc => exact h.move rfl rfl (fun _ hr => .inl hr) (by simp)
  | awake hc hmut hd => exact h.move rfl rfl (fun _ hr => .inl hr) (by simp)
  | rethrow hc hmut =>
      exact h.move rfl rfl (fun r hr => .inl (by simpa [record] using hr)) (by simp)

end

/-! ## After a request -/

/-- Run `r` exists, the flag stays set while it lasts, and of the stages it may begin
there are at most `n`. -/
structure Curbed (r n : ℕ) (s : Pipeline St C X Tid) : Prop where
  known : r < s.configs.length
  flag : s.latest = r → s.worker.active = true → s.stopFlag = true
  bound : (begun r s.log).length + (if s.latest = r then s.worker.mayBegin else 0) ≤ n

theorem begun_congr {r : ℕ} {log log' : List (Entry St C X Tid)}
    (h : events r log' = events r log) : begun r log' = begun r log := by
  rw [begun, h, begun]

/-- With the flag set, a step of the worker does not begin more than it may. -/
theorem begun_workerStep_le {s s' : Pipeline St C X Tid} {outcome : Option X}
    (hstep : s.workerStep outcome = some s')
    (hflag : s.worker.active = true → s.stopFlag = true) :
    (begun s.latest s'.log).length + s'.worker.mayBegin ≤
      (begun s.latest s.log).length + s.worker.mayBegin := by
  cases hw : s.worker <;> simp only [workerStep, hw] at hstep
  case call i =>
    obtain ⟨st, -, rfl⟩ := Option.map_eq_some_iff.mp hstep
    simp [begun, emit, Worker.mayBegin]
  case check i =>
    -- the branch back to the loop is not taken
    rw [if_pos (hflag (by rw [hw]; rfl))] at hstep
    cases hstep
    simp [goto, Worker.mayBegin]
  all_goals repeat' split at hstep
  all_goals cases hstep <;> simp [begun, emit, goto, Worker.mayBegin]

theorem Curbed.worker {r n : ℕ} {s s' : Pipeline St C X Tid} {outcome : Option X}
    (h : Curbed r n s) (hstep : s.workerStep outcome = some s') : Curbed r n s' := by
  have f : WorkerFrame s s' := workerStep_frame hstep
  have hlatest : s'.latest = s.latest := by rw [latest, f.configs, latest]
  refine ⟨by rw [f.configs]; exact h.known, fun hr hw => ?_, ?_⟩
  · rw [f.stopFlag]
    exact h.flag (hlatest ▸ hr) (f.active hw).1
  · rw [hlatest]
    by_cases hr : s.latest = r
    · subst hr
      have hbound := h.bound
      rw [if_pos rfl] at hbound ⊢
      exact (begun_workerStep_le hstep (h.flag rfl)).trans hbound
    · have hevents : events r s'.log = events r s.log := by
        rcases f.log with hlog | ⟨-, e, hlog⟩
        · rw [hlog]
        · simp [hlog, hr]
      have hbound := h.bound
      rw [if_neg hr] at hbound ⊢
      rw [begun_congr hevents]
      exact hbound

variable [DecidableEq Tid]

theorem Curbed.thread {r n : ℕ} {s s' : Pipeline St C X Tid} {t : Tid} {a : Action St C}
    (h : Curbed r n s) (hh : Handles s) (hm : Moves s t a s') : Curbed r n s' := by
  by_cases ha : a = .spawn true
  · subst ha
    cases hm with
    | refused _ => exact h
    | @spawned cfg hc =>
        -- the new run has another number
        have hne : s.configs.length ≠ r := h.known.ne'
        refine ⟨?_, ?_, ?_⟩
        · simpa [move] using Nat.lt_succ_of_lt h.known
        · intro hr
          exact absurd (by simpa [move, latest] using hr) hne
        · have hbound := h.bound
          simp only [move, latest, List.length_append, List.length_singleton,
            Nat.add_sub_cancel, if_neg hne]
          omega
  · obtain ⟨hw, hconfigs, hevents⟩ := hm.frame ha
    have hlatest : s'.latest = s.latest := by rw [latest, hconfigs, latest]
    refine ⟨by rw [hconfigs]; exact h.known, fun hr hact => ?_, ?_⟩
    · rw [hw] at hact
      have hflag : s.stopFlag = true := h.flag (hlatest ▸ hr) hact
      cases hm with
      | @reset cfg hc =>
          -- the flag is only cleared when no worker is active
          have hinactive := ((hh.placed t).2 cfg (by rw [hc]; rfl)).2
          rw [hinactive] at hact
          cases hact
      | requestStop hc | stop hc => rfl
      | _ => exact hflag
    · rw [begun_congr (hevents r), hlatest, hw]
      exact h.bound

theorem Curbed.step {r n : ℕ} {s s' : Pipeline St C X Tid} {l : Label St C X Tid}
    (h : Curbed r n s) (hi : Invariant s) (hstep : s.step l = some s') : Curbed r n s' := by
  cases l with
  | worker outcome => exact h.worker hstep
  | thread t a => exact h.thread hi.handles (threadStep_moves hstep)

/-- The invariants of every state a run reaches. -/
theorem reachable_returned {ls : List (Label St C X Tid)} {s : Pipeline St C X Tid}
    (hrun : run Pipeline.step {} ls = some s) : Invariant s ∧ Returned s := by
  refine run_invariant (Q := fun s => Invariant s ∧ Returned s) ?_
    ⟨Invariant.init, Returned.init⟩ hrun
  rintro s l s' ⟨hi, hret⟩ hs
  refine ⟨hi.step hs, ?_⟩
  cases l with
  | worker outcome => exact hret.worker (workerStep_frame hs)
  | thread t a => exact hret.thread (threadStep_moves hs)

/-- A request sets the flag and is recorded; `stop` then waits. -/
theorem step_of_request {s s₁ : Pipeline St C X Tid} {t : Tid} {a : Action St C}
    (ha : a = .requestStop ∨ a = .stop) (hreq : s.step (.thread t a) = some s₁) :
    s₁.stopFlag = true ∧ s₁.worker = s.worker ∧ s₁.configs = s.configs ∧
      ∀ r, events r s₁.log = events r s.log := by
  rcases ha with rfl | rfl <;> cases hc : s.ctl t <;>
    simp only [Pipeline.step, threadStep, hc, reduceCtorEq, Option.some.injEq] at hreq <;>
    subst hreq <;> simp [record, move]

/-- **A stop request stops the run at the next boundary.**  Once the `start` of run `r`
has returned, at most one stage of the run begins after a request, whatever the rest of
the schedule; and none does when the request finds a stage executing. -/
theorem begun_after_request {ls ms : List (Label St C X Tid)} {s s₁ s' : Pipeline St C X Tid}
    {t : Tid} {a : Action St C} {r : ℕ} (hrun : run Pipeline.step {} ls = some s)
    (hret : .startReturned r ∈ s.log) (ha : a = .requestStop ∨ a = .stop)
    (hreq : s.step (.thread t a) = some s₁) (hrest : run Pipeline.step s₁ ms = some s') :
    (begun r s'.log).length ≤ (begun r s.log).length + 1 ∧
      (s.worker.executing = true → (begun r s'.log).length ≤ (begun r s.log).length) := by
  obtain ⟨hi, hreturned⟩ := reachable_returned hrun
  obtain ⟨hflag, hworker, hconfigs, hevents⟩ := step_of_request ha hreq
  have hlatest : s₁.latest = s.latest := by rw [latest, hconfigs, latest]
  have hcurbed : Curbed r ((begun r s.log).length +
      if s.latest = r then s.worker.mayBegin else 0) s₁ := by
    refine ⟨by rw [hconfigs]; exact hreturned.returned r hret, fun _ _ => hflag, ?_⟩
    rw [begun_congr (hevents r), hlatest, hworker]
  have hend := run_invariant (Q := fun s => Invariant s ∧ Curbed r _ s)
    (fun _ _ _ h hs => ⟨h.1.step hs, h.2.step h.1 hs⟩) ⟨hi.step hreq, hcurbed⟩ hrest
  have hbound := hend.2.bound
  constructor
  · have hle := s.worker.mayBegin_le
    split at hbound <;> split at hbound <;> omega
  · intro hexec
    rw [Worker.mayBegin_of_executing hexec] at hbound
    split at hbound <;> split at hbound <;> omega

/-- Two stages and a request during the first one: the second never begins. -/
theorem begun_after_request_in_first :
    ∃ s s₁ s' : Pipeline Bool Unit Empty Bool,
      run Pipeline.step {} [.thread true (.setSteps [false, true]), .thread true .start,
        .thread true .join, .thread true .reset, .thread true (.spawn true),
        .thread true .unlock, .worker none, .worker none] = some s ∧
      s.step (.thread false .stop) = some s₁ ∧
      run Pipeline.step s₁ [.worker none, .worker none, .worker none, .worker none] = some s' ∧
      (begun 0 s'.log).length ≤ (begun 0 s.log).length := by
  have hrun : ∃ s ∈ run Pipeline.step ({} : Pipeline Bool Unit Empty Bool)
      [.thread true (.setSteps [false, true]), .thread true .start, .thread true .join,
        .thread true .reset, .thread true (.spawn true), .thread true .unlock, .worker none,
        .worker none], .startReturned 0 ∈ s.log ∧ s.worker.executing = true ∧
      ∃ s₁ ∈ s.step (.thread false .stop),
        (run Pipeline.step s₁ [.worker none, .worker none, .worker none, .worker none]).isSome := by
    decide +kernel
  obtain ⟨s, hs, hret, hexec, s₁, hs₁, hrest⟩ := hrun
  obtain ⟨s', hs'⟩ := Option.isSome_iff_exists.mp hrest
  exact ⟨s, s₁, s', hs, hs₁, hs', (begun_after_request hs hret (.inr rfl) hs₁ hs').2 hexec⟩

end Pipeline

end Opencode.Stage
