import Mathlib
import Opencode.Lib.Settle
import Opencode.Async.Wakeups

/-!
# Every call returns

`stop_async` waits for the loop, and the loop may be asleep, between its sections, or have
a queue before it.  Unless the program has been terminated nothing blocks: once no further
call is made, every call in progress returns, a machine that is being stopped has no loop
left, and the loop of a running one falls asleep.  It has emptied the queue by then, if it
is not one of those that sleep on queued work already.

A spurious wake-up only lets a sleeping loop test for work once more; they are left out of
the runs that are counted.  The callbacks of an event are part of one step: that they end by
themselves is taken for granted.

## Main definitions

* `AsyncMachine.AtRest` — no call is in progress, and the loop is asleep or gone.
* `AsyncMachine.remaining` — how many steps there are at most before that.
* `atRest_throughout` — the machine comes to rest, from every state of every run.
-/

namespace Opencode.Async

open Opencode.Fsm Opencode.Lib
open scoped BigOperators

variable {S E A G B Tid : Type}

/-- The steps of a loop before it looks for work again. -/
def Loop.remaining : Loop E → ℕ
  | .exited | .asleep => 0
  | .ready => 1
  | .popped _ => 2

/-- The steps of a call in progress, with the one of a loop it wakes. -/
def Ctl.remaining : Ctl → ℕ
  | .idle => 0
  | .notifying => 2
  | .stopping => 3
  | .joining => 1

/-- A section of a loop, or a step that carries on a call. -/
def Label.own : Label E Tid → Bool
  | .notifyOne _ _ | .notifyAll _ | .join _ | .loop _ => true
  | _ => false

namespace AsyncMachine

/-- No call is in progress; the loop of a running machine is asleep, and there is none of
another one. -/
def AtRest (s : AsyncMachine S E A G B Tid) : Prop :=
  (∀ t, s.ctl t = .idle) ∧
    if s.running then ∃ i, s.handle = some i ∧ s.loop i = .asleep else ∀ i, s.loop i = .exited

/-! ## The invariant -/

/-- The loops, the handle and the calls of `stop_async` belong together, and the loop that
is waited for is not asleep. -/
structure Live (s : AsyncMachine S E A G B Tid) : Prop where
  going : s.terminated = false
  owned : Owned s
  awake : ∀ t, s.ctl t = .joining → ∀ i, s.loop i ≠ .asleep

variable [DecidableEq Tid]

omit [DecidableEq Tid] in
/-- A step that lets nobody join and puts no loop to sleep. -/
theorem awake_frame {s s' : AsyncMachine S E A G B Tid}
    (h : ∀ t, s.ctl t = .joining → ∀ i, s.loop i ≠ .asleep)
    (hctl : ∀ t, s'.ctl t = .joining → s.ctl t = .joining)
    (hloop : ∀ i, s'.loop i = .asleep → s.loop i = .asleep) :
    ∀ t, s'.ctl t = .joining → ∀ i, s'.loop i ≠ .asleep :=
  fun t ht i hi => h t (hctl t ht) i (hloop i hi)

theorem joining_goto {s : AsyncMachine S E A G B Tid} {t : Tid} {c : Ctl} (hc : c ≠ .joining)
    (u : Tid) (hu : (s.goto t c).ctl u = .joining) : s.ctl u = .joining := by
  by_cases hut : u = t
  · rw [hut, ctl_goto_self] at hu
    exact absurd hu hc
  · rwa [ctl_goto_of_ne s c hut] at hu

omit [DecidableEq Tid] in
theorem asleep_setLoop {s : AsyncMachine S E A G B Tid} {i : ℕ} {l : Loop E} (hl : l ≠ .asleep)
    (j : ℕ) (hj : (s.setLoop i l).loop j = .asleep) : s.loop j = .asleep := by
  by_cases hji : j = i
  · rw [hji, loop_setLoop_self] at hj
    exact absurd hj hl
  · rwa [loop_setLoop_of_ne s l hji] at hj

variable [DecidableEq S] [DecidableEq E] {guards : G → Bool}

theorem Live.step {s s' : AsyncMachine S E A G B Tid} {l : Label E Tid} (h : Live s)
    (hterm : s'.terminated = false) (hs : Steps guards s l s') : Live s' := by
  refine ⟨hterm, h.owned.step hterm hs, ?_⟩
  have ha := h.awake
  cases hs with
  | post event hc =>
      exact awake_frame ha (joining_goto (s := s.postEvent event) (by simp)) fun _ hi => hi
  | woken hc hl =>
      exact awake_frame ha (joining_goto (s := s.setLoop _ .ready) (by simp))
        (asleep_setLoop (by simp))
  | unheard hc hl => exact awake_frame ha (joining_goto (by simp)) fun _ hi => hi
  | deferred hp | requeued => exact ha
  | notDeferred _ | startRefused _ | stopRefused _ => exact ha
  | started hr =>
      refine awake_frame ha (fun _ ht => ht) fun i hi => ?_
      by_cases hne : i = s.spawned
      · simp [hne] at hi
      · simpa [hne] using hi
  | stopped hc hr =>
      exact awake_frame ha (joining_goto (s := { s with running := false }) (by simp))
        fun _ hi => hi
  | notifyAll hc => exact fun _ _ => awake_notifyAll s
  | notJoined hc hh => exact awake_frame ha (joining_goto (by simp)) fun _ hi => hi
  | joined hc hh hl =>
      exact awake_frame ha (joining_goto (s := { s with handle := none }) (by simp))
        fun _ hi => hi
  | slept hl hq hr =>
      -- a thread that joins has cleared `running_`
      intro t ht
      have hstop := (h.owned.stopping t (by rw [show s.ctl t = .joining from ht]; rfl)).1
      rw [hr] at hstop
      cases hstop
  | left hl hq hr => exact awake_frame ha (fun _ ht => ht) (asleep_setLoop (by simp))
  | popped hl hq => exact awake_frame ha (fun _ ht => ht) (asleep_setLoop (by simp))
  | handled hl =>
      exact awake_frame ha (fun _ ht => ht)
        (asleep_setLoop (s := s.handleEvent guards _) (by simp))
  | wake hl => exact awake_frame ha (fun _ ht => ht) (asleep_setLoop (by simp))

omit [DecidableEq S] [DecidableEq E] [DecidableEq Tid] in
theorem Live.init (m : EventDrivenStateMachine S E A G B) :
    Live ({ machine := m } : AsyncMachine S E A G B Tid) :=
  ⟨rfl, Owned.init m, by simp⟩

/-! ## A step is left until the machine is at rest -/

/-- A loop that is ready or between its sections can go on. -/
theorem Live.loop_moves {s : AsyncMachine S E A G B Tid} (h : Live s) (guards : G → Bool) {i : ℕ}
    (hexited : s.loop i ≠ .exited) (hasleep : s.loop i ≠ .asleep) :
    ∃ s', s.step guards (.loop i) = some s' := by
  rw [AsyncMachine.step, if_neg (by simp [h.going])]
  cases hl : s.loop i with
  | exited => exact absurd hl hexited
  | asleep => exact absurd hl hasleep
  | popped item => exact ⟨_, by simp [processingLoop, hl]; rfl⟩
  | ready =>
      cases hq : s.queue with
      | nil => by_cases hr : s.running <;> exact ⟨_, by simp [processingLoop, hl, hq, hr]; rfl⟩
      | cons item rest => exact ⟨_, by simp [processingLoop, hl, hq]; rfl⟩

/-- A call in progress can go on, or waits for a loop that can. -/
theorem Live.call_moves {s : AsyncMachine S E A G B Tid} (h : Live s) {t : Tid}
    (ht : s.ctl t ≠ .idle) : ∃ l s', l.own = true ∧ s.step guards l = some s' := by
  cases hc : s.ctl t with
  | idle => exact absurd hc ht
  | notifying =>
      by_cases hsleeper : ∃ i, s.loop i = .asleep
      · obtain ⟨i, hi⟩ := hsleeper
        exact ⟨.notifyOne t (some i), _, rfl, by simp [AsyncMachine.step, h.going, hc, notifyOne, hi]; rfl⟩
      · have hnone : ∀ i < s.spawned, ¬ (s.loop i).isAsleep := by
          intro i _ hi
          exact hsleeper ⟨i, Loop.isAsleep_iff.mp hi⟩
        exact ⟨.notifyOne t none, s.goto t .idle, rfl, by
          rw [AsyncMachine.step, if_neg (by simp [h.going]), if_pos hc, notifyOne, if_pos hnone]
          rfl⟩
  | stopping => exact ⟨.notifyAll t, _, rfl, by simp [AsyncMachine.step, h.going, hc]; rfl⟩
  | joining =>
      obtain ⟨-, hhandle⟩ := h.owned.stopping t (by rw [hc]; rfl)
      obtain ⟨i, hi⟩ := Option.isSome_iff_exists.mp hhandle
      by_cases hexited : s.loop i = .exited
      · exact ⟨.join t, _, rfl, by
          simp [AsyncMachine.step, h.going, hc, joinLoop, hi, hexited]; rfl⟩
      · obtain ⟨s', hs'⟩ := h.loop_moves guards hexited (h.awake t hc i)
        exact ⟨.loop i, s', rfl, hs'⟩

theorem Live.moves {s : AsyncMachine S E A G B Tid} (h : Live s) :
    AtRest s ∨ ∃ l s', l.own = true ∧ s.step guards l = some s' := by
  by_cases hidle : ∀ t, s.ctl t = .idle
  · by_cases hloop : ∃ i, s.loop i ≠ .exited ∧ s.loop i ≠ .asleep
    · obtain ⟨i, hexited, hasleep⟩ := hloop
      obtain ⟨s', hs'⟩ := h.loop_moves guards hexited hasleep
      exact .inr ⟨.loop i, s', rfl, hs'⟩
    · refine .inl ⟨hidle, ?_⟩
      have hstill : ∀ i, s.loop i ≠ .exited → s.loop i = .asleep := by
        intro i hi
        by_contra hne
        exact hloop ⟨i, hi, hne⟩
      cases hr : s.running with
      | true =>
          obtain ⟨i, hi, hlive⟩ := h.owned.running hr
          exact ⟨i, hi, hstill i hlive⟩
      | false =>
          -- nobody is in `stop_async`, so the handle is free
          intro i
          by_contra hi
          have hsome : s.handle.isSome := by rw [h.owned.alive i hi]; rfl
          obtain ⟨t, ht⟩ := h.owned.stopper hr hsome
          rw [hidle t] at ht
          cases ht
  · obtain ⟨t, ht⟩ := not_forall.mp hidle
    exact .inr (h.call_moves ht)

/-! ## And only so many -/

/-- Outside these threads nobody is inside a call. -/
def Within (T : Finset Tid) (s : AsyncMachine S E A G B Tid) : Prop := ∀ t ∉ T, s.ctl t = .idle

/-- The steps before the calls in progress and the loop: two for each event in the queue. -/
def remaining (T : Finset Tid) (s : AsyncMachine S E A G B Tid) : ℕ :=
  2 * s.queue.length + (s.handle.elim 0 fun i => (s.loop i).remaining) +
    ∑ t ∈ T, (s.ctl t).remaining

omit [DecidableEq S] [DecidableEq E] in
theorem Within.goto {T : Finset Tid} {s : AsyncMachine S E A G B Tid} (h : Within T s) {t : Tid}
    (ht : t ∈ T) (c : Ctl) : Within T (s.goto t c) := by
  intro u hu
  exact (ctl_goto_of_ne s c (ne_of_mem_of_not_mem ht hu).symm).trans (h u hu)

omit [DecidableEq S] [DecidableEq E] [DecidableEq Tid] in
theorem Within.mem {T : Finset Tid} {s : AsyncMachine S E A G B Tid} (h : Within T s) {t : Tid}
    (ht : s.ctl t ≠ .idle) : t ∈ T := by
  by_contra hT
  exact ht (h t hT)

omit [DecidableEq S] [DecidableEq E] in
/-- A call goes on. -/
theorem sum_ctl_goto {T : Finset Tid} (s : AsyncMachine S E A G B Tid) {t : Tid} (ht : t ∈ T)
    (c : Ctl) :
    (∑ u ∈ T, ((s.goto t c).ctl u).remaining) + (s.ctl t).remaining =
      (∑ u ∈ T, (s.ctl u).remaining) + c.remaining :=
  sum_update ht Ctl.remaining s.ctl c

/-- An own step keeps to the threads and lowers what remains. -/
theorem remaining_lt {T : Finset Tid} {s s' : AsyncMachine S E A G B Tid} {l : Label E Tid}
    (h : Live s) (hT : Within T s) (hown : l.own = true) (hs : Steps guards s l s') :
    Within T s' ∧ remaining T s' < remaining T s := by
  cases hs with
  | @woken t i hc hl =>
      have ht : t ∈ T := hT.mem (by simp [hc])
      have hhandle : s.handle = some i := h.owned.alive i (by simp [hl])
      have hsum := sum_ctl_goto (s.setLoop i .ready) ht .idle
      have hc' : ((s.setLoop i .ready).ctl t).remaining = 2 := by
        rw [show (s.setLoop i .ready).ctl t = .notifying from hc]
        rfl
      refine ⟨Within.goto (s := s.setLoop i .ready) hT ht _, ?_⟩
      simp only [remaining, goto, setLoop, hhandle, Option.elim_some, Function.update_self, hl,
        Loop.remaining, Ctl.remaining] at hsum hc' ⊢
      omega
  | @unheard t hc hl =>
      have ht : t ∈ T := hT.mem (by simp [hc])
      have hsum := sum_ctl_goto s ht .idle
      rw [hc] at hsum
      refine ⟨hT.goto ht _, ?_⟩
      simp only [remaining, goto, Ctl.remaining] at hsum ⊢
      omega
  | @notifyAll t hc =>
      have ht : t ∈ T := hT.mem (by simp [hc])
      have hsum := sum_ctl_goto s.notifyAll ht .joining
      rw [show s.notifyAll.ctl t = .stopping from hc] at hsum
      refine ⟨Within.goto (s := s.notifyAll) hT ht _, ?_⟩
      have hloop : ∀ l : Loop E, (Loop.notified l).remaining ≤ l.remaining + 1 := by
        intro l
        cases l <;> simp [Loop.notified, Loop.remaining]
      cases hhandle : s.handle with
      | none =>
          simp only [remaining, goto, notifyAll, hhandle, Option.elim_none, Ctl.remaining] at hsum ⊢
          omega
      | some i =>
          have hi := hloop (s.loop i)
          simp only [remaining, goto, notifyAll, hhandle, Option.elim_some, Ctl.remaining] at hsum ⊢
          omega
  | @notJoined t hc hh =>
      have ht : t ∈ T := hT.mem (by simp [hc])
      have hsum := sum_ctl_goto s ht .idle
      rw [hc] at hsum
      refine ⟨hT.goto ht _, ?_⟩
      simp only [remaining, goto, Ctl.remaining] at hsum ⊢
      omega
  | @joined t i hc hh hl =>
      have ht : t ∈ T := hT.mem (by simp [hc])
      have hsum := sum_ctl_goto { s with handle := none } ht .idle
      rw [show ({ s with handle := none } : AsyncMachine S E A G B Tid).ctl t = .joining from hc]
        at hsum
      refine ⟨Within.goto (s := { s with handle := none }) hT ht _, ?_⟩
      simp only [remaining, goto, hh, hl, Option.elim_none, Option.elim_some, Loop.remaining,
        Ctl.remaining] at hsum ⊢
      omega
  | @slept i hl hq hr =>
      have hhandle : s.handle = some i := h.owned.alive i (by simp [hl])
      refine ⟨hT, ?_⟩
      simp [remaining, setLoop, hhandle, hl, Loop.remaining]
  | @left i hl hq hr =>
      have hhandle : s.handle = some i := h.owned.alive i (by simp [hl])
      refine ⟨hT, ?_⟩
      simp [remaining, setLoop, hhandle, hl, Loop.remaining]
  | @popped i item rest hl hq =>
      have hhandle : s.handle = some i := h.owned.alive i (by simp [hl])
      refine ⟨hT, ?_⟩
      simp only [remaining, setLoop, hhandle, hl, hq, Option.elim_some, Function.update_self,
        Loop.remaining, List.length_cons]
      omega
  | @handled i item hl =>
      have hhandle : s.handle = some i := h.owned.alive i (by simp [hl])
      refine ⟨hT, ?_⟩
      simp [remaining, setLoop, handleEvent, hhandle, hl, Loop.remaining]
  | _ => cases hown

/-- Only `start_async` can terminate the program. -/
theorem going_of_own {s s' : AsyncMachine S E A G B Tid} {l : Label E Tid}
    (h : s.terminated = false) (hown : l.own = true) (hs : Steps guards s l s') :
    s'.terminated = false := by
  cases hs <;> first | exact h | cases hown

theorem settles (T : Finset Tid) (P : Prop) :
    Settles (@step S E A G B Tid _ _ _ guards) Label.own (fun _ => false)
      (fun s => Live s ∧ Within T s ∧ (P → Alert s))
      (fun s => AtRest s ∧ (P → s.running → s.queue = [])) (remaining T) where
  keeps s l s' h hl hs := by
    have hown : l.own = true := hl.resolve_right (by simp)
    have hsteps := step_steps hs
    refine ⟨h.1.step (going_of_own h.1.going hown hsteps) hsteps,
      (remaining_lt h.1 h.2.1 hown hsteps).1, fun hP => ?_⟩
    refine ((h.2.2 hP).step_iff h.1.owned hsteps).mpr fun hstalls => ?_
    cases l with
    | processDeferred t => cases hown
    | _ => exact hstalls
  lowers s l s' h hown hs := (remaining_lt h.1 h.2.1 hown (step_steps hs)).2
  calm_le s l s' h hcalm hs := by cases hcalm
  moves s h := by
    refine h.1.moves.imp_left fun hrest => ⟨hrest, fun hP hr => ?_⟩
    obtain ⟨hidle, hloop⟩ := hrest
    rw [if_pos hr] at hloop
    obtain ⟨i, -, hi⟩ := hloop
    exact h.2.2 hP (fun t => by simp [hidle t]) i hi

/-- A step makes at most one more thread busy. -/
theorem exists_within {T : Finset Tid} {s s' : AsyncMachine S E A G B Tid} {l : Label E Tid}
    (hT : Within T s) (hs : Steps guards s l s') : ∃ T', Within T' s' := by
  cases hs with
  | @post t | @woken t | @unheard t | @stopped t | @notifyAll t | @notJoined t | @joined t =>
      refine ⟨insert t T, fun u hu => ?_⟩
      obtain ⟨hut, hu⟩ : u ≠ t ∧ u ∉ T := by simpa using hu
      exact (Function.update_of_ne hut _ _).trans (hT u hu)
  | _ => exact ⟨T, hT⟩

/-- **Every call returns**, unless the program has been terminated: however the threads and
the loop are scheduled, from every state of every run, once no further call is made, the
machine comes to rest.  A running loop has emptied the queue by then, unless some loop was
asleep on queued work before. -/
theorem atRest_throughout (m : EventDrivenStateMachine S E A G B) (guards : G → Bool)
    (ls : List (Label E Tid)) :
    Throughout (step guards)
      (fun s => s.terminated = false →
        ComesToRest (step guards) Label.own (fun _ => false)
          (fun t => AtRest t ∧ (Alert s → t.running → t.queue = [])) s)
      ({ machine := m } : AsyncMachine S E A G B Tid) ls := by
  have hlive : Throughout (step guards)
      (fun s => (s.terminated = false → Live s) ∧ ∃ T, Within T s)
      ({ machine := m } : AsyncMachine S E A G B Tid) ls := by
    refine throughout_of_step (fun s l s' h hs => ?_)
      ⟨fun _ => Live.init m, ∅, fun _ _ => rfl⟩ ls
    have hsteps := step_steps hs
    exact ⟨fun hterm => (h.1 (terminated_of_step hs)).step hterm hsteps,
      h.2.elim fun _ hT => exists_within hT hsteps⟩
  exact hlive.imp fun s ⟨h, T, hT⟩ hterm =>
    (settles T (Alert s)).comesToRest ⟨h hterm, hT, id⟩

end AsyncMachine
end Opencode.Async
