import Mathlib
import Opencode.Lib.Settle
import Opencode.Pool.Mailboxes

/-!
# `shutdown()` returns

`shutdown()` flags the workers one after the other, notifies each, and then joins them in
order.  A worker works its mailbox off before it looks at its flag, other threads may
still submit, and a worker that was asleep needs its notification.  Once `shutdown()` has
been called and nothing new is submitted, all of that comes to an end: the calls in
progress return, every worker leaves, and `shutdown()` returns.

A worker asleep may wake at any time without a notification.  Such wake-ups are not
counted among the steps; they are neither needed nor in the way.

The run of a task has one end, which comes by itself.  A task that ends only when it is
asked to stop is not among those covered: a worker clears its stop flag before every task,
so one that was still in the mailbox when `shutdown()` raised the flag never sees it.

## Main definitions

* `Worker.remaining`, `Ctl.remaining`, `ShutdownPc.remaining` — the steps before a party.
* `ThreadPool.ShutDown` — everything has ended.
* `shutdown_comesToRest` — it is reached from every state after the call of `shutdown()`.
-/

namespace Opencode.Pool

open Opencode.Lib
open scoped BigOperators

universe u v
variable {n : ℕ} {τ : Type u} {Tid : Type v}

/-! ## What is left to do -/

def Pc.remaining : Pc τ → ℕ
  | .exited | .asleep => 0
  | .ready => 1
  | .running _ => 2
  | .popped _ => 3

def Worker.remaining (w : Worker τ) : ℕ := 4 * w.tasks.length + w.pc.remaining

/-- The steps of a call of `submit`, and of the worker it gives work. -/
def Ctl.remaining : Ctl n τ → ℕ
  | .idle => 0
  | .notifying _ => 2
  | .drawn _ _ => 7

/-- The steps of `shutdown()`, and of the workers it wakes. -/
def ShutdownPc.remaining : ShutdownPc n → ℕ
  | .idle => 5 * n + 3
  | .requestStop k => 4 * (n - k) + n + 2
  | .setShutdown i => 4 * (n - i) + n + 1
  | .notify i => 4 * (n - i) + n
  | .join k => n - k + 1
  | .returned => 0

@[simp] theorem Worker.shutdown_notified (w : Worker τ) : w.notified.shutdown = w.shutdown := by
  unfold Worker.notified
  split <;> rfl

theorem Worker.remaining_notified_le (w : Worker τ) :
    w.notified.remaining ≤ w.remaining + 1 := by
  unfold Worker.notified
  split
  · next hpc => simp [Worker.remaining, hpc, Pc.remaining]
  · omega

theorem Worker.remaining_enter_lt {w : Worker τ} (h : w.pc = .ready) :
    w.enter.remaining < w.remaining := by
  unfold Worker.enter
  split
  · next htasks => cases w.shutdown <;> simp [Worker.remaining, h, htasks, Pc.remaining]
  · next htasks =>
      simp only [Worker.remaining, h, htasks, Pc.remaining, List.length_cons]
      omega

/-- A step of a worker, of `shutdown()`, or of a call of `submit` in progress. -/
def Label.own : Label n τ Tid → Bool
  | .submitDrawn _ | .notifyOne _ | .enter _ | .clearStop _ | .finish _ | .shutdown => true
  | _ => false

def Label.isStopWorker : Label n τ Tid → Bool
  | .stopWorker _ => true
  | _ => false

namespace ThreadPool

/-- `shutdown()` has returned, every worker has left, and no call is in progress. -/
def ShutDown (s : ThreadPool n τ Tid) : Prop :=
  s.shutdownPc = .returned ∧ (∀ i, (s.workers i).pc = .exited) ∧ ∀ t, s.ctl t = .idle

/-! ## The workers that have been flagged -/

/-- `shutdown()` has set the flag of the worker. -/
def Passed (s : ThreadPool n τ Tid) (i : Fin n) : Prop :=
  match s.shutdownPc with
  | .idle => False
  | .requestStop k => i < k
  | .setShutdown j => i < j
  | .notify j => i ≤ j
  | .join _ | .returned => True

/-- The workers `shutdown()` has passed are flagged. -/
structure Orderly (s : ThreadPool n τ Tid) : Prop where
  sound : s.Sound
  alert : s.Alert
  flagged : ∀ i, s.Passed i → (s.workers i).shutdown = true

theorem shutdown_setWorker {s : ThreadPool n τ Tid} {i : Fin n} {w : Worker τ}
    (hw : w.shutdown = (s.workers i).shutdown) (j : Fin n) :
    ((s.setWorker i w).workers j).shutdown = (s.workers j).shutdown := by
  rw [workers_setWorker]
  split
  case isTrue heq => rw [heq, hw]
  case isFalse => rfl

variable [DecidableEq Tid] {s s' : ThreadPool n τ Tid} {l : Label n τ Tid}

/-- Only `shutdown()` sets flags. -/
theorem Steps.shutdown_eq (hs : s.Steps l s') (hl : l ≠ .shutdown) :
    s'.shutdownPc = s.shutdownPc ∧ ∀ i, (s'.workers i).shutdown = (s.workers i).shutdown := by
  cases hs with
  | pushed | woke | cleared | finished | stopped => exact ⟨rfl, shutdown_setWorker rfl⟩
  | refused | drew => exact ⟨rfl, fun _ => rfl⟩
  | notifiedOne => exact ⟨rfl, shutdown_setWorker (Worker.shutdown_notified _)⟩
  | @entered i =>
      refine ⟨rfl, shutdown_setWorker ?_⟩
      unfold Worker.enter
      split <;> rfl
  | _ => exact absurd rfl hl

omit [DecidableEq Tid] in
/-- `shutdown()` passes a worker when it sets its flag. -/
theorem flagged_stepShutdown (h : ∀ i, s.Passed i → (s.workers i).shutdown = true)
    (hs : s.stepShutdown = some s') (i : Fin n) (hi : s'.Passed i) :
    (s'.workers i).shutdown = true := by
  simp only [Passed] at h
  unfold stepShutdown at hs
  split at hs <;> rename_i hpc <;> simp only [hpc] at h
  · cases hs
    simp [Passed] at hi
  · split at hs <;> rename_i hk <;> cases hs
    · rename_i k
      simp only [Passed] at hi
      exact (shutdown_setWorker (s := s) (i := ⟨k, hk⟩)
        (w := { s.workers ⟨k, hk⟩ with stop := true }) rfl i).trans (h i hi)
    · exact h i (by omega)
  · rename_i j
    cases hs
    simp only [Passed] at hi
    rw [workers_setWorker]
    split
    case isTrue => rfl
    case isFalse hne => exact h i (lt_of_le_of_ne hi hne)
  · rename_i j
    cases hs
    simp only [Passed, Nat.lt_succ_iff] at hi
    exact (shutdown_setWorker (Worker.shutdown_notified _) i).trans (h i hi)
  · split at hs
    · split at hs <;> cases hs
      exact h i trivial
    · cases hs
      exact h i trivial
  · cases hs

theorem Orderly.step (h : s.Orderly) (hs : s.step l = some s') : s'.Orderly := by
  have hsteps : s.Steps l s' := step_steps hs
  refine ⟨h.sound.step hsteps, hsteps.alert h.alert, ?_⟩
  by_cases hl : l = .shutdown
  · subst hl
    exact flagged_stepShutdown h.flagged hs
  · obtain ⟨hpc, hflags⟩ := hsteps.shutdown_eq hl
    intro i hi
    rw [hflags]
    exact h.flagged i (by simpa only [Passed, hpc] using hi)

omit [DecidableEq Tid] in
theorem Orderly.init : Orderly ({} : ThreadPool n τ Tid) where
  sound := Sound.init
  alert i hi := by cases hi.1
  flagged i hi := hi.elim

/-! ## Steps are left until everything has ended -/

/-- Outside these threads nobody is inside a call. -/
def Within (T : Finset Tid) (s : ThreadPool n τ Tid) : Prop := ∀ t ∉ T, s.ctl t = .idle

/-- The steps before the workers, the calls in progress and `shutdown()`. -/
def remaining (T : Finset Tid) (s : ThreadPool n τ Tid) : ℕ :=
  s.shutdownPc.remaining + ∑ i, (s.workers i).remaining + ∑ t ∈ T, (s.ctl t).remaining

omit [DecidableEq Tid] in
theorem Within.mem {T : Finset Tid} (h : Within T s) {t : Tid} (ht : s.ctl t ≠ .idle) : t ∈ T := by
  by_contra hT
  exact ht (h t hT)

theorem Within.goto {T : Finset Tid} (h : Within T s) {t : Tid} (ht : t ∈ T) (c : Ctl n τ) :
    Within T (s.goto t c) := by
  intro u hu
  exact (Function.update_of_ne (ne_of_mem_of_not_mem ht hu).symm _ _).trans (h u hu)

omit [DecidableEq Tid] in
theorem sum_setWorker (s : ThreadPool n τ Tid) (i : Fin n) (w : Worker τ) :
    (∑ j, ((s.setWorker i w).workers j).remaining) + (s.workers i).remaining =
      (∑ j, (s.workers j).remaining) + w.remaining :=
  sum_update (Finset.mem_univ i) Worker.remaining s.workers w

theorem sum_goto {T : Finset Tid} {t : Tid} (ht : t ∈ T) (s : ThreadPool n τ Tid) (c : Ctl n τ) :
    (∑ u ∈ T, ((s.goto t c).ctl u).remaining) + (s.ctl t).remaining =
      (∑ u ∈ T, (s.ctl u).remaining) + c.remaining :=
  sum_update ht Ctl.remaining s.ctl c

theorem remaining_pushTo {T : Finset Tid} {t : Tid} {i : Fin n} {task : τ} (hT : Within T s)
    (hc : s.ctl t = .drawn i task) (hs : s.pushTo t i task = some s') :
    Within T s' ∧ s'.shutdownPc = s.shutdownPc ∧ remaining T s' < remaining T s := by
  have ht : t ∈ T := hT.mem (by simp [hc])
  unfold pushTo at hs
  split at hs <;> cases hs
  have hworkers := sum_setWorker s i ((s.workers i).push task)
  have hctl := sum_goto ht (s.setWorker i ((s.workers i).push task)) (.notifying i)
  refine ⟨Within.goto hT ht _, rfl, ?_⟩
  simp only [remaining, Worker.remaining, Worker.push, setWorker, ThreadPool.goto, hc,
    Ctl.remaining, List.length_append, List.length_singleton] at hworkers hctl ⊢
  omega

omit [DecidableEq Tid] in
theorem remaining_setWorker {T : Finset Tid} {i : Fin n} {w : Worker τ} (hT : Within T s)
    (hlt : w.remaining < (s.workers i).remaining) :
    Within T (s.setWorker i w) ∧ (s.setWorker i w).shutdownPc = s.shutdownPc ∧
      remaining T (s.setWorker i w) < remaining T s := by
  have hworkers := sum_setWorker s i w
  refine ⟨hT, rfl, ?_⟩
  simp only [remaining, setWorker] at hworkers ⊢
  omega

omit [DecidableEq Tid] in
/-- `shutdown()` pays for the workers it wakes. -/
theorem remaining_stepShutdown {T : Finset Tid} (hT : Within T s) (hcalled : s.shutdownPc ≠ .idle)
    (hs : s.stepShutdown = some s') :
    Within T s' ∧ s'.shutdownPc ≠ .idle ∧ remaining T s' < remaining T s := by
  unfold stepShutdown at hs
  split at hs <;> rename_i hpc
  · exact absurd hpc hcalled
  · split at hs <;> rename_i k hk <;> cases hs
    · have hworkers := sum_setWorker s ⟨k, hk⟩ { s.workers ⟨k, hk⟩ with stop := true }
      refine ⟨hT, by simp, ?_⟩
      simp only [remaining, Worker.remaining, setWorker, hpc, ShutdownPc.remaining] at hworkers ⊢
      omega
    · refine ⟨hT, by simp, ?_⟩
      simp only [remaining, hpc, ShutdownPc.remaining]
      omega
  · rename_i i
    cases hs
    have hworkers := sum_setWorker s i { s.workers i with shutdown := true }
    refine ⟨hT, by simp, ?_⟩
    simp only [remaining, Worker.remaining, setWorker, hpc, ShutdownPc.remaining] at hworkers ⊢
    omega
  · rename_i i
    cases hs
    have hworkers := sum_setWorker s i (s.workers i).notified
    have hle := (s.workers i).remaining_notified_le
    refine ⟨hT, by simp, ?_⟩
    simp only [remaining, setWorker, hpc, ShutdownPc.remaining] at hworkers ⊢
    omega
  · rename_i k
    split at hs
    · split at hs <;> cases hs
      refine ⟨hT, by simp, ?_⟩
      simp only [remaining, hpc, ShutdownPc.remaining]
      omega
    · cases hs
      refine ⟨hT, by simp, ?_⟩
      simp only [remaining, hpc, ShutdownPc.remaining]
      omega
  · cases hs

/-- Every own step leaves less to do, among the same threads. -/
theorem remaining_lt {T : Finset Tid} (hT : Within T s) (hcalled : s.shutdownPc ≠ .idle)
    (hown : l.own = true) (hs : s.step l = some s') :
    Within T s' ∧ s'.shutdownPc ≠ .idle ∧ remaining T s' < remaining T s := by
  cases l with
  | submit | submitRoundRobin | wake | stopWorker => cases hown
  | submitDrawn t =>
      cases hc : s.ctl t with
      | drawn i task =>
          simp only [ThreadPool.step, hc] at hs
          obtain ⟨hT', hpc, hlt⟩ := remaining_pushTo hT hc hs
          exact ⟨hT', hpc ▸ hcalled, hlt⟩
      | _ => simp [ThreadPool.step, hc] at hs
  | notifyOne t =>
      cases hc : s.ctl t with
      | notifying i =>
          simp only [ThreadPool.step, hc] at hs
          cases hs
          have ht : t ∈ T := hT.mem (by simp [hc])
          have hworkers := sum_setWorker s i (s.workers i).notified
          have hctl := sum_goto ht (s.setWorker i (s.workers i).notified) .idle
          have hle := (s.workers i).remaining_notified_le
          refine ⟨Within.goto hT ht _, hcalled, ?_⟩
          simp only [remaining, setWorker, ThreadPool.goto, hc, Ctl.remaining] at hworkers hctl ⊢
          omega
      | _ => simp [ThreadPool.step, hc] at hs
  | enter i =>
      cases hc : (s.workers i).pc with
      | ready =>
          simp only [ThreadPool.step, hc] at hs
          split at hs <;> cases hs
          obtain ⟨hT', hpc, hlt⟩ := remaining_setWorker hT (Worker.remaining_enter_lt hc)
          exact ⟨hT', hpc ▸ hcalled, hlt⟩
      | _ => simp [ThreadPool.step, hc] at hs
  | clearStop i =>
      cases hc : (s.workers i).pc with
      | popped task =>
          simp only [ThreadPool.step, hc] at hs
          cases hs
          obtain ⟨hT', hpc, hlt⟩ := remaining_setWorker hT (i := i)
            (w := { s.workers i with stop := false, pc := .running task })
            (by simp [Worker.remaining, hc, Pc.remaining])
          exact ⟨hT', hpc ▸ hcalled, hlt⟩
      | _ => simp [ThreadPool.step, hc] at hs
  | finish i =>
      cases hc : (s.workers i).pc with
      | running task =>
          simp only [ThreadPool.step, hc] at hs
          cases hs
          obtain ⟨hT', hpc, hlt⟩ := remaining_setWorker hT (i := i)
            (w := { s.workers i with
              pc := .ready, executed := (s.workers i).executed ++ [task] })
            (by simp [Worker.remaining, hc, Pc.remaining])
          exact ⟨hT', hpc ▸ hcalled, hlt⟩
      | _ => simp [ThreadPool.step, hc] at hs
  | shutdown => exact remaining_stepShutdown hT hcalled hs

/-- A stop request adds nothing. -/
theorem stopWorker_step {T : Finset Tid} (hT : Within T s) (hcalled : s.shutdownPc ≠ .idle)
    (hl : l.isStopWorker = true) (hs : s.step l = some s') :
    Within T s' ∧ s'.shutdownPc ≠ .idle ∧ remaining T s' ≤ remaining T s := by
  cases l with
  | stopWorker id =>
      simp only [ThreadPool.step] at hs
      split at hs <;> rename_i hid <;> cases hs
      · have hworkers := sum_setWorker s ⟨id, hid⟩ { s.workers ⟨id, hid⟩ with stop := true }
        refine ⟨hT, hcalled, ?_⟩
        simp only [remaining, Worker.remaining, setWorker] at hworkers ⊢
        omega
      · exact ⟨hT, hcalled, le_rfl⟩
  | _ => cases hl

theorem notifyOne_moves {t : Tid} {i : Fin n} (hc : s.ctl t = .notifying i) :
    ∃ l s', l.own = true ∧ s.step l = some s' :=
  ⟨.notifyOne t, _, rfl, by simp only [ThreadPool.step, hc]; rfl⟩

/-- A flagged worker that has not left goes on, or the notification it waits for is on
its way. -/
theorem Orderly.worker_moves (h : s.Orderly) {i : Fin n} (hlock : ¬s.Locked i)
    (hflag : (s.workers i).shutdown = true) (hpc : (s.workers i).pc ≠ .exited) :
    ∃ l s', l.own = true ∧ s.step l = some s' := by
  cases hc : (s.workers i).pc with
  | exited => exact absurd hc hpc
  | ready => exact ⟨.enter i, _, rfl, by simp only [ThreadPool.step, hc, hlock, if_false]; rfl⟩
  | popped task => exact ⟨.clearStop i, _, rfl, by simp only [ThreadPool.step, hc]; rfl⟩
  | running task => exact ⟨.finish i, _, rfl, by simp only [ThreadPool.step, hc]; rfl⟩
  | asleep =>
      rcases h.alert i ⟨hc, .inr hflag⟩ with ⟨t, ht⟩ | hnotify
      · exact notifyOne_moves ht
      · exact ⟨.shutdown, _, rfl, by simp only [ThreadPool.step, stepShutdown, hnotify]; rfl⟩

/-- Until everything has ended something can go on. -/
theorem Orderly.moves (h : s.Orderly) (hcalled : s.shutdownPc ≠ .idle) :
    s.ShutDown ∨ ∃ l s', l.own = true ∧ s.step l = some s' := by
  have hflagged := h.flagged
  simp only [Passed] at hflagged
  cases hpc : s.shutdownPc with
  | idle => exact absurd hpc hcalled
  | requestStop k =>
      refine .inr ⟨.shutdown, ?_⟩
      simp only [ThreadPool.step, stepShutdown, hpc]
      split <;> exact ⟨_, rfl, rfl⟩
  | setShutdown i | notify i =>
      exact .inr ⟨.shutdown, _, rfl, by simp only [ThreadPool.step, stepShutdown, hpc]; rfl⟩
  | join k =>
      by_cases hk : k < n
      · by_cases hexited : (s.workers ⟨k, hk⟩).pc = .exited
        · exact .inr ⟨.shutdown, _, rfl, by
            simp only [ThreadPool.step, stepShutdown, hpc, hk, dif_pos, hexited]; rfl⟩
        · simp only [hpc] at hflagged
          exact .inr (h.worker_moves (by simp [Locked, hpc]) (hflagged _ trivial) hexited)
      · exact .inr ⟨.shutdown, _, rfl, by
          simp only [ThreadPool.step, stepShutdown, hpc, hk, dif_neg, not_false_iff]; rfl⟩
  | returned =>
      by_cases hidle : ∀ t, s.ctl t = .idle
      · exact .inl ⟨hpc, fun i => h.sound.joined i (.inl hpc), hidle⟩
      · obtain ⟨t, ht⟩ := not_forall.mp hidle
        cases hc : s.ctl t with
        | idle => exact absurd hc ht
        | notifying i => exact .inr (notifyOne_moves hc)
        | drawn i task =>
            exact .inr ⟨.submitDrawn t, _, rfl, by
              simp only [ThreadPool.step, hc, pushTo, Locked, hpc, reduceCtorEq, if_false]; rfl⟩

/-! ## The pool shuts down -/

theorem settles (T : Finset Tid) :
    Settles (@step n τ Tid _) Label.own Label.isStopWorker
      (fun s => Orderly s ∧ s.shutdownPc ≠ .idle ∧ Within T s) ShutDown (remaining T) where
  keeps s l s' h hl hs := by
    refine ⟨h.1.step hs, ?_⟩
    rcases hl with hown | hstop
    · obtain ⟨hT, hcalled, -⟩ := remaining_lt h.2.2 h.2.1 hown hs
      exact ⟨hcalled, hT⟩
    · obtain ⟨hT, hcalled, -⟩ := stopWorker_step h.2.2 h.2.1 hstop hs
      exact ⟨hcalled, hT⟩
  lowers s l s' h hown hs := (remaining_lt h.2.2 h.2.1 hown hs).2.2
  calm_le s l s' h hstop hs := (stopWorker_step h.2.2 h.2.1 hstop hs).2.2
  moves s h := h.1.moves h.2.1

/-- A step makes at most one more thread busy. -/
theorem exists_within {T : Finset Tid} (hT : Within T s) (hs : s.step l = some s') :
    ∃ T', Within T' s' := by
  cases step_steps hs with
  | @pushed _ t | @drew t | @notifiedOne t =>
      refine ⟨insert t T, fun u hu => ?_⟩
      obtain ⟨hut, hu⟩ : u ≠ t ∧ u ∉ T := by simpa using hu
      exact (Function.update_of_ne hut _ _).trans (hT u hu)
  | _ => exact ⟨T, hT⟩

/-- **`shutdown()` returns.**  Once it has been called, from every state of every run the
pool comes to where `shutdown()` has returned, every worker has left and no call is in
progress, if nothing more is submitted and the run of every task ends by itself: however
the workers, `shutdown()` and the calls of `submit` in progress are scheduled, and whenever
a worker is asked to stop. -/
theorem shutdown_comesToRest (ls : List (Label n τ Tid)) :
    Throughout step
      (fun s => s.shutdownPc ≠ .idle →
        ComesToRest step Label.own Label.isStopWorker ShutDown s)
      ({} : ThreadPool n τ Tid) ls := by
  have horderly : Throughout step (fun s => Orderly s ∧ ∃ T, Within T s)
      ({} : ThreadPool n τ Tid) ls :=
    throughout_of_step (fun s l s' h hs => ⟨h.1.step hs, h.2.elim fun _ hT => exists_within hT hs⟩)
      ⟨Orderly.init, ∅, fun _ _ => rfl⟩ ls
  exact horderly.imp fun s ⟨h, T, hT⟩ hcalled => (settles T).comesToRest ⟨h, hcalled, hT⟩

end ThreadPool
end Opencode.Pool
