import Opencode.Async.Handle

/-!
# Sleeping on queued work

Two operations put events into the queue.  `post_event` notifies the loop afterwards;
`process_deferred_events` does not.  When it puts events back while the loop is asleep and
no `post_event` is on its way to its notification, the loop sleeps on, with work in the
queue; in every other case the loop is either awake or about to be notified.

## Main definitions

* `AsyncMachine.Alert` — with no notification on its way, no loop sleeps on queued work.
* `AsyncMachine.Stalls` — the `process_deferred_events` that takes this away.
* `alert_iff_not_stalls` — nothing else does.
-/

namespace Opencode.Async

open Opencode.Fsm Opencode.Lib

namespace AsyncMachine

variable {S E A G B Tid : Type}

/-- When every `post_event` has returned, a loop that is asleep and not notified has an
empty queue. -/
def Alert (s : AsyncMachine S E A G B Tid) : Prop :=
  (∀ t, s.ctl t ≠ .notifying) → ∀ i, s.loop i = .asleep → s.queue = []

/-- Events are put back while the loop is asleep and no `post_event` is between its
section and its notification. -/
def Stalls (s : AsyncMachine S E A G B Tid) : Label E Tid → Prop
  | .processDeferred _ =>
      s.deferred ≠ [] ∧ (∀ t, s.ctl t ≠ .notifying) ∧ ∃ i, s.loop i = .asleep
  | _ => False

/-- No loop is asleep. -/
theorem Alert.of_awake {s : AsyncMachine S E A G B Tid} (h : ∀ i, s.loop i ≠ .asleep) :
    Alert s :=
  fun _ i hi => absurd hi (h i)

/-- A step that takes no notification back, puts no loop to sleep and leaves the queue. -/
theorem Alert.frame {s s' : AsyncMachine S E A G B Tid} (h : Alert s)
    (hctl : ∀ t, s.ctl t = .notifying → s'.ctl t = .notifying)
    (hloop : ∀ i, s'.loop i = .asleep → s.loop i = .asleep) (hqueue : s'.queue = s.queue) :
    Alert s' := by
  intro hnone i hi
  rw [hqueue]
  exact h (fun t ht => hnone t (hctl t ht)) i (hloop i hi)

/-- No other loop is asleep beside a live one. -/
theorem Owned.awake {s : AsyncMachine S E A G B Tid} (h : Owned s) {i j : ℕ}
    (hi : s.loop i ≠ .exited) (hj : j ≠ i) : s.loop j ≠ .asleep := by
  intro hasleep
  exact hj (h.alive_unique (by simp [hasleep]) hi)

/-- A live loop that moves on, and not to sleep, leaves none asleep. -/
theorem Owned.awake_setLoop {s : AsyncMachine S E A G B Tid} (h : Owned s) {i : ℕ} {l : Loop E}
    (hi : s.loop i ≠ .exited) (hl : l ≠ .asleep) (j : ℕ) : (s.setLoop i l).loop j ≠ .asleep := by
  by_cases hj : j = i
  · rwa [hj, loop_setLoop_self]
  · rw [loop_setLoop_of_ne s l hj]
    exact h.awake hi hj

theorem awake_notifyAll (s : AsyncMachine S E A G B Tid) (i : ℕ) :
    s.notifyAll.loop i ≠ .asleep := by
  cases h : s.loop i <;> simp [notifyAll, h, Loop.notified]

variable [DecidableEq Tid]

/-- A thread that was not about to notify moves on. -/
theorem notifying_goto {s : AsyncMachine S E A G B Tid} {t : Tid} {c : Ctl}
    (h : s.ctl t ≠ .notifying) (u : Tid) (hu : s.ctl u = .notifying) :
    (s.goto t c).ctl u = .notifying := by
  have hne : u ≠ t := by
    rintro rfl
    exact h hu
  rwa [ctl_goto_of_ne s c hne]

variable [DecidableEq S] [DecidableEq E] {guards : G → Bool}

/-- Every step but the one that stalls keeps the loop alert. -/
theorem Alert.step_iff {s s' : AsyncMachine S E A G B Tid} {l : Label E Tid} (h : Alert s)
    (ho : Owned s) (hs : Steps guards s l s') : Alert s' ↔ ¬ s.Stalls l := by
  cases hs with
  | @post t event hc =>
      refine iff_of_true (fun hnone => ?_) id
      exact absurd (ctl_goto_self _ t _) (hnone t)
  | unheard hc hl =>
      refine iff_of_true (.of_awake fun i => ?_) id
      rcases lt_or_ge i s.spawned with hlt | hge
      · exact hl i hlt
      · rw [goto, ho.fresh i hge]
        simp
  | deferred hp => exact iff_of_true (h.frame (fun _ ht => ht) (fun _ hi => hi) rfl) id
  | notDeferred _ | startRefused _ | stopRefused _ => exact iff_of_true h id
  | requeued =>
      constructor
      · rintro ha ⟨hne, hnone, i, hi⟩
        have hempty := ha hnone i hi
        simp only [processDeferredEvents, List.append_eq_nil_iff] at hempty
        exact hne hempty.2
      · intro hstalls hnone i hi
        have hdef : s.deferred = [] := by
          by_contra hne
          exact hstalls ⟨hne, hnone, i, hi⟩
        simpa [processDeferredEvents, hdef] using h hnone i hi
  | started hr =>
      refine iff_of_true (h.frame (fun _ ht => ht) (fun i hi => ?_) rfl) id
      by_cases hne : i = s.spawned
      · simp [hne] at hi
      · simpa [hne] using hi
  | stopped hc _ | notJoined hc _ | joined hc _ _ =>
      exact iff_of_true (h.frame (notifying_goto (by simp [hc])) (fun _ hi => hi) rfl) id
  | notifyAll hc => exact iff_of_true (.of_awake (awake_notifyAll s)) id
  | slept hl hq hr => exact iff_of_true (fun _ _ _ => hq) id
  | woken _ hl | left hl _ _ | popped hl _ | handled hl | wake hl =>
      exact iff_of_true (.of_awake (ho.awake_setLoop (by simp [hl]) (by simp))) id

/-- **No sleeping on queued work**, exactly in the runs in which no
`process_deferred_events` puts events back while the loop is asleep and no `post_event` is
about to notify it. -/
theorem alert_iff_not_stalls (m : EventDrivenStateMachine S E A G B) (guards : G → Bool)
    (ls : List (Label E Tid)) :
    Throughout (step guards) Alert { machine := m } ls ↔
      Along (step guards) (fun s l => ¬ s.Stalls l) { machine := m } ls := by
  refine throughout_iff_along (I := fun s => s.terminated = false → Owned s) ?_ ?_
    (fun _ => Owned.init m) (.of_awake (by simp))
  · intro s l s' hI hstep hterm
    exact (hI (terminated_of_step hstep)).step hterm (step_steps hstep)
  · intro s l s' hI h hstep
    exact h.step_iff (hI (terminated_of_step hstep)) (step_steps hstep)

/-- An event is put aside while it is being processed, the loop falls asleep, and the event
is put back. -/
theorem not_alert_of_requeue :
    ¬ Throughout (step fun _ : Unit => true) Alert
      ({ machine := ⟨(), ∅, ∅, ∅, []⟩ } : AsyncMachine Unit Unit Unit Unit Unit Unit)
      [.start (), .post () (), .notifyOne () none, .loop 0, .defer (), .loop 0, .loop 0,
        .processDeferred ()] := by
  refine not_throughout_of_end
    (R := fun s => s.running = true ∧ s.ctl () = .idle ∧ s.loop 0 = .asleep ∧ s.queue = [⟨0, ()⟩])
    (by decide +kernel) ?_
  rintro s ⟨-, hc, hl, hq⟩ halert
  have hempty := halert (fun t => by simp [hc]) 0 hl
  rw [hq] at hempty
  cases hempty

end AsyncMachine

end Opencode.Async
