import Opencode.Pool.ThreadPool

/-!
# The stop flag

All tasks of a worker share its stop flag, and the worker clears the flag before each of
them.  `shutdown()` sets it once.  A task that the worker starts after that runs with the
flag cleared, and so does one that is started between the two statements of the section
in which `shutdown()` sets the flag; any other task of a worker that has been told to
leave sees the flag.

## Main definitions

* `ThreadPool.Visible` — every task of a worker that has been told to leave sees the flag.
* `ThreadPool.Erases` — the step that hides it.
* `visible_iff_not_erases` — nothing else does.
-/

namespace Opencode.Pool

open Opencode.Lib

universe u v
variable {n : ℕ} {τ : Type u} {Tid : Type v}

/-- The worker runs a task that does not see the stop flag. -/
def Worker.Deaf (w : Worker τ) : Prop := (∃ task, w.pc = .running task) ∧ w.stop = false

instance (w : Worker τ) : Decidable w.Deaf :=
  match h : w.pc with
  | .running task => decidable_of_iff (w.stop = false) (by simp [Worker.Deaf, h])
  | .ready | .asleep | .popped _ | .exited => .isFalse (by simp [Worker.Deaf, h])

/-- If the worker has been told to leave, its task sees the flag. -/
def Worker.Heeds (w : Worker τ) : Prop := w.shutdown = true → ¬w.Deaf

namespace Worker

variable {w : Worker τ}

/-- A worker that runs no task is not deaf. -/
theorem heeds_of_not_running (h : ∀ task, w.pc ≠ .running task) : w.Heeds :=
  fun _ hdeaf => hdeaf.1.elim h

theorem heeds_enter (w : Worker τ) : w.enter.Heeds := by
  refine heeds_of_not_running fun task => ?_
  unfold Worker.enter
  split
  · cases w.shutdown <;> simp
  · simp

theorem Heeds.notified (h : w.Heeds) : w.notified.Heeds := by
  unfold Worker.notified
  split
  · exact heeds_of_not_running (by simp)
  · exact h

end Worker

namespace ThreadPool

/-- After the section of `shutdown()` for a worker every `shouldStop()` of a task it runs
answers `true`. -/
def Visible (s : ThreadPool n τ Tid) : Prop := ∀ i, (s.workers i).Heeds

/-- A worker that has been told to leave clears its flag, or a worker is told to leave
while it runs a task with its flag cleared again. -/
def Erases (s : ThreadPool n τ Tid) : Label n τ Tid → Prop
  | .clearStop i => (s.workers i).shutdown = true
  | .shutdown => ∃ i, s.shutdownPc = .setShutdown i ∧ (s.workers i).Deaf
  | _ => False

variable {s s' : ThreadPool n τ Tid} [DecidableEq Tid] {l : Label n τ Tid}

omit [DecidableEq Tid] in
/-- A submission does not hide the flag. -/
theorem not_erases_of_pushes {x : Fin n × τ} (h : s.pushes l = some x) : ¬s.Erases l := by
  cases l <;> simp [pushes, Erases] at h ⊢

/-- Only a task started after the stop was requested does not see it. -/
theorem Steps.visible_iff (hs : s.Steps l s') (h : s.Visible) : s'.Visible ↔ ¬s.Erases l := by
  cases hs with
  | pushed hpush =>
      exact iff_of_true ((forall_setWorker h _ _).mpr (h _)) (not_erases_of_pushes hpush)
  | refused hpush hclear hshutdown =>
      refine iff_of_true h ?_
      cases l with
      | clearStop i => exact absurd rfl (hclear i)
      | shutdown => exact absurd rfl hshutdown
      | _ => exact id
  | drew => exact iff_of_true h id
  | notifiedOne => exact iff_of_true ((forall_setWorker h _ _).mpr (h _).notified) id
  | entered => exact iff_of_true ((forall_setWorker h _ _).mpr (Worker.heeds_enter _)) id
  | woke | finished =>
      exact iff_of_true
        ((forall_setWorker h _ _).mpr (Worker.heeds_of_not_running (by simp))) id
  | stopped =>
      refine iff_of_true ((forall_setWorker h _ _).mpr ?_) id
      exact fun _ hdeaf => by cases hdeaf.2
  | cleared =>
      refine (forall_setWorker h _ _).trans ?_
      simp [Worker.Heeds, Worker.Deaf, Erases]
  | called hpc | requestedAll hpc | joined hpc | returned hpc =>
      exact iff_of_true h (by simp [Erases, hpc])
  | requested hpc =>
      refine iff_of_true ((forall_setWorker h _ _).mpr ?_) (by simp [Erases, hpc])
      exact fun _ hdeaf => by cases hdeaf.2
  | notifiedAll hpc =>
      exact iff_of_true ((forall_setWorker h _ _).mpr (h _).notified) (by simp [Erases, hpc])
  | @flagged i hpc =>
      -- the section ends, and the worker is held to what its task sees
      refine (forall_setWorker h i _).trans ?_
      simp [Worker.Heeds, Worker.Deaf, Erases, hpc]

/-- **Every task of a worker that has been told to leave sees the flag, exactly in the
runs in which the flag is not cleared after it was set.** -/
theorem visible_iff_not_erases (ls : List (Label n τ Tid)) :
    Throughout step Visible ({} : ThreadPool n τ Tid) ls ↔
      Along step (fun s l => ¬s.Erases l) ({} : ThreadPool n τ Tid) ls := by
  refine throughout_iff_along (I := fun _ => True) (fun _ _ _ _ _ => trivial)
    (fun s l s' _ h hs => (step_steps hs).visible_iff h) trivial ?_
  exact fun i => Worker.heeds_of_not_running (by simp)

/-- A task still in the mailbox when `shutdown()` sets the flag runs without seeing it. -/
theorem not_visible_queued :
    ¬ Throughout step Visible ({} : ThreadPool 1 Unit Unit)
      [.submit () 0 (), .shutdown, .shutdown, .shutdown, .enter 0, .clearStop 0] := by
  refine not_throughout_of_end
    (R := fun s => (s.workers 0).shutdown = true ∧ (s.workers 0).Deaf) (by decide +kernel) ?_
  rintro s ⟨hshutdown, hdeaf⟩ hvisible
  exact hvisible 0 hshutdown hdeaf

end ThreadPool
end Opencode.Pool
