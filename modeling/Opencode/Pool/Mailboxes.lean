import Opencode.Pool.ThreadPool

/-!
# Accepted tasks

A worker leaves when it finds its mailbox empty after `shutdown` was set, and `submit`
does not look whether the worker has left.  A task that is pushed afterwards is accepted
and never run; every other accepted task is run by its worker, once and in its turn.

No task waits for a sleeping worker either: a worker that sleeps although it has work, or
has been told to leave, is about to be notified.

## Main definitions

* `Worker.Kept` — where the accepted tasks of a worker are.
* `ThreadPool.Faithful` — what the workers have run.
* `ThreadPool.Strands` — the submission that takes this away.
* `faithful_iff_not_strands` — nothing else does, and no worker oversleeps.
-/

namespace Opencode.Pool

open Opencode.Lib

universe u v
variable {n : ℕ} {τ : Type u} {Tid : Type v}

/-! ## One worker -/

/-- The task a worker has taken out and not run to its end. -/
def Pc.holding : Pc τ → List τ
  | .popped task | .running task => [task]
  | _ => []

namespace Worker

variable {w : Worker τ}

/-- The accepted tasks are those run, the one at hand, and those in the mailbox. -/
def Kept (w : Worker τ) : Prop := w.accepted = w.executed ++ w.pc.holding ++ w.tasks

/-- A worker that has left has left nothing behind. -/
def Drained (w : Worker τ) : Prop := w.pc = .exited → w.tasks = []

theorem Kept.push (h : w.Kept) (task : τ) : (w.push task).Kept := by
  simp only [Kept, Worker.push] at h ⊢
  rw [h, List.append_assoc]

theorem Kept.notified (h : w.Kept) : w.notified.Kept := by
  unfold Worker.notified
  split
  · next hpc => simpa [Kept, hpc, Pc.holding] using h
  · exact h

theorem Kept.enter (h : w.Kept) (hpc : w.pc = .ready) : w.enter.Kept := by
  simp only [Kept, hpc, Pc.holding, List.append_nil] at h
  unfold Worker.enter
  split
  · next htasks => cases w.shutdown <;> simp [Kept, Pc.holding, h, htasks]
  · next task tasks htasks => simp [Kept, Pc.holding, h, htasks]

theorem Kept.isPrefix (h : w.Kept) : w.executed <+: w.accepted :=
  ⟨w.pc.holding ++ w.tasks, by rw [h, List.append_assoc]⟩

theorem drained_enter (w : Worker τ) : w.enter.Drained := by
  unfold Worker.enter
  split
  · exact fun _ => ‹_›
  · exact fun h => by cases h

theorem Drained.notified (h : w.Drained) : w.notified.Drained := by
  unfold Worker.notified
  split
  · exact fun h => by cases h
  · exact h

/-- The worker sleeps although it has work, or has to leave. -/
def Oversleeps (w : Worker τ) : Prop := w.pc = .asleep ∧ (w.tasks ≠ [] ∨ w.shutdown = true)

/-- A worker falls asleep only with nothing to do. -/
theorem not_oversleeps_enter (w : Worker τ) : ¬w.enter.Oversleeps := by
  unfold Worker.enter
  split
  · next htasks => cases w.shutdown <;> simp [Oversleeps, htasks]
  · simp [Oversleeps]

theorem not_oversleeps_notified (w : Worker τ) : ¬w.notified.Oversleeps := by
  unfold Worker.notified
  split
  · simp [Oversleeps]
  · next hpc => exact fun h => hpc h.1

/-- What a worker that has left has run is what it was given, if it left nothing behind. -/
theorem Kept.executed_eq_iff (h : w.Kept) (hpc : w.pc = .exited) :
    w.executed = w.accepted ↔ w.tasks = [] := by
  have haccepted : w.accepted = w.executed ++ w.tasks := by
    simpa [Kept, hpc, Pc.holding] using h
  rw [haccepted]
  simp

end Worker

/-! ## The pool -/

namespace ThreadPool

/-- Every worker has run its accepted tasks in order up to some point, and to the end if
it has left or `shutdown()` has returned. -/
structure Faithful (s : ThreadPool n τ Tid) : Prop where
  order : ∀ i, (s.workers i).executed <+: (s.workers i).accepted
  complete : ∀ i, (s.workers i).pc = .exited ∨ s.shutdownPc = .returned →
    (s.workers i).executed = (s.workers i).accepted

/-- A notification of the worker is on its way. -/
def Due (s : ThreadPool n τ Tid) (i : Fin n) : Prop :=
  (∃ t, s.ctl t = .notifying i) ∨ s.shutdownPc = .notify i

/-- A sleeping worker with work, or one that has to leave, is about to be notified. -/
def Alert (s : ThreadPool n τ Tid) : Prop := ∀ i, (s.workers i).Oversleeps → s.Due i

/-- A task is submitted to a worker that has left. -/
def Strands (s : ThreadPool n τ Tid) (l : Label n τ Tid) : Prop :=
  ∃ x ∈ s.pushes l, (s.workers x.1).pc = .exited

instance (s : ThreadPool n τ Tid) (l : Label n τ Tid) : Decidable (s.Strands l) :=
  match h : s.pushes l with
  | none => .isFalse (by simp [Strands, h])
  | some x =>
      match hpc : (s.workers x.1).pc with
      | .exited => .isTrue ⟨x, by simp [h], hpc⟩
      | .ready | .asleep | .popped _ | .running _ => .isFalse (by simp [Strands, h, hpc])

/-- `shutdown()` has joined the worker. -/
def Joined (s : ThreadPool n τ Tid) (i : Fin n) : Prop :=
  s.shutdownPc = .returned ∨ ∃ k, s.shutdownPc = .join k ∧ i < k

/-- No accepted task is lost from sight, and the workers joined have left. -/
structure Sound (s : ThreadPool n τ Tid) : Prop where
  kept : ∀ i, (s.workers i).Kept
  joined : ∀ i, s.Joined i → (s.workers i).pc = .exited

variable {s s' : ThreadPool n τ Tid}

theorem Sound.faithful_iff (h : s.Sound) : s.Faithful ↔ ∀ i, (s.workers i).Drained := by
  constructor
  · intro hf i hpc
    exact ((h.kept i).executed_eq_iff hpc).mp (hf.complete i (.inl hpc))
  · intro hd
    refine ⟨fun i => (h.kept i).isPrefix, fun i hi => ?_⟩
    have hpc : (s.workers i).pc = .exited := hi.elim id fun hr => h.joined i (.inl hr)
    exact ((h.kept i).executed_eq_iff hpc).mpr (hd i hpc)

/-- A worker that has left does not come back. -/
theorem exited_setWorker {i j : Fin n} {w : Worker τ} (hj : (s.workers j).pc = .exited)
    (hw : (s.workers i).pc = .exited → w.pc = .exited) :
    ((s.setWorker i w).workers j).pc = .exited := by
  rw [workers_setWorker]
  split
  case isTrue heq => exact hw (heq ▸ hj)
  case isFalse => exact hj

theorem Worker.pc_notified {w : Worker τ} (h : w.pc = .exited) : w.notified.pc = .exited := by
  simp [Worker.notified, h]

variable [DecidableEq Tid] {l : Label n τ Tid}

theorem Steps.exited (hs : s.Steps l s') {j : Fin n} (hj : (s.workers j).pc = .exited) :
    (s'.workers j).pc = .exited := by
  cases hs with
  | pushed | stopped | requested | flagged => exact exited_setWorker hj id
  | notifiedOne | notifiedAll => exact exited_setWorker hj Worker.pc_notified
  | entered hpc | woke hpc | cleared hpc | finished hpc =>
      exact exited_setWorker hj fun h => by cases hpc.symm.trans h
  | _ => exact hj

theorem Steps.kept (hs : s.Steps l s') (h : ∀ i, (s.workers i).Kept) (i : Fin n) :
    (s'.workers i).Kept := by
  revert i
  cases hs with
  | pushed => exact (forall_setWorker h _ _).mpr ((h _).push _)
  | notifiedOne | notifiedAll => exact (forall_setWorker h _ _).mpr (h _).notified
  | entered hpc => exact (forall_setWorker h _ _).mpr ((h _).enter hpc)
  | @woke i hpc =>
      have hi := h i
      rw [Worker.Kept, hpc] at hi
      exact (forall_setWorker h _ _).mpr hi
  | @cleared i task hpc =>
      have hi := h i
      rw [Worker.Kept, hpc] at hi
      exact (forall_setWorker h _ _).mpr hi
  | @finished i task hpc =>
      have hi := h i
      rw [Worker.Kept, hpc] at hi
      exact (forall_setWorker h _ _).mpr (by simpa [Worker.Kept, Pc.holding] using hi)
  | stopped | requested | flagged => exact (forall_setWorker h _ _).mpr (h _)
  | _ => exact h

/-- A worker that is joined had been joined before or has left. -/
theorem Steps.of_joined (hs : s.Steps l s') {i : Fin n} (hi : s'.Joined i) :
    s.Joined i ∨ (s.workers i).pc = .exited := by
  cases hs with
  | @joined j hpc hexited =>
      have hle : (i : ℕ) ≤ j := by simpa [Joined, Nat.lt_succ_iff] using hi
      rcases hle.lt_or_eq with hlt | heq
      · exact .inl (.inr ⟨j, hpc, hlt⟩)
      · exact .inr (Fin.ext heq ▸ hexited)
  | returned hpc hk => exact .inl (.inr ⟨_, hpc, i.isLt.trans_le hk⟩)
  | called | requested | requestedAll | flagged | notifiedAll => simp [Joined] at hi
  | _ => exact .inl hi

theorem Sound.step (h : s.Sound) (hs : s.Steps l s') : s'.Sound where
  kept := hs.kept h.kept
  joined i hi := hs.exited ((hs.of_joined hi).elim (h.joined i) id)

/-- Only a submission to a worker that has left leaves anything behind. -/
theorem Steps.drained_iff (hs : s.Steps l s') (h : ∀ i, (s.workers i).Drained) :
    (∀ i, (s'.workers i).Drained) ↔ ¬s.Strands l := by
  cases hs with
  | @pushed l t i task hpush =>
      refine (forall_setWorker h i _).trans ?_
      simp [Strands, hpush, Worker.Drained, Worker.push]
  | refused hpush => simp [Strands, hpush, h]
  | notifiedOne | notifiedAll =>
      exact iff_of_true ((forall_setWorker h _ _).mpr (h _).notified) (by simp [Strands, pushes])
  | entered =>
      exact iff_of_true ((forall_setWorker h _ _).mpr (Worker.drained_enter _))
        (by simp [Strands, pushes])
  | woke | cleared | finished =>
      refine iff_of_true ((forall_setWorker h _ _).mpr ?_) (by simp [Strands, pushes])
      exact fun hpc => by cases hpc
  | stopped | requested | flagged =>
      exact iff_of_true ((forall_setWorker h _ _).mpr (h _)) (by simp [Strands, pushes])
  | drew | called | requestedAll | joined | returned =>
      exact iff_of_true h (by simp [Strands, pushes])

theorem Sound.faithful_step_iff (h : s.Sound) (hf : s.Faithful) (hs : s.Steps l s') :
    s'.Faithful ↔ ¬s.Strands l :=
  (h.step hs).faithful_iff.trans (hs.drained_iff (h.faithful_iff.mp hf))

omit [DecidableEq Tid] in
theorem Sound.init : Sound ({} : ThreadPool n τ Tid) where
  kept _ := rfl
  joined i hi := by simp [Joined] at hi

/-! ## Notifications -/

/-- A thread that was not about to notify moves on. -/
theorem due_goto {t : Tid} {c : Ctl n τ} (ht : ∀ j, s.ctl t ≠ .notifying j) {j : Fin n}
    (h : s.Due j) : (s.goto t c).Due j := by
  refine h.imp_left fun ⟨u, hu⟩ => ⟨u, ?_⟩
  have hne : u ≠ t := by
    rintro rfl
    exact ht j hu
  exact (Function.update_of_ne hne _ _).trans hu

omit [DecidableEq Tid] in
/-- Besides the worker that changes, the workers that oversleep are the ones that did. -/
theorem Alert.setWorker (h : s.Alert) {i : Fin n} {w : Worker τ}
    (hw : w.Oversleeps → (s.workers i).Oversleeps) : (s.setWorker i w).Alert := by
  intro j hj
  rw [workers_setWorker] at hj
  split at hj
  case isTrue heq => exact h j (heq ▸ hw hj)
  case isFalse => exact h j hj

omit [DecidableEq Tid] in
/-- The notifications of the other workers stay on their way. -/
theorem Alert.of_notified (h : s.Alert) {i : Fin n}
    (hworkers : s'.workers = (s.setWorker i (s.workers i).notified).workers)
    (hdue : ∀ j ≠ i, s.Due j → s'.Due j) : s'.Alert := by
  intro j hj
  rw [hworkers, workers_setWorker] at hj
  split at hj
  case isTrue => exact absurd hj (Worker.not_oversleeps_notified _)
  case isFalse hne => exact hdue j hne (h j hj)

/-- No step puts a worker to sleep over its work, or forgets a notification. -/
theorem Steps.alert (hs : s.Steps l s') (h : s.Alert) : s'.Alert := by
  cases hs with
  | @pushed l t i task hpush hctl =>
      intro j hj
      by_cases heq : j = i
      · exact .inl ⟨t, by rw [heq]; exact Function.update_self t _ _⟩
      · refine due_goto (s := s.setWorker i ((s.workers i).push task)) hctl (h j ?_)
        rwa [← workers_setWorker_of_ne s heq]
  | refused => exact h
  | drew hctl => exact fun j hj => due_goto (by simp [hctl]) (h j hj)
  | @notifiedOne t i hctl =>
      refine h.of_notified rfl fun j hne hdue => hdue.imp_left fun ⟨u, hu⟩ => ⟨u, ?_⟩
      have hut : u ≠ t := by
        rintro rfl
        exact hne (Ctl.notifying.inj (hu.symm.trans hctl))
      exact (Function.update_of_ne hut _ _).trans hu
  | entered => exact h.setWorker fun hw => absurd hw (Worker.not_oversleeps_enter _)
  | woke | cleared | finished => exact h.setWorker fun hw => by cases hw.1
  | stopped => exact h.setWorker id
  | @requested i hpc =>
      have hset : (s.setWorker i { s.workers i with stop := true }).Alert := h.setWorker id
      exact fun j hj => (hset j hj).imp_right fun hd => by cases hpc.symm.trans hd
  | @flagged i hpc =>
      intro j hj
      by_cases heq : j = i
      · exact .inr (by rw [heq])
      · have hj' : (s.workers j).Oversleeps := by rwa [← workers_setWorker_of_ne s heq]
        exact (h j hj').imp_right fun hd => by cases hpc.symm.trans hd
  | notifiedAll hpc =>
      refine h.of_notified rfl fun j hne hdue => hdue.imp_right fun hd => ?_
      exact absurd (ShutdownPc.notify.inj (hd.symm.trans hpc)) hne
  | called hpc | requestedAll hpc | joined hpc | returned hpc =>
      exact fun j hj => (h j hj).imp_right fun hd => by cases hpc.symm.trans hd

/-- **Accepted tasks are run, once and in order, exactly in the runs in which none is
submitted to a worker that has left**; and no worker oversleeps in any run. -/
theorem faithful_iff_not_strands (ls : List (Label n τ Tid)) :
    (Throughout step Faithful ({} : ThreadPool n τ Tid) ls ↔
        Along step (fun s l => ¬s.Strands l) ({} : ThreadPool n τ Tid) ls) ∧
      Throughout step Alert ({} : ThreadPool n τ Tid) ls := by
  constructor
  · refine throughout_iff_along (I := Sound) (fun s l s' h hs => h.step (step_steps hs))
      (fun s l s' h hf hs => h.faithful_step_iff hf (step_steps hs)) Sound.init ?_
    exact Sound.init.faithful_iff.mpr fun i hi => by cases hi
  · exact throughout_of_step (fun s l s' h hs => (step_steps hs).alert h)
      (fun i hi => by cases hi.1) ls

/-- The only worker leaves an empty mailbox behind, and is then given a task. -/
theorem not_faithful_late_submit :
    ¬ Throughout step Faithful ({} : ThreadPool 1 Unit Unit)
      [.shutdown, .shutdown, .shutdown, .shutdown, .enter 0, .submit () 0 ()] := by
  refine not_throughout_of_end
    (R := fun s => (s.workers 0).pc = .exited ∧ (s.workers 0).executed ≠ (s.workers 0).accepted)
    (by decide +kernel) ?_
  rintro s ⟨hpc, hne⟩ hfaithful
  exact hne (hfaithful.complete 0 (.inl hpc))

end ThreadPool
end Opencode.Pool
