import Opencode.Async.Delivery

/-!
# The asynchronous machine and the simple one

What the machine has done is what the simple machine does with the handled events one after
the other, and without a deferral the handled events are the posted ones in their order.

`defer_current_event` breaks the order.  It copies the event between the two sections, and
the second section handles the event all the same; put back, the copy is handled again.

## Main definitions

* `Simulated` — the machine agrees with the simple one.
* `refines_simple` — without a deferral it does so for the posted events.
* `Once` — no posted event is taken twice, and none that is put aside is handled before it
  is put back.
* `once_of_not_defers` — the log of a run without a deferral.
-/

namespace Opencode.Async

open Opencode.Fsm Opencode.Lib

variable {S E A G B Tid : Type}

namespace AsyncMachine

variable [DecidableEq S] [DecidableEq E] {guards : G → Bool}

/-! ## The simulation -/

/-- What the simple machine does with the handled events. -/
def account (guards : G → Bool) (m : EventDrivenStateMachine S E A G B) (log : List (Entry E)) :
    Account S E A G :=
  Account.after guards m.toSimple ((dispatches log).map Item.event)

/-- The machine is where the simple one is after the handled events, has come by the same
action slots, and has told each observer of each change of state. -/
structure Simulated (guards : G → Bool) (m : EventDrivenStateMachine S E A G B)
    (s : AsyncMachine S E A G B Tid) : Prop where
  machine : s.machine.toSimple = (account guards m s.log).machine
  observers : s.machine.observers = m.observers
  visits : s.visits = (account guards m s.log).visits
  notices : s.notices = (account guards m s.log).changes.flatMap fun c =>
    m.observers.map (⟨·, c.1, c.2.1, c.2.2⟩)

theorem Simulated.init (m : EventDrivenStateMachine S E A G B) :
    Simulated guards m ({ machine := m } : AsyncMachine S E A G B Tid) := by
  constructor <;> simp [account, dispatches, Account.after]

theorem account_dispatched (m : EventDrivenStateMachine S E A G B) (log : List (Entry E))
    (item : Item E) (b : Bool) :
    account guards m (log ++ [.dispatched item b]) =
      (account guards m log).next guards item.event := by
  simp [account, Account.after_concat]

/-- Handling an event is one more event for the simple machine. -/
theorem Simulated.handled {m : EventDrivenStateMachine S E A G B}
    {s : AsyncMachine S E A G B Tid} (h : Simulated guards m s) (item : Item E) :
    Simulated guards m (s.handleEvent guards item) := by
  obtain ⟨-, hvisits, hnotices, hmachine, hobs⟩ :=
    s.machine.processInternalLocked_simulates guards item.event
  have hstate : s.machine.currentState = (account guards m s.log).machine.currentState := by
    rw [← h.machine]
    rfl
  rw [h.machine] at hvisits hnotices hmachine
  refine ⟨?_, ?_, ?_, ?_⟩
  · simp only [handleEvent, account_dispatched, Account.next]
    exact hmachine
  · exact hobs.trans h.observers
  · simp only [handleEvent, account_dispatched, Account.next]
    rw [hvisits, h.visits]
  · simp only [handleEvent, account_dispatched, Account.next]
    rw [hnotices, h.notices]
    split
    · simp [EventDrivenStateMachine.notifyObserversLocked, h.observers, hstate]
    · simp

/-- A step that handles no event. -/
theorem Simulated.frame {m : EventDrivenStateMachine S E A G B}
    {s s' : AsyncMachine S E A G B Tid} (h : Simulated guards m s)
    (hmachine : s'.machine = s.machine) (hvisits : s'.visits = s.visits)
    (hnotices : s'.notices = s.notices) (hlog : dispatches s'.log = dispatches s.log) :
    Simulated guards m s' := by
  have hacc : account guards m s'.log = account guards m s.log := by simp [account, hlog]
  refine ⟨?_, ?_, ?_, ?_⟩
  · rw [hmachine, hacc, h.machine]
  · rw [hmachine, h.observers]
  · rw [hvisits, hacc, h.visits]
  · rw [hnotices, hacc, h.notices]

/-- What holds in every state without a deferral. -/
structure Ordered (guards : G → Bool) (m : EventDrivenStateMachine S E A G B)
    (s : AsyncMachine S E A G B Tid) : Prop where
  owned : s.terminated = false → Owned s
  live : s.running = true → ∃ i, s.loop i ≠ .exited
  delivered : Delivered s
  simulated : Simulated guards m s

theorem Ordered.init (m : EventDrivenStateMachine S E A G B) :
    Ordered guards m ({ machine := m } : AsyncMachine S E A G B Tid) :=
  ⟨fun _ => Owned.init m, by simp, Delivered.init m, Simulated.init m⟩

variable [DecidableEq Tid]

theorem Simulated.step {m : EventDrivenStateMachine S E A G B}
    {s s' : AsyncMachine S E A G B Tid} {l : Label E Tid} (h : Simulated guards m s)
    (hs : Steps guards s l s') : Simulated guards m s' := by
  cases hs with
  | post event hc => exact h.frame rfl rfl rfl (by simp [goto, postEvent])
  | deferred hp => exact h.frame rfl rfl rfl (by simp [dispatches, Entry.dispatched?])
  | requeued =>
      refine h.frame rfl rfl rfl ?_
      simp [processDeferredEvents, dispatches, Entry.dispatched?, Function.comp_def]
  | handled hl => exact (h.handled _).frame rfl rfl rfl rfl
  | _ => exact h.frame rfl rfl rfl rfl

theorem Ordered.step {m : EventDrivenStateMachine S E A G B}
    {s s' : AsyncMachine S E A G B Tid} {l : Label E Tid} (h : Ordered guards m s)
    (hfree : ¬ s.Defers l) (hstep : s.step guards l = some s') : Ordered guards m s' := by
  have ho := h.owned (terminated_of_step hstep)
  have hs := step_steps hstep
  exact ⟨fun hterm => ho.step hterm hs, live_of_steps ho hs, h.delivered.step ho hfree hs,
    h.simulated.step hs⟩

/-- Every state of a run without a deferral. -/
theorem ordered_of_not_defers {m : EventDrivenStateMachine S E A G B} {s : AsyncMachine S E A G B Tid}
    {ls : List (Label E Tid)} (h : Ordered guards m s)
    (hfree : Along (step guards) (fun s l => ¬ s.Defers l) s ls) :
    Throughout (step guards) (Ordered guards m) s ls :=
  run_invariant_along (fun _ _ _ => Ordered.step) h hfree

/-- What a run leaves of the posts that were there while `running_` was set: the loop is
alive, or all of them have been handled. -/
def Draining (before : List (Item E)) (s : AsyncMachine S E A G B Tid) : Prop :=
  before <+: posts s.log ∧ ((∃ i, s.loop i ≠ .exited) ∨ before <+: dispatches s.log)

theorem Draining.step {before : List (Item E)} {s s' : AsyncMachine S E A G B Tid}
    {l : Label E Tid} (h : Draining before s) (hd : Delivered s) (ho : Owned s)
    (hs : Steps guards s l s') : Draining before s' := by
  obtain ⟨hposts, hor⟩ := h
  have hlog := log_of_steps hs
  have hposts' : before <+: posts s'.log := hposts.trans (hlog.filterMap _)
  refine ⟨hposts', ?_⟩
  rcases hor with ⟨i, hi⟩ | hdone
  · by_cases hi' : s'.loop i = .exited
    · rw [(hd.drained ho hs hi hi').2]
      exact .inr hposts'
    · exact .inl ⟨i, hi'⟩
  · exact .inr (hdone.trans (hlog.filterMap _))

/-- A run without a deferral from a state with `running_` set. -/
theorem draining_of_running {m : EventDrivenStateMachine S E A G B}
    {s s' : AsyncMachine S E A G B Tid} {ls : List (Label E Tid)} (h : Ordered guards m s)
    (hr : s.running = true) (hfree : Along (step guards) (fun s l => ¬ s.Defers l) s ls)
    (hrun : run (step guards) s ls = some s') : Draining (posts s.log) s' := by
  have hinv : Throughout (step guards)
      (fun s' : AsyncMachine S E A G B Tid => Ordered guards m s' ∧ Draining (posts s.log) s')
      s ls := by
    refine run_invariant_along ?_ ⟨h, List.prefix_rfl, .inl (h.live hr)⟩ hfree
    rintro u l u' ⟨hu, hdrain⟩ hnot hstep
    exact ⟨hu.step hnot hstep, hdrain.step hu.delivered (hu.owned (terminated_of_step hstep))
      (step_steps hstep)⟩
  exact (hinv.last hrun).2

/-! ## The main results -/

/-- **The asynchronous machine refines the simple one.**  In a run in which nobody calls
`defer_current_event`, the handled events, the one between the sections and the queue are
the posted events in the order of the posts; a loop exits with the queue empty and all posts
handled, so once no loop is left, all that was posted while `running_` was set is handled;
and the state, the visits and the calls of the observers are those of the simple machine
after the handled events. -/
theorem refines_simple (m : EventDrivenStateMachine S E A G B) {ls : List (Label E Tid)}
    (hls : ∀ l ∈ ls, l.isDefer = false) {s : AsyncMachine S E A G B Tid}
    (hrun : run (step guards) { machine := m } ls = some s) :
    dispatches s.log ++ s.processing.toList ++ s.queue = posts s.log ∧
      (∀ l s' i, s.step guards l = some s' → s.loop i ≠ .exited → s'.loop i = .exited →
        s'.queue = [] ∧ dispatches s'.log = posts s'.log) ∧
      (∀ ms ns s₀, ls = ms ++ ns → run (step guards) { machine := m } ms = some s₀ →
        s₀.running = true → (∀ i, s.loop i = .exited) → posts s₀.log <+: dispatches s.log) ∧
      s.machine.currentState = (account guards m s.log).machine.currentState ∧
      s.visits = (account guards m s.log).visits ∧
      s.notices = (account guards m s.log).changes.flatMap fun c =>
        m.observers.map (⟨·, c.1, c.2.1, c.2.2⟩) := by
  have hfree : ∀ (ls' : List (Label E Tid)), (∀ l ∈ ls', l ∈ ls) →
      ∀ s₁ : AsyncMachine S E A G B Tid, Along (step guards) (fun s l => ¬ s.Defers l) s₁ ls' := by
    intro ls' hsub
    refine along_of_forall fun l hl s₁ => ?_
    have hnot := hls l (hsub l hl)
    cases l <;> simp_all [Defers, Label.isDefer]
  have hordered := throughout_iff.mp
    (ordered_of_not_defers (Ordered.init m) (hfree ls (fun _ hl => hl) _))
  have h : Ordered guards m s := hordered ls List.prefix_rfl s hrun
  refine ⟨h.delivered.order, ?_, ?_, congrArg SimpleStateMachine.currentState h.simulated.machine,
    h.simulated.visits, h.simulated.notices⟩
  · intro l s' i hstep
    exact h.delivered.drained (h.owned (terminated_of_step hstep)) (step_steps hstep)
  · rintro ms ns s₀ rfl hms hr hexited
    have h₀ : Ordered guards m s₀ := hordered ms (List.prefix_append ms ns) s₀ hms
    have hns : run (step guards) s₀ ns = some s := by
      rwa [run_append, hms, Option.bind_some] at hrun
    have hdrain := draining_of_running h₀ hr
      (hfree ns (fun l hl => List.mem_append_right ms hl) s₀) hns
    rcases hdrain.2 with ⟨i, hi⟩ | hdone
    · exact absurd (hexited i) hi
    · exact hdone

/-- A switch: its one event turns it on and off. -/
def switch : EventDrivenStateMachine Bool Unit Unit Unit Unit where
  currentState := false
  transitions :=
    (AList.insert (false, ()) ⟨true, none, none⟩ ∅).insert (true, ()) ⟨false, none, none⟩
  entryActions := ∅
  exitActions := ∅
  observers := [()]

/-- Two posts, handled before the loop exits. -/
theorem refines_simple_switch :
    ∃ s, run (step fun _ => true) ({ machine := switch } : AsyncMachine _ _ _ _ _ Bool)
        [.start true, .post false (), .post true (), .notifyOne true none, .loop 0, .stop true,
          .loop 0, .loop 0, .loop 0, .loop 0, .notifyAll true, .join true] = some s ∧
      dispatches s.log ++ s.processing.toList ++ s.queue = posts s.log := by
  have hsome : (run (step fun _ => true) ({ machine := switch } : AsyncMachine _ _ _ _ _ Bool)
      [.start true, .post false (), .post true (), .notifyOne true none, .loop 0, .stop true,
        .loop 0, .loop 0, .loop 0, .loop 0, .notifyAll true, .join true]).isSome := by
    decide +kernel
  obtain ⟨s, hs⟩ := Option.isSome_iff_exists.mp hsome
  exact ⟨s, hs, (refines_simple switch (by decide) hs).1⟩

end AsyncMachine

/-! ## Deferrals -/

/-- An event that is taken has not been taken before, and an event that was put aside is
not handled before it is put back. -/
def Once (pre : List (Entry E)) : Entry E → Prop
  | .dispatched item taken =>
      (taken = true →
        ∀ item', .dispatched item' true ∈ pre → item'.occurrence ≠ item.occurrence) ∧
      (.deferred item ∈ pre → Since (.deferred item) (.requeued item) pre)
  | _ => True

namespace AsyncMachine

variable [DecidableEq S] [DecidableEq E] [DecidableEq Tid] {guards : G → Bool}

theorem once_step {s s' : AsyncMachine S E A G B Tid} {l : Label E Tid}
    (h : Justified Once s.log) (hd : Delivered s) (hfree : ¬ s.Defers l)
    (hs : Steps guards s l s') : Justified Once s'.log := by
  cases hs with
  | post event hc => exact justified_concat.mpr ⟨h, trivial⟩
  | deferred hp => exact absurd (by simp [Defers, hp]) hfree
  | requeued => simpa [processDeferredEvents, hd.deferred] using h
  | @handled i item hl =>
      refine justified_concat.mpr ⟨h, fun _ item' hmem => ?_, fun hmem => ?_⟩
      · exact hd.fresh (hd.current i item hl) item' (mem_dispatches hmem)
      · exact absurd hmem (hd.unmarked item)
  | _ => exact h

/-- **No posted event is taken twice** in a run in which no `defer_current_event` takes
effect. -/
theorem once_of_not_defers (m : EventDrivenStateMachine S E A G B) (guards : G → Bool)
    (ls : List (Label E Tid))
    (hfree : Along (step guards) (fun s l => ¬ s.Defers l)
      ({ machine := m } : AsyncMachine S E A G B Tid) ls) :
    Throughout (step guards) (fun s => Justified Once s.log) { machine := m } ls := by
  have hinv : Throughout (step guards)
      (fun s : AsyncMachine S E A G B Tid => Ordered guards m s ∧ Justified Once s.log)
      { machine := m } ls := by
    refine run_invariant_along ?_ ⟨Ordered.init m, justified_nil Once⟩ hfree
    rintro s l s' ⟨hs, honce⟩ hnot hstep
    exact ⟨hs.step hnot hstep, once_step honce hs.delivered hnot (step_steps hstep)⟩
  exact hinv.imp fun s h => h.2

/-- A call of `defer_current_event` before the loop has popped the event, which puts nothing
aside. -/
theorem once_of_early_defer :
    Throughout (step fun _ => true)
      (fun s : AsyncMachine _ _ _ _ _ Unit => Justified Once s.log) { machine := switch }
      [.start (), .post () (), .notifyOne () none, .defer (), .loop 0, .loop 0,
        .processDeferred (), .loop 0] :=
  once_of_not_defers switch _ _ (by decide +kernel)

/-- The event is put aside between the two sections and handled in the second; put back, it
is handled and taken once more. -/
theorem not_once_of_defer :
    ¬ Throughout (step fun _ => true)
      (fun s : AsyncMachine _ _ _ _ _ Unit => Justified Once s.log) { machine := switch }
      [.start (), .post () (), .notifyOne () none, .loop 0, .defer (), .loop 0,
        .processDeferred (), .loop 0, .loop 0] := by
  refine not_throughout_of_end
    (R := fun s => s.log =
      [Entry.posted ⟨0, ()⟩, .deferred ⟨0, ()⟩, .dispatched ⟨0, ()⟩ true, .requeued ⟨0, ()⟩] ++
        [Entry.dispatched ⟨0, ()⟩ true])
    (by decide +kernel) ?_
  intro s hlog hj
  rw [hlog, justified_concat] at hj
  exact hj.2.1 rfl ⟨0, ()⟩ (by simp) rfl

end AsyncMachine

end Opencode.Async
