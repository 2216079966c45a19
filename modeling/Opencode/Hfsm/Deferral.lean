import Opencode.Hfsm.Driven

/-!
# Deferral

An engine that defers the events no rule handles keeps them in a queue until
`process_deferred` moves the queue out and hands its events to the engine again, through
the same function that appends to the queue.  The active state changes under the events
of one pass, so which of them are deferred again, and when, varies along it.

The events executed, those the pass has left and those deferred again are together the
events handled so far, each once, and what is deferred again comes before what is left.

## Main definitions

* `Driven.waiting` — the deferred events, and those the pass has left.
* `Driven.Conserves` — the invariant.
* `executed_or_deferred` — every event is executed once or deferred once.
-/

namespace Opencode.Hfsm

open Opencode.Lib
open scoped List

universe u
variable {T D G A : Type u}

namespace StateMachineEngine

/-- Configuring the states leaves the queue alone. -/
theorem registerState_frame (e : StateMachineEngine T D G A) (id : StateId) :
    (e.registerState id).config = e.config ∧
      (e.registerState id).deferredEvents = e.deferredEvents := by
  unfold registerState
  split <;> exact ⟨rfl, rfl⟩

theorem setInitial_frame (e : StateMachineEngine T D G A) (id : StateId) :
    (e.setInitial id).config = e.config ∧
      (e.setInitial id).deferredEvents = e.deferredEvents := by
  rw [setInitial]
  split <;> exact e.registerState_frame id

end StateMachineEngine

namespace Driven

variable {s t : Driven T D G A} {c : Call T D G A}

/-- The `handle` calls whose events were executed. -/
def executedSerials (s : Driven T D G A) : List ℕ := s.executed.map (·.evt.serial)

/-- The `handle` calls whose events are deferred. -/
def deferredSerials (s : Driven T D G A) : List ℕ := s.engine.deferredEvents.map (·.serial)

/-- The `handle` calls whose events are deferred or left to the pass under way. -/
def waiting (s : Driven T D G A) : List ℕ :=
  s.deferredSerials ++ s.replaying.map (·.serial)

/-- Every event handled so far was executed or waits, once, and the waiting events are in
the order they came in. -/
structure Conserves (s : Driven T D G A) : Prop where
  defers : s.engine.config.deferUnhandledEvents = true
  once : (s.executedSerials ++ s.waiting).Perm (List.range s.handled)
  ordered : s.waiting.Pairwise (· < ·)

variable [DecidableEq T]

/-- An event is executed, or it is the last of the deferred ones. -/
theorem feed_cases (hdefers : s.engine.config.deferUnhandledEvents = true)
    (guards : G → EventEnvelope T D → Bool) (evt : EventEnvelope T D) :
    (s.feed guards evt).engine.config = s.engine.config ∧
      (s.feed guards evt).replaying = s.replaying ∧ (s.feed guards evt).handled = s.handled ∧
      ((s.feed guards evt).executedSerials = s.executedSerials ++ [evt.serial] ∧
          (s.feed guards evt).deferredSerials = s.deferredSerials ∨
        (s.feed guards evt).executedSerials = s.executedSerials ∧
          (s.feed guards evt).deferredSerials = s.deferredSerials ++ [evt.serial]) := by
  cases hselect : s.engine.selectRule guards evt with
  | none =>
      rw [feed_of_none hselect, if_pos hdefers]
      simp [executedSerials, deferredSerials]
  | some rule =>
      rw [feed_of_some hselect]
      cases rule.isInternal <;>
        simp [executedSerials, deferredSerials, StateMachineEngine.activate]

omit [DecidableEq T] in
theorem Conserves.lt_handled (h : s.Conserves) {n : ℕ} (hn : n ∈ s.waiting) : n < s.handled := by
  have hmem : n ∈ s.executedSerials ++ s.waiting := List.mem_append_right _ hn
  rwa [h.once.mem_iff, List.mem_range] at hmem

omit [DecidableEq T] in
/-- The invariant is about the events alone. -/
theorem Conserves.congr (h : s.Conserves) (hconfig : t.engine.config = s.engine.config)
    (hexecuted : t.executed = s.executed) (hwaiting : t.waiting = s.waiting)
    (hhandled : t.handled = s.handled) : t.Conserves where
  defers := by rw [hconfig, h.defers]
  once := by
    rw [executedSerials, hexecuted, hwaiting, hhandled]
    exact h.once
  ordered := hwaiting ▸ h.ordered

/-- A new event is the last one to wait, if it is not executed. -/
theorem Conserves.handle (h : s.Conserves) (hr : s.replaying = [])
    (guards : G → EventEnvelope T D → Bool) {evt : EventEnvelope T D}
    (hevt : evt.serial = s.handled) :
    Conserves { s.feed guards evt with handled := s.handled + 1 } := by
  obtain ⟨hconfig, hreplaying, -, ⟨hexecuted, hdeferred⟩ | ⟨hexecuted, hdeferred⟩⟩ :=
    feed_cases h.defers guards evt
  · have hwaiting : (s.feed guards evt).waiting = s.waiting := by
      rw [waiting, waiting, hdeferred, hreplaying]
    refine ⟨hconfig ▸ h.defers, ?_, hwaiting ▸ h.ordered⟩
    show ((s.feed guards evt).executedSerials ++ (s.feed guards evt).waiting).Perm _
    rw [hexecuted, hwaiting, hevt, List.range_succ]
    calc s.executedSerials ++ [s.handled] ++ s.waiting
        ~ s.executedSerials ++ s.waiting ++ [s.handled] := by
          rw [List.append_assoc, List.append_assoc]
          exact List.perm_append_comm.append_left _
      _ ~ List.range s.handled ++ [s.handled] := h.once.append_right _
  · have hwaiting : (s.feed guards evt).waiting = s.waiting ++ [s.handled] := by
      rw [waiting, waiting, hdeferred, hreplaying, hr, hevt]
      simp
    refine ⟨hconfig ▸ h.defers, ?_, ?_⟩
    · show ((s.feed guards evt).executedSerials ++ (s.feed guards evt).waiting).Perm _
      rw [hexecuted, hwaiting, List.range_succ, ← List.append_assoc]
      exact h.once.append_right _
    · show (s.feed guards evt).waiting.Pairwise _
      rw [hwaiting, List.pairwise_append]
      refine ⟨h.ordered, List.pairwise_singleton _ _, fun n hn m hm => ?_⟩
      rw [List.mem_singleton.mp hm]
      exact h.lt_handled hn

/-- A replayed event is executed, or it waits where it waited. -/
theorem Conserves.replay (h : s.Conserves) {evt : EventEnvelope T D}
    {events : List (EventEnvelope T D)} (hr : s.replaying = evt :: events)
    (guards : G → EventEnvelope T D → Bool) :
    Conserves { s.feed guards evt with replaying := events } := by
  have hold : s.waiting = s.deferredSerials ++ evt.serial :: events.map (·.serial) := by
    rw [waiting, hr, List.map_cons]
  obtain ⟨hconfig, -, hhandled, ⟨hexecuted, hdeferred⟩ | ⟨hexecuted, hdeferred⟩⟩ :=
    feed_cases h.defers guards evt
  · have hwaiting : waiting { s.feed guards evt with replaying := events } =
        s.deferredSerials ++ events.map (·.serial) := congrArg (· ++ _) hdeferred
    refine ⟨hconfig ▸ h.defers, ?_, ?_⟩
    · show ((s.feed guards evt).executedSerials ++ _).Perm (List.range (s.feed guards evt).handled)
      rw [hexecuted, hwaiting, hhandled]
      refine .trans ?_ h.once
      rw [hold, List.append_assoc, List.singleton_append]
      exact List.perm_middle.symm.append_left _
    · rw [hwaiting]
      refine List.Pairwise.sublist ?_ (hold ▸ h.ordered)
      exact (List.sublist_cons_self _ _).append_left _
  · have hwaiting : waiting { s.feed guards evt with replaying := events } = s.waiting := by
      rw [hold]
      exact (congrArg (· ++ _) hdeferred).trans (by simp)
    refine ⟨hconfig ▸ h.defers, ?_, hwaiting ▸ h.ordered⟩
    show ((s.feed guards evt).executedSerials ++ _).Perm (List.range (s.feed guards evt).handled)
    rw [hexecuted, hwaiting, hhandled]
    exact h.once

theorem Conserves.step (h : s.Conserves) (hreset : c.isReset = false) (hstep : s.step c = some t) :
    t.Conserves := by
  cases hr : s.replaying with
  | cons evt events =>
      obtain ⟨guards, -, rfl⟩ := step_of_replaying hr hstep
      exact h.replay hr guards
  | nil =>
      rw [step_of_idle hr] at hstep
      cases c with
      | registerState id =>
          cases hstep
          obtain ⟨hconfig, hdeferred⟩ := s.engine.registerState_frame id
          exact h.congr hconfig rfl (by simp [waiting, deferredSerials, hdeferred]) rfl
      | setInitial id =>
          cases hstep
          obtain ⟨hconfig, hdeferred⟩ := s.engine.setInitial_frame id
          exact h.congr hconfig rfl (by simp [waiting, deferredSerials, hdeferred]) rfl
      | addRule | onEntry | onExit =>
          cases hstep
          exact h.congr rfl rfl rfl rfl
      | handle typeInfo data guards =>
          cases hstep
          exact h.handle hr guards rfl
      | processDeferred =>
          cases hstep
          exact h.congr rfl rfl (by simp [waiting, deferredSerials, hr]) rfl
      | replay guards => cases hstep
      | reset => cases hreset

/-- **Deferral loses and duplicates nothing.**  At every moment between two calls, each
event handled so far was executed by one rule or is deferred once, and not both; and the
deferred events are in the order they came in, during a pass as well. -/
theorem executed_or_deferred {e : StateMachineEngine T D G A}
    (hdefers : e.config.deferUnhandledEvents = true) (hempty : e.deferredEvents = [])
    {calls : List (Call T D G A)} (hreset : ∀ c ∈ calls, c.isReset = false)
    (hrun : run step { engine := e } calls = some s) :
    (s.replaying = [] → ∀ n < s.handled,
        s.executedSerials.count n = 1 ∧ s.deferredSerials.count n = 0 ∨
          s.executedSerials.count n = 0 ∧ s.deferredSerials.count n = 1) ∧
      s.deferredSerials.Pairwise (· < ·) := by
  have hstart : Conserves { engine := e } := by
    refine ⟨hdefers, ?_, ?_⟩ <;> simp [executedSerials, waiting, deferredSerials, hempty]
  have hcons : s.Conserves :=
    run_invariant_of_forall (fun s c t h hc ht => h.step hc ht) hstart hreset hrun
  refine ⟨fun hr n hn => ?_, ?_⟩
  · have hcount := hcons.once.count_eq n
    have hone : (List.range s.handled).count n = 1 :=
      List.count_eq_one_of_mem List.nodup_range (List.mem_range.mpr hn)
    rw [hone, List.count_append, waiting, hr, List.map_nil, List.append_nil] at hcount
    omega
  · exact (List.pairwise_append.mp hcons.ordered).1

inductive DeferEvent
  | evStart
  | evStop
  deriving DecidableEq

/-- The calls of the library's own test: a stop that comes too early is replayed after
the start. -/
def deferCalls : List (Call DeferEvent Unit Unit Unit) :=
  [.registerState 1, .registerState 2, .setInitial 1,
    .addRule { srcId := 1, eventType := .evStart, dstId := 2 },
    .addRule { srcId := 2, eventType := .evStop, dstId := 1 },
    .handle .evStop () fun _ _ => true, .handle .evStart () fun _ _ => true,
    .processDeferred, .replay fun _ _ => true]

theorem executed_or_deferred_early_stop :
    ∃ s, run step { engine := { config := { deferUnhandledEvents := true } } } deferCalls =
        some s ∧
      s.handled = 2 ∧ ∀ n < s.handled,
        s.executedSerials.count n = 1 ∧ s.deferredSerials.count n = 0 ∨
          s.executedSerials.count n = 0 ∧ s.deferredSerials.count n = 1 := by
  have hend : ∃ s ∈ run step { engine := { config := { deferUnhandledEvents := true } } } deferCalls,
      s.replaying = [] ∧ s.handled = 2 := by
    decide +kernel
  obtain ⟨s, hs, hr, hhandled⟩ := hend
  have hreset : ∀ c ∈ deferCalls, c.isReset = false := by
    simp [deferCalls, Call.isReset]
  exact ⟨s, hs, hhandled, (executed_or_deferred rfl rfl hreset hs).1 hr⟩

end Driven
end Opencode.Hfsm
