import Opencode.Hfsm.Deferral

/-!
# The result of a replay

`process_deferred` answers `Unhandled` when one of its events came back `Unhandled`.  An
engine only has deferred events if it defers, and then an event without a rule comes back
`Deferred`: it is in the queue again, and the answer does not tell.

## Main definitions

* `StateMachineEngine.FindsInTurn` — each event finds a rule, one after the other.
* `Driven.TellsTruth` — what the answer is to say.
* `tellsTruth_iff` — it says so exactly when each deferred event finds a rule.
-/

namespace Opencode.Hfsm

open Opencode.Lib

universe u
variable {T D G A : Type u}

namespace StateMachineEngine

section Conditions

variable (e : StateMachineEngine T D G A)

/-- Only an engine that defers has deferred events. -/
def EmptyUnlessDefers : Prop :=
  e.config.deferUnhandledEvents = false → e.deferredEvents = []

/-- Each event in turn finds a rule, in the state the rules of the earlier ones lead to. -/
def FindsInTurn [DecidableEq T] (guards : G → EventEnvelope T D → Bool) :
    List (EventEnvelope T D) → StateMachineEngine T D G A → Prop
  | [], _ => True
  | evt :: events, e => ∃ rule ∈ e.selectRule guards evt,
      FindsInTurn guards events (if rule.isInternal then e else e.activate rule.dstId)

end Conditions

variable {e : StateMachineEngine T D G A}

/-- The invariant is about the option and the queue alone. -/
theorem EmptyUnlessDefers.congr {e' : StateMachineEngine T D G A} (h : e.EmptyUnlessDefers)
    (hconfig : e'.config = e.config) (hdeferred : e'.deferredEvents = e.deferredEvents) :
    e'.EmptyUnlessDefers := by
  intro hoff
  rw [hdeferred]
  exact h (hconfig ▸ hoff)

variable [DecidableEq T] {guards : G → EventEnvelope T D → Bool}

/-- The rules an event finds do not depend on the queue. -/
theorem findsInTurn_deferredEvents {events : List (EventEnvelope T D)}
    (queue : List (EventEnvelope T D)) :
    FindsInTurn guards events { e with deferredEvents := queue } ↔
      FindsInTurn guards events e := by
  induction events generalizing e with
  | nil => rfl
  | cons evt events ih =>
      refine exists_congr fun rule => and_congr Iff.rfl ?_
      cases rule.isInternal with
      | true => exact ih
      | false => exact ih (e := e.activate rule.dstId)

/-- Where the engine defers, no event comes back `Unhandled`. -/
theorem handleEnvelope_ne_unhandled (hdefers : e.config.deferUnhandledEvents = true)
    (guards : G → EventEnvelope T D → Bool) (evt : EventEnvelope T D) :
    (e.handleEnvelope guards evt).1 ≠ .unhandled ∧
      (e.handleEnvelope guards evt).2.2.config.deferUnhandledEvents = true := by
  cases hselect : e.selectRule guards evt with
  | none =>
      rw [handleEnvelope_of_none hselect]
      simp [hdefers]
  | some rule =>
      rw [handleEnvelope_of_some hselect, executeTransition_snd]
      refine ⟨by simp, ?_⟩
      cases rule.isInternal <;> exact hdefers

theorem replay_result (hdefers : e.config.deferUnhandledEvents = true)
    (events : List (EventEnvelope T D)) (result : EventResult) :
    (replay guards events result e).1 = result := by
  induction events generalizing e with
  | nil => rfl
  | cons evt events ih =>
      obtain ⟨hresult, hdefers'⟩ := handleEnvelope_ne_unhandled hdefers guards evt
      simp only [replay, if_neg hresult]
      exact ih hdefers'

/-- The answer is always the same. -/
theorem processDeferred_result (h : e.EmptyUnlessDefers)
    (guards : G → EventEnvelope T D → Bool) : (e.processDeferred guards).1 = .handled := by
  cases hdefers : e.config.deferUnhandledEvents with
  | true => exact replay_result (e := { e with deferredEvents := [] }) hdefers _ _
  | false => rw [processDeferred, h hdefers, replay]

end StateMachineEngine

namespace Driven

open StateMachineEngine

variable {s t : Driven T D G A} {c : Call T D G A}

variable [DecidableEq T]

/-- `process_deferred` answers `Handled` exactly when it executes all the events that were
deferred, and exactly when it leaves none deferred. -/
def TellsTruth (s : Driven T D G A) (guards : G → EventEnvelope T D → Bool) : Prop :=
  ∃ t executed, run step s (.processDeferred ::
      List.replicate s.engine.deferredEvents.length (.replay guards)) = some t ∧
    t.engine = (s.engine.processDeferred guards).2.2 ∧ t.executed = s.executed ++ executed ∧
    ((s.engine.processDeferred guards).1 = .handled ↔
      executed.map (·.evt) = s.engine.deferredEvents) ∧
    ((s.engine.processDeferred guards).1 = .handled ↔ t.engine.deferredEvents = [])

/-! ## Reachable engines -/

theorem emptyUnlessDefers_feed (h : s.engine.EmptyUnlessDefers)
    (guards : G → EventEnvelope T D → Bool) (evt : EventEnvelope T D) :
    (s.feed guards evt).engine.EmptyUnlessDefers := by
  cases hselect : s.engine.selectRule guards evt with
  | none =>
      rw [feed_of_none hselect]
      cases hdefers : s.engine.config.deferUnhandledEvents with
      | true =>
          intro hoff
          exact absurd hoff (by simp [hdefers])
      | false => exact h
  | some rule =>
      rw [feed_of_some hselect]
      cases rule.isInternal with
      | true => exact h
      | false => exact h.congr rfl rfl

theorem emptyUnlessDefers_step (h : s.engine.EmptyUnlessDefers) (hstep : s.step c = some t) :
    t.engine.EmptyUnlessDefers := by
  cases hr : s.replaying with
  | cons evt events =>
      obtain ⟨guards, -, rfl⟩ := step_of_replaying hr hstep
      exact emptyUnlessDefers_feed h guards evt
  | nil =>
      rw [step_of_idle hr] at hstep
      cases c with
      | registerState id =>
          cases hstep
          obtain ⟨hconfig, hdeferred⟩ := s.engine.registerState_frame id
          exact h.congr hconfig hdeferred
      | setInitial id =>
          cases hstep
          obtain ⟨hconfig, hdeferred⟩ := s.engine.setInitial_frame id
          exact h.congr hconfig hdeferred
      | addRule | onEntry | onExit =>
          cases hstep
          exact h
      | handle typeInfo data guards =>
          cases hstep
          exact emptyUnlessDefers_feed h guards _
      | processDeferred | reset =>
          cases hstep
          exact fun _ => rfl
      | replay guards => cases hstep

/-! ## A pass -/

/-- One pass over the events executes some of them, in order, and defers the others
again; it executes them all exactly when each finds a rule in turn. -/
theorem run_pass (guards : G → EventEnvelope T D → Bool) (events : List (EventEnvelope T D))
    (hdefers : events ≠ [] → s.engine.config.deferUnhandledEvents = true)
    (hr : s.replaying = events) :
    ∃ t executed again, run step s (List.replicate events.length (.replay guards)) = some t ∧
      t.executed = s.executed ++ executed ∧
      t.engine.deferredEvents = s.engine.deferredEvents ++ again ∧
      (executed.map (·.evt)).Sublist events ∧
      executed.length + again.length = events.length ∧
      (again = [] ↔ FindsInTurn guards events s.engine) := by
  induction events generalizing s with
  | nil => exact ⟨s, [], [], rfl, by simp, by simp, .slnil, rfl, iff_of_true rfl trivial⟩
  | cons evt events ih =>
      have hdefers := hdefers (List.cons_ne_nil _ _)
      have hstep := run_replicate_replay hr guards
      cases hselect : s.engine.selectRule guards evt with
      | none =>
          have hfeed := feed_of_none hselect
          rw [if_pos hdefers] at hfeed
          obtain ⟨t, executed, again, ht, hexecuted, hagain, hsub, hlength, -⟩ :=
            ih (s := { s.feed guards evt with replaying := events })
              (fun _ => by rw [hfeed]; exact hdefers) rfl
          rw [hfeed] at hexecuted hagain
          refine ⟨t, executed, evt :: again, hstep.trans ht, hexecuted, ?_, hsub.cons evt, ?_, ?_⟩
          · rw [hagain, List.append_assoc, List.singleton_append]
          · rw [List.length_cons, List.length_cons, ← hlength, Nat.add_assoc]
          · simp [FindsInTurn, hselect]
      | some rule =>
          let next := if rule.isInternal then s.engine else s.engine.activate rule.dstId
          have hnext : next.config = s.engine.config ∧
              next.deferredEvents = s.engine.deferredEvents := by
            unfold next
            split <;> exact ⟨rfl, rfl⟩
          have hfeed : s.feed guards evt = { s with
              engine := next, executed := s.executed ++ [⟨evt, rule, next.currentState⟩] } :=
            feed_of_some hselect
          obtain ⟨t, executed, again, ht, hexecuted, hagain, hsub, hlength, hfinds⟩ :=
            ih (s := { s.feed guards evt with replaying := events })
              (fun _ => by rw [hfeed, ← hdefers, ← hnext.1]) rfl
          rw [hfeed] at hexecuted hagain hfinds
          refine ⟨t, ⟨evt, rule, next.currentState⟩ :: executed, again, hstep.trans ht, ?_, ?_,
            hsub.cons_cons evt, ?_, ?_⟩
          · rw [hexecuted, List.append_assoc, List.singleton_append]
          · rw [hagain, hnext.2]
          · rw [List.length_cons, List.length_cons, ← hlength, Nat.add_right_comm]
          · rw [hfinds, FindsInTurn, hselect]
            simp [next]

/-- A call of `process_deferred` executes all the deferred events, and leaves none
deferred, exactly when each finds a rule in turn. -/
theorem run_processDeferred_iff (hempty : s.engine.EmptyUnlessDefers) (hr : s.replaying = [])
    (guards : G → EventEnvelope T D → Bool) :
    ∃ t executed, run step s (.processDeferred ::
        List.replicate s.engine.deferredEvents.length (.replay guards)) = some t ∧
      t.engine = (s.engine.processDeferred guards).2.2 ∧ t.executed = s.executed ++ executed ∧
      (executed.map (·.evt) = s.engine.deferredEvents ↔
        FindsInTurn guards s.engine.deferredEvents s.engine) ∧
      (t.engine.deferredEvents = [] ↔
        FindsInTurn guards s.engine.deferredEvents s.engine) := by
  let start : Driven T D G A := { s with
    engine := { s.engine with deferredEvents := [] }
    replaying := s.engine.deferredEvents }
  have hdefers : s.engine.deferredEvents ≠ [] →
      start.engine.config.deferUnhandledEvents = true := by
    intro hne
    by_contra hoff
    exact hne (hempty (by simpa using hoff))
  obtain ⟨t, executed, again, ht, hexecuted, hagain, hsub, hlength, hfinds⟩ :=
    run_pass guards s.engine.deferredEvents hdefers rfl
  have hpass : run step s (.processDeferred ::
      List.replicate s.engine.deferredEvents.length (.replay guards)) = some t := by
    rw [run_cons, step_of_idle hr]
    exact ht
  have hengine : t.engine = (s.engine.processDeferred guards).2.2 := by
    obtain ⟨t', ht', hengine, -⟩ := run_processDeferred hr guards
    rw [hpass] at ht'
    rw [Option.some.inj ht', hengine]
  rw [findsInTurn_deferredEvents] at hfinds
  refine ⟨t, executed, hpass, hengine, hexecuted, ?_, ?_⟩
  · rw [← hfinds]
    constructor
    · intro hmap
      have hlen : executed.length = s.engine.deferredEvents.length := by
        rw [← hmap, List.length_map]
      exact List.length_eq_zero_iff.mp (by omega)
    · rintro rfl
      exact hsub.eq_of_length (by simpa using hlength)
  · rw [← hfinds, hagain, List.nil_append]

/-- **The answer of a replay is true exactly when there is nothing to report**: in every
engine that configuring, handling, replaying and resetting can lead to, the answer is the
one it owes exactly when each deferred event in turn finds a rule. -/
theorem tellsTruth_iff {config : MachineConfig} {calls : List (Call T D G A)}
    (hrun : run step { engine := { config } } calls = some s) (hr : s.replaying = [])
    (guards : G → EventEnvelope T D → Bool) :
    s.TellsTruth guards ↔ FindsInTurn guards s.engine.deferredEvents s.engine := by
  have hempty : s.engine.EmptyUnlessDefers :=
    run_invariant (fun s c t h ht => emptyUnlessDefers_step h ht) (fun _ => rfl) hrun
  have hresult : (s.engine.processDeferred guards).1 = .handled :=
    processDeferred_result hempty guards
  obtain ⟨t, executed, hpass, hengine, hexecuted, hall, hnone⟩ :=
    run_processDeferred_iff hempty hr guards
  constructor
  · rintro ⟨u, -, hu, -, -, -, hiff⟩
    obtain rfl : t = u := Option.some.inj (hpass.symm.trans hu)
    exact hnone.mp (hiff.mp hresult)
  · intro hfinds
    exact ⟨t, executed, hpass, hengine, hexecuted, iff_of_true hresult (hall.mpr hfinds),
      iff_of_true hresult (hnone.mpr hfinds)⟩

/-- The replay of the library's own test tells the truth: the early stop finds a rule once
the machine has started. -/
theorem tellsTruth_iff_early_stop :
    ∃ s, run step { engine := { config := { deferUnhandledEvents := true } } }
        (deferCalls.take 7) = some s ∧
      (s.TellsTruth (fun _ _ => true) ↔
        FindsInTurn (fun _ _ => true) s.engine.deferredEvents s.engine) ∧
      s.engine.deferredEvents.length = 1 := by
  have hend : ∃ s ∈ run step { engine := { config := { deferUnhandledEvents := true } } }
      (deferCalls.take 7), s.replaying = [] ∧ s.engine.deferredEvents.length = 1 := by
    decide +kernel
  obtain ⟨s, hs, hr, hone⟩ := hend
  exact ⟨s, hs, tellsTruth_iff hs hr _, hone⟩

/-- An event that comes too early, and a replay that comes too early as well. -/
def tooEarlyCalls : List (Call DeferEvent Unit Unit Unit) :=
  [.registerState 1, .registerState 2, .setInitial 1,
    .addRule { srcId := 2, eventType := .evStop, dstId := 1 },
    .handle .evStop () fun _ _ => true]

/-- The event is deferred again, and the answer is `Handled`. -/
theorem not_tellsTruth_tooEarly :
    ∃ s, run step { engine := { config := { deferUnhandledEvents := true } } } tooEarlyCalls =
        some s ∧
      s.replaying = [] ∧ (s.engine.processDeferred fun _ _ => true).1 = .handled ∧
      ¬ s.TellsTruth fun _ _ => true := by
  have hend : ∃ s ∈ run step { engine := { config := { deferUnhandledEvents := true } } }
      tooEarlyCalls, s.replaying = [] ∧
        (s.engine.processDeferred fun _ _ => true).1 = .handled ∧
        (s.engine.processDeferred fun _ _ => true).2.2.deferredEvents ≠ [] := by
    decide +kernel
  obtain ⟨s, hs, hr, hresult, hleft⟩ := hend
  refine ⟨s, hs, hr, hresult, ?_⟩
  rintro ⟨t, -, -, hengine, -, -, hiff⟩
  exact hleft (hengine ▸ hiff.mp hresult)

end Driven
end Opencode.Hfsm
