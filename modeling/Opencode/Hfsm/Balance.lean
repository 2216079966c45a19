import Opencode.Lib.Alternation
import Opencode.Hfsm.FirstRule

/-!
# Entry and exit callbacks

Entry and exit callbacks are run from three places: rules that lead to another state,
rules that lead back to the same one, and `reset`.  A rule always leaves the active state
and enters its target.  `reset` leaves the active state unless it is the initial one, and
enters the initial state in any case, so that a reset in the initial state enters it a
second time.

The log has an entry for each entry and exit callback that is run, whether or not one is
registered; the first `set_initial` counts as entering the initial state.

## Main definitions

* `Watched`, `Watched.step` — the driven engine with the log of its callbacks.
* `Watched.Balanced` — entries and exits alternate, and the active state alone is entered.
* `Watched.Leaves` — the condition on a reset.
* `balanced_iff_leaves` — the first throughout a run is the second along it.
-/

namespace Opencode.Hfsm

open Opencode.Lib

universe u
variable {T D G A : Type u}

/-- The entry or exit callback that was run. -/
def Moment.mark? (m : Moment T D G A) : Option (Mark StateId) :=
  match m.slot with
  | .exit id => some (.leave id)
  | .entry id => some (.enter id)
  | _ => none

def Call.isSetInitial : Call T D G A → Bool
  | .setInitial _ => true
  | _ => false

/-- The calls that only configure the engine, but for its initial state. -/
def Call.isConfiguring : Call T D G A → Bool
  | .registerState _ | .addRule _ | .onEntry _ _ | .onExit _ _ => true
  | _ => false

/-- The engine driven by calls, with the entry and exit callbacks run so far. -/
structure Watched (T D G A : Type u) where
  driven : Driven T D G A
  log : List (Mark StateId) := []

namespace Watched

section Step

variable [DecidableEq T]

/-- The entry and exit callbacks a call runs. -/
def marksOf (s : Driven T D G A) (c : Call T D G A) : List (Mark StateId) :=
  match c with
  | .setInitial id =>
      if s.engine.currentState = invalidState then
        [.enter (s.engine.setInitial id).currentState]
      else []
  | .reset => s.engine.reset.1.filterMap Moment.mark?
  | c =>
      match s.fed c with
      | some (guards, evt) => (s.engine.handleEnvelope guards evt).2.1.filterMap Moment.mark?
      | none => []

def step (w : Watched T D G A) (c : Call T D G A) : Option (Watched T D G A) :=
  (w.driven.step c).map fun s => ⟨s, w.log ++ marksOf w.driven c⟩

end Step

/-- Entries and exits alternate for every state, and the active state alone was entered
and not left since. -/
def Balanced (w : Watched T D G A) : Prop := Tracks w.log w.driven.engine.currentState

/-- A reset leaves a state and enters another; or there is no state to leave and none to
enter. -/
def Leaves (w : Watched T D G A) (c : Call T D G A) : Prop :=
  c.isReset = true →
    w.driven.engine.currentState ≠ w.driven.engine.initialState ∧
        w.driven.engine.currentState ≠ invalidState ∧
        w.driven.engine.initialState ≠ invalidState ∨
      w.driven.engine.currentState = invalidState ∧ w.driven.engine.initialState = invalidState

instance (w : Watched T D G A) (c : Call T D G A) : Decidable (w.Leaves c) :=
  inferInstanceAs (Decidable (_ → _))

variable [DecidableEq T] {s : Driven T D G A} {w t : Watched T D G A} {c : Call T D G A}

/-! ## Events -/

theorem filterMap_evaluated (e : StateMachineEngine T D G A) (evt : EventEnvelope T D)
    (rules : List (RuntimeTransition T G A)) :
    (rules.flatMap (e.evaluated evt)).filterMap Moment.mark? = [] := by
  rw [List.filterMap_eq_nil_iff]
  intro m hm
  obtain ⟨g, rfl⟩ := StateMachineEngine.mem_evaluated hm
  rfl

omit [DecidableEq T] in
/-- A rule that is not internal leaves the active state and enters its target. -/
theorem filterMap_ranBy (e : StateMachineEngine T D G A) (evt : EventEnvelope T D)
    (rule : RuntimeTransition T G A) :
    (e.ranBy evt rule).filterMap Moment.mark? =
      if rule.isInternal then [] else [.leave e.currentState, .enter rule.dstId] := by
  unfold StateMachineEngine.ranBy
  split <;> rfl

/-- Handling an event leaves the occupied state and enters the one that is then active,
or does neither. -/
theorem tracks_feed {log : List (Mark StateId)} (hkeyed : s.engine.Keyed)
    (hwired : s.engine.Wired) (h : Tracks log s.engine.currentState)
    (guards : G → EventEnvelope T D → Bool) (evt : EventEnvelope T D) :
    Tracks (log ++ (s.engine.handleEnvelope guards evt).2.1.filterMap Moment.mark?)
      (s.feed guards evt).engine.currentState := by
  have hwins := StateMachineEngine.firstEnabledWins_of_keyed hkeyed hwired guards evt
  have hengine : (s.feed guards evt).engine = (s.engine.handleEnvelope guards evt).2.2 := rfl
  rw [hengine]
  obtain ⟨before, rule, after, hrules, hrule, hbefore⟩ | hnone :=
    s.engine.exists_first_enabled guards evt
  · obtain ⟨hran, -, hcurrent, -⟩ := hwins.first before rule after hrules hrule hbefore
    rw [hran, hcurrent, List.filterMap_append, filterMap_evaluated, List.nil_append,
      filterMap_ranBy]
    split
    · rwa [List.append_nil]
    · exact h.move rule.dstId
  · obtain ⟨hran, -, hcurrent, -⟩ := hwins.idle hnone
    rw [hran, hcurrent, filterMap_evaluated, List.append_nil]
    exact h

/-! ## Resets -/

omit [DecidableEq T] in
theorem filterMap_reset {e : StateMachineEngine T D G A}
    (hinitial : (e.activate e.initialState).currentState = e.initialState) :
    e.reset.1.filterMap Moment.mark? =
      (if e.currentState ≠ invalidState ∧ e.currentState ≠ e.initialState then
          [Mark.leave e.currentState] else []) ++
        if e.initialState ≠ invalidState then [Mark.enter e.initialState] else [] := by
  unfold StateMachineEngine.reset
  simp only [hinitial, List.filterMap_append]
  congr 1 <;> split <;> rfl

/-- A reset keeps the balance exactly when it leaves a state and enters another. -/
theorem tracks_reset_iff {log : List (Mark StateId)} {current initial : StateId}
    (h : Tracks log current) :
    Tracks (log ++
        ((if current ≠ invalidState ∧ current ≠ initial then [Mark.leave current] else []) ++
          if initial ≠ invalidState then [Mark.enter initial] else [])) initial ↔
      (current ≠ initial ∧ current ≠ invalidState ∧ initial ≠ invalidState ∨
        current = invalidState ∧ initial = invalidState) := by
  by_cases hinitial : initial = invalidState
  · by_cases hcurrent : current = invalidState
    · -- there is no state to leave, and none to enter
      refine iff_of_true ?_ (.inr ⟨hcurrent, hinitial⟩)
      rw [hinitial, ← hcurrent]
      simpa using h
    · refine iff_of_false ?_ (by simp [hcurrent, hinitial])
      rw [if_pos ⟨hcurrent, by rwa [hinitial]⟩, if_neg (by simpa using hinitial), List.append_nil]
      exact h.not_leave initial
  · by_cases hleaves : current ≠ invalidState ∧ current ≠ initial
    · refine iff_of_true ?_ (.inl ⟨hleaves.2, hleaves.1, hinitial⟩)
      rw [if_pos hleaves, if_pos hinitial]
      exact h.move initial
    · refine iff_of_false ?_ (by tauto)
      rw [if_neg hleaves, if_pos hinitial, List.nil_append]
      exact h.not_enter initial initial

/-! ## Runs -/

omit [DecidableEq T] in
/-- A call that runs no entry or exit callback, stays in its state and is no reset. -/
theorem balanced_iff_leaves_of_quiet (h : w.Balanced) (hreset : c.isReset = false)
    (hcurrent : s.engine.currentState = w.driven.engine.currentState) :
    Balanced ⟨s, w.log ++ []⟩ ↔ w.Leaves c := by
  refine iff_of_true ?_ fun h => ?_
  · rw [Balanced, List.append_nil, hcurrent]
    exact h
  · rw [hreset] at h
    cases h

/-- A call keeps the balance exactly when it is no reset, or one that leaves a state and
enters another. -/
theorem balanced_step_iff (hsound : w.driven.Sound) (hlanded : w.driven.Landed)
    (h : w.Balanced) (hwired : w.driven.WiredAt c) (hinit : c.isSetInitial = false)
    (hstep : w.step c = some t) : t.Balanced ↔ w.Leaves c := by
  obtain ⟨s, hs, rfl⟩ := Option.map_eq_some_iff.mp hstep
  have hkeyed := hsound.keyed hlanded
  cases hr : w.driven.replaying with
  | cons evt events =>
      obtain ⟨guards, rfl, rfl⟩ := Driven.step_of_replaying hr hs
      have hfed := Driven.fed_replay hr guards
      refine iff_of_true ?_ fun hreset => by cases hreset
      simp only [marksOf, hfed]
      exact tracks_feed hkeyed (hwired (by simp [hfed])) h guards evt
  | nil =>
      rw [Driven.step_of_idle hr] at hs
      cases c with
      | registerState id =>
          cases hs
          exact balanced_iff_leaves_of_quiet h rfl
            (w.driven.engine.currentState_registerState id)
      | setInitial id => cases hinit
      | addRule | onEntry | onExit | processDeferred =>
          cases hs
          exact balanced_iff_leaves_of_quiet h rfl rfl
      | handle typeInfo data guards =>
          cases hs
          have hfed := Driven.fed_handle hr typeInfo data guards
          refine iff_of_true ?_ fun hreset => by cases hreset
          simp only [marksOf, hfed]
          exact tracks_feed hkeyed (hwired (by simp [hfed])) h guards _
      | replay guards => cases hs
      | reset =>
          cases hs
          have hcurrent : (w.driven.engine.activate w.driven.engine.initialState).currentState =
              w.driven.engine.initialState :=
            (hkeyed.currentState_activate_iff _).mpr hsound.initial
          show Tracks (w.log ++ w.driven.engine.reset.1.filterMap Moment.mark?)
            (w.driven.engine.activate w.driven.engine.initialState).currentState ↔ _
          rw [filterMap_reset hcurrent, hcurrent, tracks_reset_iff h]
          exact ⟨fun h _ => h, fun h => h rfl⟩

/-- The engine while it is configured, before it has an initial state. -/
structure Fresh (w : Watched T D G A) : Prop where
  sound : w.driven.Sound
  executed : w.driven.executed = []
  replaying : w.driven.replaying = []
  current : w.driven.engine.currentState = invalidState
  log : w.log = []

theorem Fresh.step (h : w.Fresh) (hc : c.isConfiguring = true) (hstep : w.step c = some t) :
    t.Fresh := by
  obtain ⟨s, hs, rfl⟩ := Option.map_eq_some_iff.mp hstep
  have hsound := h.sound.step hs
  rw [Driven.step_of_idle h.replaying] at hs
  cases c with
  | registerState id =>
      cases hs
      refine ⟨hsound, h.executed, h.replaying, ?_, by simp [marksOf, Driven.fed, h.log]⟩
      rw [StateMachineEngine.currentState_registerState]
      exact h.current
  | addRule | onEntry | onExit =>
      cases hs
      exact ⟨hsound, h.executed, h.replaying, h.current, by simp [marksOf, Driven.fed, h.log]⟩
  | _ => cases hc

/-- The first `set_initial` enters the initial state. -/
theorem Fresh.setInitial (h : w.Fresh) {id : StateId} (hstep : w.step (.setInitial id) = some t) :
    t.driven.Sound ∧ t.driven.Landed ∧ t.Balanced := by
  obtain ⟨s, hs, rfl⟩ := Option.map_eq_some_iff.mp hstep
  have hlanded : w.driven.Landed := by simp [Driven.Landed, h.executed]
  have hsound := h.sound.step hs
  rw [Driven.step_of_idle h.replaying] at hs
  cases hs
  refine ⟨hsound, hlanded, ?_⟩
  have hcurrent := ((h.sound.keyed hlanded).setInitial id).2
  rw [if_pos h.current] at hcurrent
  simp only [Balanced, marksOf, h.current, if_true, h.log, List.nil_append, hcurrent]
  exact tracks_enter id

/-- **Entry and exit callbacks alternate as long as no reset finds the initial state
active.**  From the first `set_initial` on, over rules that lead to registered states,
entries and exits alternate for every state and the active state alone is entered,
exactly when every reset leaves a state and enters another. -/
theorem balanced_iff_leaves {config : MachineConfig} {setup calls : List (Call T D G A)}
    {id : StateId} (hsetup : ∀ c ∈ setup, c.isConfiguring = true)
    (hrun : run step { driven := { engine := { config } } } (setup ++ [.setInitial id]) = some w)
    (hcalls : ∀ c ∈ calls, c.isSetInitial = false)
    (hwired : Along step (fun w c => w.driven.WiredAt c) w calls) :
    Throughout step Balanced w calls ↔ Along step Leaves w calls := by
  have hstart : Fresh ({ driven := { engine := { config } } } : Watched T D G A) :=
    ⟨Driven.sound_start config, rfl, rfl, rfl, rfl⟩
  rw [run_append] at hrun
  obtain ⟨u, hu, hlast⟩ := Option.bind_eq_some_iff.mp hrun
  have hfresh : u.Fresh :=
    run_invariant_of_forall (fun s c t h hc ht => h.step hc ht) hstart hsetup hu
  have hinit : u.step (.setInitial id) = some w := by simpa using hlast
  obtain ⟨hsound, hlanded, hbalanced⟩ := hfresh.setInitial hinit
  refine throughout_iff_along_within (I := fun w => w.driven.Sound ∧ w.driven.Landed)
    (D := fun w c => w.driven.WiredAt c ∧ c.isSetInitial = false) (fun w c t h hD ht => ?_)
    (fun w c t h hb hD ht => balanced_step_iff h.1 h.2 hb hD.1 hD.2 ht)
    ⟨hsound, hlanded⟩ hbalanced (hwired.and (along_of_forall (fun c hc _ => hcalls c hc) w))
  obtain ⟨s, hs, rfl⟩ := Option.map_eq_some_iff.mp ht
  exact ⟨h.1.step hs, h.2.step h.1 hD.1 hs⟩

/-- Two registered states and a rule from the first to the second. -/
def twoStates : List (Call Unit Unit Unit Unit) :=
  [.registerState 1, .registerState 2, .addRule { srcId := 1, eventType := (), dstId := 2 }]

theorem balanced_iff_leaves_twoStates :
    ∃ w, run step { driven := { engine := { config := {} } } } (twoStates ++ [.setInitial 1]) =
        some w ∧
      Throughout step Balanced w [.handle () () fun _ _ => true, .reset] := by
  have hend : ∃ w ∈ run step { driven := { engine := { config := {} } } }
      (twoStates ++ [.setInitial 1]),
      Along step (fun w c => w.driven.WiredAt c) w [.handle () () fun _ _ => true, .reset] ∧
        Along step Leaves w [.handle () () fun _ _ => true, .reset] := by
    decide +kernel
  obtain ⟨w, hw, hwired, hleaves⟩ := hend
  refine ⟨w, hw, (balanced_iff_leaves ?_ hw ?_ hwired).mpr hleaves⟩
  · simp [twoStates, Call.isConfiguring]
  · simp [Call.isSetInitial]

/-- A reset in the initial state enters it again. -/
theorem not_balanced_reset :
    ¬ ∀ (setup calls : List (Call Unit Unit Unit Unit)) (id : StateId) (w : Watched Unit Unit Unit Unit),
      (∀ c ∈ setup, c.isConfiguring = true) →
        run step { driven := { engine := { config := {} } } } (setup ++ [.setInitial id]) = some w →
        (∀ c ∈ calls, c.isSetInitial = false) →
        Along step (fun w c => w.driven.WiredAt c) w calls → Throughout step Balanced w calls := by
  intro h
  have hend : ∃ w ∈ run step { driven := { engine := { config := {} } } }
      ([.setInitial 1] : List (Call Unit Unit Unit Unit)),
      Along step (fun w c => w.driven.WiredAt c) w [.reset] ∧
        ∃ t ∈ run step w [.reset], ¬ (own 1 t.log).IsChain (· ≠ ·) := by
    decide +kernel
  obtain ⟨w, hw, hwired, t, ht, hchain⟩ := hend
  have hkept := h [] [.reset] 1 w (by simp) hw (by simp [Call.isSetInitial]) hwired
  exact hchain ((hkept.last ht).1 1).2

end Watched
end Opencode.Hfsm
