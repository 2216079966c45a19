import Opencode.Hfsm.Driven

/-!
# Where the engine lands

A rule leads to the state it names if that state has an entry in the table of states.
Without one, `operator[]` makes an entry with the default id, and the active state is
invalid from then on whenever the engine is sent there; registering the state later does
not repair the entry.

As long as every rule led to its target, every entry of the table carries its own id.
That is the invariant here: the first rule that does not lead to its target is the first
whose target has no entry.

## Main definitions

* `StateMachineEngine.Keyed` — every entry carries its own id.
* `Driven.Lands` — every rule led to its target, and the engine has an active state.
* `Driven.Leads` — the condition on a call.
* `lands_iff_leads` — the first throughout a run is the second along it.
-/

namespace Opencode.Hfsm

open Opencode.Lib

universe u
variable {T D G A : Type u}

/-! ## The table of states -/

namespace StateMachineEngine

variable {e : StateMachineEngine T D G A} {id : StateId}

/-- Every entry of the table of states carries the id it is filed under. -/
def Keyed (e : StateMachineEngine T D G A) : Prop :=
  ∀ id a, e.states.lookup id = some a → a.id = id

/-- The id has an entry, or the default entry is its entry. -/
def Known (e : StateMachineEngine T D G A) (id : StateId) : Prop :=
  id ∈ e.states ∨ id = invalidState

/-- The rules that are not internal lead to registered states. -/
def Wired (e : StateMachineEngine T D G A) : Prop :=
  ∀ rule ∈ e.rules, rule.isInternal = false → rule.dstId ∈ e.states

instance (e : StateMachineEngine T D G A) : Decidable e.Wired :=
  inferInstanceAs (Decidable (∀ rule ∈ e.rules, rule.isInternal = false → rule.dstId ∈ e.states))

theorem Keyed.insert (h : e.Keyed) {states : AList fun _ : StateId => ActiveState} {a : ActiveState}
    (ha : a.id = id) (hstates : states = e.states.insert id a) :
    Keyed { e with states := states } := by
  subst hstates
  intro id' a' h'
  by_cases heq : id' = id
  · subst heq
    rw [AList.lookup_insert, Option.some.injEq] at h'
    rw [← h', ha]
  · rw [AList.lookup_insert_ne heq] at h'
    exact h id' a' h'

theorem Keyed.registerState (h : e.Keyed) (id : StateId) : (e.registerState id).Keyed := by
  unfold StateMachineEngine.registerState
  split
  · exact h
  · exact h.insert rfl rfl

@[simp] theorem initialState_registerState (e : StateMachineEngine T D G A) (id : StateId) :
    (e.registerState id).initialState = e.initialState := by
  unfold StateMachineEngine.registerState
  split <;> rfl

@[simp] theorem currentState_registerState (e : StateMachineEngine T D G A) (id : StateId) :
    (e.registerState id).currentState = e.currentState := by
  unfold StateMachineEngine.registerState
  split <;> rfl

theorem mem_registerState (e : StateMachineEngine T D G A) (id : StateId) :
    id ∈ (e.registerState id).states := by
  unfold StateMachineEngine.registerState
  split
  · assumption
  · simp

theorem Known.registerState (h : e.Known id) (id' : StateId) :
    (e.registerState id').Known id := by
  refine h.imp_left fun hmem => ?_
  unfold StateMachineEngine.registerState
  split
  · exact hmem
  · simp [hmem]

/-- With every entry under its own id, the engine gets to exactly the ids it knows. -/
theorem Keyed.currentState_activate_iff (h : e.Keyed) (id : StateId) :
    (e.activate id).currentState = id ↔ e.Known id := by
  unfold activate stateAt currentState Known
  cases hlookup : e.states.lookup id with
  | some a =>
      have hmem : id ∈ e.states := by
        rw [← AList.lookup_isSome, hlookup]
        rfl
      simp [h id a hlookup, hmem]
  | none =>
      have hmem : id ∉ e.states := AList.lookup_eq_none.mp hlookup
      simp [hmem, eq_comm]

theorem Keyed.activate (h : e.Keyed) (hknown : e.Known id) : (e.activate id).Keyed := by
  unfold StateMachineEngine.activate stateAt
  cases hlookup : e.states.lookup id with
  | some a => exact h
  | none =>
      -- an id that is known without an entry is the invalid one, the id of the default
      obtain hmem | rfl := hknown
      · exact absurd hmem (AList.lookup_eq_none.mp hlookup)
      · exact h.insert rfl rfl

theorem Known.activate (h : e.Known id) (id' : StateId) : (e.activate id').Known id := by
  refine h.imp_left fun hmem => ?_
  unfold StateMachineEngine.activate stateAt
  cases e.states.lookup id' with
  | some a => exact hmem
  | none => simp [hmem]

/-- The state is registered, and an engine in no state gets to it. -/
theorem setInitial_eq (e : StateMachineEngine T D G A) (id : StateId) :
    e.setInitial id =
      if e.currentState = invalidState then
        ({ e.registerState id with initialState := id } : StateMachineEngine T D G A).activate id
      else { e.registerState id with initialState := id } := by
  rw [← e.currentState_registerState id]
  rfl

theorem known_registerState (e : StateMachineEngine T D G A) (id : StateId) :
    Known { e.registerState id with initialState := id } id := .inl (e.mem_registerState id)

theorem known_setInitial (e : StateMachineEngine T D G A) (id : StateId) :
    (e.setInitial id).Known (e.setInitial id).initialState := by
  rw [setInitial_eq]
  split
  · exact (e.known_registerState id).activate id
  · exact e.known_registerState id

theorem Keyed.setInitial (h : e.Keyed) (id : StateId) :
    (e.setInitial id).Keyed ∧
      (e.setInitial id).currentState =
        if e.currentState = invalidState then id else e.currentState := by
  have hkeyed : Keyed { e.registerState id with initialState := id } := h.registerState id
  have hknown := e.known_registerState id
  rw [setInitial_eq]
  split
  · exact ⟨hkeyed.activate hknown, (hkeyed.currentState_activate_iff id).mpr hknown⟩
  · exact ⟨hkeyed, e.currentState_registerState id⟩

end StateMachineEngine

/-! ## Landing -/

namespace Driven

variable {s t : Driven T D G A} {c : Call T D G A}

/-- Every rule that is not internal led to its target. -/
def Landed (s : Driven T D G A) : Prop :=
  ∀ x ∈ s.executed, x.rule.isInternal = false → x.landed = x.rule.dstId

/-- Every rule led to its target, and an engine with an initial state is in a state. -/
structure Lands (s : Driven T D G A) : Prop where
  landed : s.Landed
  active : s.initialised = true → s.engine.currentState ≠ invalidState

/-- As long as the rules led to their targets the entries are under their own ids, and
the initial state is always known. -/
structure Sound (s : Driven T D G A) : Prop where
  keyed : s.Landed → s.engine.Keyed
  initial : s.engine.Known s.engine.initialState

/-- A rule that is executed leads to a state with an entry, and, once there is an initial
state, neither to the invalid id nor back to an initial state that is invalid. -/
def Leads [DecidableEq T] (s : Driven T D G A) (c : Call T D G A) : Prop :=
  (∀ rule ∈ s.fires c, rule.isInternal = false →
    s.engine.Known rule.dstId ∧ (s.initialised = true → rule.dstId ≠ invalidState)) ∧
  (c.isReset = true → s.initialised = true → s.engine.initialState ≠ invalidState)

variable [DecidableEq T]

section Feed

variable {guards : G → EventEnvelope T D → Bool} {evt : EventEnvelope T D}
  {rule : RuntimeTransition T G A}

theorem engine_feed_of_some (hselect : s.engine.selectRule guards evt = some rule) :
    (s.feed guards evt).engine =
      if rule.isInternal then s.engine else s.engine.activate rule.dstId := by
  rw [feed_of_some hselect]

theorem initialised_feed (s : Driven T D G A) (guards : G → EventEnvelope T D → Bool)
    (evt : EventEnvelope T D) : (s.feed guards evt).initialised = s.initialised := by
  cases hselect : s.engine.selectRule guards evt with
  | none => rw [feed_of_none hselect]
  | some rule => rw [feed_of_some hselect]

/-- A rule that is executed is one more that has to lead to its target. -/
theorem landed_feed_iff (hselect : s.engine.selectRule guards evt = some rule) :
    (s.feed guards evt).Landed ↔ s.Landed ∧
      (rule.isInternal = false → (s.engine.activate rule.dstId).currentState = rule.dstId) := by
  rw [feed_of_some hselect, Landed, List.forall_mem_append, List.forall_mem_singleton]
  refine and_congr_right fun _ => forall_congr' fun hint => ?_
  rw [if_neg (by simpa using hint)]

/-- An event leaves the entries and the initial state sound. -/
theorem Sound.feed (h : s.Sound) (guards : G → EventEnvelope T D → Bool)
    (evt : EventEnvelope T D) : (s.feed guards evt).Sound := by
  cases hselect : s.engine.selectRule guards evt with
  | none =>
      rw [feed_of_none hselect]
      split <;> exact ⟨h.keyed, h.initial⟩
  | some rule =>
      have hengine := engine_feed_of_some hselect
      cases hint : rule.isInternal with
      | true =>
          rw [hint, if_pos rfl] at hengine
          refine ⟨fun hl => ?_, by rw [hengine]; exact h.initial⟩
          rw [hengine]
          exact h.keyed ((landed_feed_iff hselect).mp hl).1
      | false =>
          rw [hint, if_neg (by simp)] at hengine
          refine ⟨fun hl => ?_, by rw [hengine]; exact h.initial.activate rule.dstId⟩
          obtain ⟨hbefore, hdst⟩ := (landed_feed_iff hselect).mp hl
          have hkeyed := h.keyed hbefore
          rw [hengine]
          exact hkeyed.activate ((hkeyed.currentState_activate_iff _).mp (hdst hint))

/-- An event keeps the engine landing exactly when the rule it fires leads somewhere. -/
theorem Sound.lands_feed_iff (h : s.Sound) (hlands : s.Lands)
    (guards : G → EventEnvelope T D → Bool) (evt : EventEnvelope T D) :
    (s.feed guards evt).Lands ↔
      ∀ rule ∈ s.engine.selectRule guards evt, rule.isInternal = false →
        s.engine.Known rule.dstId ∧ (s.initialised = true → rule.dstId ≠ invalidState) := by
  cases hselect : s.engine.selectRule guards evt with
  | none =>
      rw [feed_of_none hselect]
      have hfed : Lands { s with engine :=
          if s.engine.config.deferUnhandledEvents then
            { s.engine with deferredEvents := s.engine.deferredEvents ++ [evt] }
          else s.engine } := by
        split <;> exact ⟨hlands.landed, hlands.active⟩
      simp [hfed]
  | some rule =>
      have hengine := engine_feed_of_some hselect
      have hinitialised := initialised_feed s guards evt
      simp only [Option.mem_some_iff, forall_eq']
      cases hint : rule.isInternal with
      | true =>
          rw [hint, if_pos rfl] at hengine
          refine iff_of_true ⟨(landed_feed_iff hselect).mpr ⟨hlands.landed, ?_⟩, ?_⟩ (by simp)
          · simp [hint]
          · rw [hengine, hinitialised]
            exact hlands.active
      | false =>
          rw [hint, if_neg (by simp)] at hengine
          rw [forall_prop_of_true rfl,
            ← (h.keyed hlands.landed).currentState_activate_iff rule.dstId]
          constructor
          · rintro ⟨hl, hactive⟩
            have hdst := ((landed_feed_iff hselect).mp hl).2 hint
            rw [hengine, hinitialised, hdst] at hactive
            exact ⟨hdst, hactive⟩
          · rintro ⟨hdst, hvalid⟩
            refine ⟨(landed_feed_iff hselect).mpr ⟨hlands.landed, fun _ => hdst⟩, ?_⟩
            rw [hengine, hinitialised, hdst]
            exact hvalid

/-- The same of the call that hands the event to the engine. -/
theorem Sound.lands_iff_of_fed (h : s.Sound) (hlands : s.Lands)
    (hfed : s.fed c = some (guards, evt)) (hreset : c.isReset = false) :
    (s.feed guards evt).Lands ↔ s.Leads c := by
  rw [h.lands_feed_iff hlands guards evt, Leads, fires_of_fed hfed, hreset]
  simp

end Feed

/-! ## Runs -/

omit [DecidableEq T] in
/-- A new engine has no entries, and the invalid id for its initial state. -/
theorem sound_start (config : MachineConfig) : Sound ({ engine := { config } } : Driven T D G A) := by
  refine ⟨fun _ id a h => ?_, .inr rfl⟩
  simp at h

theorem Sound.step (h : s.Sound) (hstep : s.step c = some t) : t.Sound := by
  cases hr : s.replaying with
  | cons evt events =>
      obtain ⟨guards, -, rfl⟩ := step_of_replaying hr hstep
      exact ⟨(h.feed guards evt).keyed, (h.feed guards evt).initial⟩
  | nil =>
      rw [step_of_idle hr] at hstep
      cases c with
      | registerState id =>
          cases hstep
          refine ⟨fun hl => (h.keyed hl).registerState id, ?_⟩
          rw [StateMachineEngine.initialState_registerState]
          exact h.initial.registerState id
      | setInitial id =>
          cases hstep
          exact ⟨fun hl => ((h.keyed hl).setInitial id).1, s.engine.known_setInitial id⟩
      | addRule | onEntry | onExit | processDeferred =>
          cases hstep
          exact ⟨h.keyed, h.initial⟩
      | handle typeInfo data guards =>
          cases hstep
          exact ⟨(h.feed guards _).keyed, (h.feed guards _).initial⟩
      | replay guards => cases hstep
      | reset =>
          cases hstep
          exact ⟨fun hl => (h.keyed hl).activate h.initial, h.initial.activate _⟩

/-- A call keeps the engine landing exactly when it leads somewhere. -/
theorem Sound.lands_step_iff (h : s.Sound) (hlands : s.Lands) (hstep : s.step c = some t) :
    t.Lands ↔ s.Leads c := by
  -- a call that hands no event to the engine and is no reset always leads somewhere
  have hleads : s.fed c = none → c.isReset = false → s.Leads c := by
    intro hfed hreset
    simp [Leads, fires, hfed, hreset]
  cases hr : s.replaying with
  | cons evt events =>
      obtain ⟨guards, rfl, rfl⟩ := step_of_replaying hr hstep
      rw [← h.lands_iff_of_fed hlands (fed_replay hr guards) rfl]
      exact ⟨fun h => ⟨h.landed, h.active⟩, fun h => ⟨h.landed, h.active⟩⟩
  | nil =>
      rw [step_of_idle hr] at hstep
      cases c with
      | registerState id =>
          cases hstep
          refine iff_of_true ⟨hlands.landed, ?_⟩ (hleads rfl rfl)
          rw [StateMachineEngine.currentState_registerState]
          exact hlands.active
      | setInitial id =>
          cases hstep
          refine iff_of_true ⟨hlands.landed, fun hinit => ?_⟩ (hleads rfl rfl)
          rw [((h.keyed hlands.landed).setInitial id).2]
          split
          · -- the engine was in no state, so this call made the initial state valid
            have hvalid := hlands.active
            simp_all
          · assumption
      | addRule | onEntry | onExit | processDeferred =>
          cases hstep
          exact iff_of_true ⟨hlands.landed, hlands.active⟩ (hleads rfl rfl)
      | handle typeInfo data guards =>
          cases hstep
          rw [← h.lands_iff_of_fed hlands (fed_handle hr typeInfo data guards) rfl]
          exact ⟨fun h => ⟨h.landed, h.active⟩, fun h => ⟨h.landed, h.active⟩⟩
      | replay guards => cases hstep
      | reset =>
          cases hstep
          have hcurrent : (s.engine.activate s.engine.initialState).currentState =
              s.engine.initialState :=
            ((h.keyed hlands.landed).currentState_activate_iff _).mpr h.initial
          have hfires : s.fires .reset = none := rfl
          simp only [Leads, hfires, Call.isReset, Option.not_mem_none, false_implies,
            implies_true, true_and, forall_const]
          rw [← hcurrent]
          exact ⟨fun h => h.active, fun h => ⟨hlands.landed, h⟩⟩

/-- **The engine lands where its rules say, exactly as long as its rules lead to states
it knows.** -/
theorem lands_iff_leads (config : MachineConfig) (calls : List (Call T D G A)) :
    Throughout step Lands { engine := { config } } calls ↔
      Along step Leads { engine := { config } } calls := by
  refine throughout_iff_along (I := Sound) (fun s c t h ht => h.step ht)
    (fun s c t h hlands ht => h.lands_step_iff hlands ht) (sound_start config) ?_
  exact ⟨by simp [Landed], by simp⟩

/-! ## Registered states -/

/-- Whenever an event is handed to the engine, its rules lead to registered states. -/
def WiredAt (s : Driven T D G A) (c : Call T D G A) : Prop := s.fed c ≠ none → s.engine.Wired

instance (s : Driven T D G A) (c : Call T D G A) : Decidable (s.WiredAt c) :=
  decidable_of_iff ((s.fed c).isSome = true → s.engine.Wired)
    (by simp [WiredAt, Option.isSome_iff_ne_none])

/-- A rule that is executed leads to its target. -/
theorem Landed.feed (hkeyed : s.engine.Keyed) (h : s.Landed) (hwired : s.engine.Wired)
    (guards : G → EventEnvelope T D → Bool) (evt : EventEnvelope T D) :
    (s.feed guards evt).Landed := by
  cases hselect : s.engine.selectRule guards evt with
  | none =>
      rw [feed_of_none hselect]
      exact h
  | some rule =>
      refine (landed_feed_iff hselect).mpr ⟨h, fun hint => ?_⟩
      refine (hkeyed.currentState_activate_iff rule.dstId).mpr (.inl ?_)
      exact hwired rule (List.mem_of_find?_eq_some hselect) hint

theorem Landed.step (hsound : s.Sound) (h : s.Landed) (hwired : s.WiredAt c)
    (hstep : s.step c = some t) : t.Landed := by
  have hkeyed := hsound.keyed h
  cases hr : s.replaying with
  | cons evt events =>
      obtain ⟨guards, rfl, rfl⟩ := step_of_replaying hr hstep
      exact h.feed hkeyed (hwired (by simp [fed_replay hr])) guards evt
  | nil =>
      rw [step_of_idle hr] at hstep
      cases c with
      | handle typeInfo data guards =>
          cases hstep
          exact h.feed hkeyed (hwired (by simp [fed_handle hr])) guards _
      | replay guards => cases hstep
      | _ =>
          cases hstep
          exact h

/-- Over rules that lead to registered states, every entry of the table of states stays
under its own id. -/
theorem sound_of_wired {config : MachineConfig} {calls : List (Call T D G A)}
    (hwired : Along step WiredAt { engine := { config } } calls)
    (hrun : run step { engine := { config } } calls = some s) : s.Sound ∧ s.Landed := by
  have hstart : ({ engine := { config } } : Driven T D G A).Sound ∧
      ({ engine := { config } } : Driven T D G A).Landed :=
    ⟨sound_start config, by simp [Landed]⟩
  exact (run_invariant_along (Q := fun s => s.Sound ∧ s.Landed)
    (fun s c t h hw ht => ⟨h.1.step ht, h.2.step h.1 hw ht⟩) hstart hwired).last hrun

/-- A rule to a state that was never registered leaves the engine in no state. -/
theorem not_lands_unregistered :
    ¬ Throughout step Lands ({ engine := {} } : Driven Unit Unit Unit Unit)
      [.setInitial 1, .addRule { srcId := 1, eventType := (), dstId := 2 },
        .handle () () fun _ _ => true] := by
  refine not_throughout_of_end
    (R := fun s => s.initialised = true ∧ s.engine.currentState = invalidState)
    (by decide +kernel) ?_
  rintro s ⟨hinit, hcurrent⟩ hlands
  exact hlands.active hinit hcurrent

end Driven
end Opencode.Hfsm
