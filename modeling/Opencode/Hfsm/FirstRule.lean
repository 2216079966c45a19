import Opencode.Hfsm.Landing

/-!
# The first enabled rule

Event types, any-source rules, guards and internal rules are all decided in one loop
over the rules.  An event is handled by the first rule that matches it and whose guard
passes.  No other rule runs anything but its guard, and a guard is evaluated only where
the loop gets to it.

## Main definitions

* `StateMachineEngine.Matches`, `StateMachineEngine.Enabled` — the conditions on a rule.
* `StateMachineEngine.evaluated`, `StateMachineEngine.ranBy` — what a rule has run.
* `StateMachineEngine.calledBy` — the callbacks among it.
* `StateMachineEngine.FirstEnabledWins` — what is promised of handling an event.
* `firstEnabledWins` — it is kept over rules that lead to registered states.
-/

namespace Opencode.Hfsm

open Opencode.Lib

universe u
variable {T D G A : Type u}

namespace StateMachineEngine

section Conditions

variable [DecidableEq T] (e : StateMachineEngine T D G A)
  (guards : G → EventEnvelope T D → Bool) (evt : EventEnvelope T D)
  (rule : RuntimeTransition T G A)

/-- The rule is for events of this type in this state. -/
def Matches : Prop :=
  rule.eventType = evt.typeInfo ∧ (rule.isAny = true ∨ rule.srcId = e.currentState)

/-- The rule matches, and its guard passes if it has one. -/
def Enabled : Prop := e.Matches evt rule ∧ ∀ g ∈ rule.guard, guards g evt = true

instance : Decidable (e.Matches evt rule) :=
  inferInstanceAs (Decidable (_ ∧ _))

/-- The guard of a rule that matches is evaluated. -/
def evaluated : List (Moment T D G A) :=
  if e.Matches evt rule then rule.guard.toList.map fun g => ⟨.guard g evt, e.currentState⟩
  else []

/-- What a rule that is executed runs: its action, between leaving the active state and
entering its target unless it is internal.  The action already runs in the target. -/
def ranBy : List (Moment T D G A) :=
  if rule.isInternal then [⟨.action rule evt, e.currentState⟩]
  else
    [⟨.exit e.currentState, e.currentState⟩, ⟨.action rule evt, rule.dstId⟩,
      ⟨.entry rule.dstId, rule.dstId⟩]

/-- The callbacks a rule that is executed runs. -/
def calledBy : List (Callback T D A) :=
  let action := rule.action.toList.map (.action · evt)
  if rule.isInternal then action
  else e.runExit e.currentState ++ action ++ e.runEntry rule.dstId

end Conditions

variable [DecidableEq T] {e : StateMachineEngine T D G A}
  {guards : G → EventEnvelope T D → Bool} {evt : EventEnvelope T D}
  {rule : RuntimeTransition T G A}

/-- An event is handled exactly when a rule is enabled, and the first such rule alone is
executed; without one the state stays and the event is deferred if the engine defers. -/
structure FirstEnabledWins (e : StateMachineEngine T D G A)
    (guards : G → EventEnvelope T D → Bool) (evt : EventEnvelope T D) : Prop where
  handled_iff : (e.handleEnvelope guards evt).1 = .handled ↔
    ∃ rule ∈ e.rules, e.Enabled guards evt rule
  first : ∀ before rule after, e.rules = before ++ rule :: after →
    e.Enabled guards evt rule → (∀ r ∈ before, ¬ e.Enabled guards evt r) →
      (e.handleEnvelope guards evt).2.1 =
          (before ++ [rule]).flatMap (e.evaluated evt) ++ e.ranBy evt rule ∧
        (e.handleEnvelope guards evt).2.1.flatMap e.callbacks = e.calledBy evt rule ∧
        (e.handleEnvelope guards evt).2.2.currentState =
          (if rule.isInternal then e.currentState else rule.dstId) ∧
        (e.handleEnvelope guards evt).2.2.deferredEvents = e.deferredEvents
  idle : (∀ r ∈ e.rules, ¬ e.Enabled guards evt r) →
    (e.handleEnvelope guards evt).2.1 = e.rules.flatMap (e.evaluated evt) ∧
      (e.handleEnvelope guards evt).2.1.flatMap e.callbacks = [] ∧
      (e.handleEnvelope guards evt).2.2.currentState = e.currentState ∧
      (e.handleEnvelope guards evt).2.2.deferredEvents =
        e.deferredEvents ++ if e.config.deferUnhandledEvents then [evt] else []

/-! ## The search -/

theorem matchesRule_iff : e.matchesRule rule evt = true ↔ e.Matches evt rule := by
  simp [matchesRule, Matches]

/-- A rule that is not enabled is passed over, with its guard evaluated if it matches. -/
theorem search_of_not_enabled (h : ¬ e.Enabled guards evt rule)
    (rules : List (RuntimeTransition T G A)) :
    e.search guards evt (rule :: rules) =
      (e.evaluated evt rule ++ (e.search guards evt rules).1,
        (e.search guards evt rules).2) := by
  rw [search, evaluated]
  by_cases hmatch : e.Matches evt rule
  · rw [if_neg (by simpa using matchesRule_iff.mpr hmatch), if_pos hmatch]
    cases hguard : rule.guard with
    | none => exact absurd ⟨hmatch, by simp [hguard]⟩ h
    | some g =>
        have hg : guards g evt = false := by
          by_contra hpass
          exact h ⟨hmatch, by simpa [hguard] using hpass⟩
        simp [hg, moment]
  · have hno : e.matchesRule rule evt = false := by
      rw [← Bool.not_eq_true, matchesRule_iff]
      exact hmatch
    simp [hno, hmatch]

theorem search_of_enabled (h : e.Enabled guards evt rule)
    (rules : List (RuntimeTransition T G A)) :
    e.search guards evt (rule :: rules) = (e.evaluated evt rule, some rule) := by
  obtain ⟨hmatch, hpass⟩ := h
  rw [search, evaluated, if_neg (by simpa using matchesRule_iff.mpr hmatch), if_pos hmatch]
  cases hguard : rule.guard with
  | none => rfl
  | some g => simp [hpass g hguard, moment]

/-- Rules that are not enabled are passed over one by one. -/
theorem search_append {before : List (RuntimeTransition T G A)}
    (h : ∀ r ∈ before, ¬ e.Enabled guards evt r) (rules : List (RuntimeTransition T G A)) :
    e.search guards evt (before ++ rules) =
      (before.flatMap (e.evaluated evt) ++ (e.search guards evt rules).1,
        (e.search guards evt rules).2) := by
  induction before with
  | nil => rfl
  | cons r before ih =>
      have hrest := ih fun r' hr' => h r' (List.mem_cons_of_mem r hr')
      rw [List.cons_append, search_of_not_enabled (h r List.mem_cons_self), hrest,
        List.flatMap_cons, List.append_assoc]

/-! ## Handling an event -/

/-- Only guards are evaluated. -/
theorem mem_evaluated {rules : List (RuntimeTransition T G A)} {m : Moment T D G A}
    (h : m ∈ rules.flatMap (e.evaluated evt)) : ∃ g, m = e.moment (.guard g evt) := by
  obtain ⟨rule, -, hm⟩ := List.mem_flatMap.mp h
  unfold evaluated at hm
  split at hm
  · obtain ⟨g, -, rfl⟩ := List.mem_map.mp hm
    exact ⟨g, rfl⟩
  · simp at hm

theorem handleEnvelope_of_first {before after : List (RuntimeTransition T G A)}
    (hrules : e.rules = before ++ rule :: after) (hrule : e.Enabled guards evt rule)
    (hbefore : ∀ r ∈ before, ¬ e.Enabled guards evt r) :
    e.handleEnvelope guards evt =
      (.handled, (before ++ [rule]).flatMap (e.evaluated evt) ++ (e.executeTransition rule evt).1,
        (e.executeTransition rule evt).2) := by
  have hsearch := search_append hbefore (rule :: after)
  rw [← hrules, search_of_enabled hrule] at hsearch
  rw [handleEnvelope, hsearch, List.flatMap_append, List.flatMap_singleton]

theorem handleEnvelope_of_not_enabled (h : ∀ r ∈ e.rules, ¬ e.Enabled guards evt r) :
    e.handleEnvelope guards evt =
      if e.config.deferUnhandledEvents then
        (.deferred, e.rules.flatMap (e.evaluated evt),
          { e with deferredEvents := e.deferredEvents ++ [evt] })
      else (.unhandled, e.rules.flatMap (e.evaluated evt), e) := by
  have hsearch := search_append h []
  rw [List.append_nil] at hsearch
  simp [handleEnvelope, hsearch, search]

omit [DecidableEq T] in
/-- There is a first enabled rule, or none is enabled. -/
theorem exists_first_enabled (e : StateMachineEngine T D G A)
    (guards : G → EventEnvelope T D → Bool) (evt : EventEnvelope T D) :
    (∃ before rule after, e.rules = before ++ rule :: after ∧ e.Enabled guards evt rule ∧
        ∀ r ∈ before, ¬ e.Enabled guards evt r) ∨
      ∀ r ∈ e.rules, ¬ e.Enabled guards evt r := by
  classical
  cases hfind : e.rules.find? fun r => decide (e.Enabled guards evt r) with
  | none => exact .inr (by simpa using hfind)
  | some rule =>
      obtain ⟨hrule, before, after, hrules, hbefore⟩ := List.find?_eq_some_iff_append.mp hfind
      exact .inl ⟨before, rule, after, hrules, by simpa using hrule, by simpa using hbefore⟩

omit [DecidableEq T] in
/-- A rule that leads to its target runs what it is to run, and ends there. -/
theorem executeTransition_of_landing (evt : EventEnvelope T D)
    (h : rule.isInternal = false → (e.activate rule.dstId).currentState = rule.dstId) :
    (e.executeTransition rule evt).1 = e.ranBy evt rule ∧
      (e.executeTransition rule evt).2.currentState =
        (if rule.isInternal then e.currentState else rule.dstId) ∧
      (e.executeTransition rule evt).2.deferredEvents = e.deferredEvents := by
  unfold executeTransition ranBy
  cases hint : rule.isInternal with
  | true => exact ⟨rfl, rfl, rfl⟩
  | false =>
      have hcurrent := h hint
      simp only [Bool.false_eq_true, if_false, moment, hcurrent]
      exact ⟨rfl, trivial, rfl⟩

theorem firstEnabledWins_of_keyed (hkeyed : e.Keyed) (hwired : e.Wired)
    (guards : G → EventEnvelope T D → Bool) (evt : EventEnvelope T D) :
    e.FirstEnabledWins guards evt where
  handled_iff := by
    obtain ⟨before, rule, after, hrules, hrule, hbefore⟩ | hnone :=
      e.exists_first_enabled guards evt
    · have hmem : rule ∈ e.rules := by simp [hrules]
      rw [handleEnvelope_of_first hrules hrule hbefore]
      exact iff_of_true rfl ⟨rule, hmem, hrule⟩
    · rw [handleEnvelope_of_not_enabled hnone]
      refine iff_of_false ?_ fun ⟨rule, hmem, hrule⟩ => hnone rule hmem hrule
      split <;> simp
  first := by
    intro before rule after hrules hrule hbefore
    have hmem : rule ∈ e.rules := by simp [hrules]
    have hlands : rule.isInternal = false →
        (e.activate rule.dstId).currentState = rule.dstId := fun hint =>
      (hkeyed.currentState_activate_iff rule.dstId).mpr (.inl (hwired rule hmem hint))
    obtain ⟨hran, hcurrent, hdeferred⟩ := executeTransition_of_landing evt hlands
    have hcalled := callbacks_executeTransition (e := e) rule evt
    rw [hran] at hcalled
    rw [handleEnvelope_of_first hrules hrule hbefore, hran]
    refine ⟨rfl, ?_, hcurrent, hdeferred⟩
    rw [List.flatMap_append, callbacks_guards fun m hm => mem_evaluated hm, List.nil_append, hcalled,
      calledBy]
  idle := by
    intro hnone
    have hcalled : (e.rules.flatMap (e.evaluated evt)).flatMap e.callbacks = [] :=
      callbacks_guards fun m hm => mem_evaluated hm
    rw [handleEnvelope_of_not_enabled hnone]
    split
    · exact ⟨rfl, hcalled, rfl, rfl⟩
    · exact ⟨rfl, hcalled, rfl, (List.append_nil _).symm⟩

end StateMachineEngine

namespace Driven

variable [DecidableEq T]

/-- **The first enabled rule wins, and only it runs.**  In every engine whose rules led to
registered states whenever an event was handed to it, in every active state, handling an
event executes the first enabled rule and nothing else. -/
theorem firstEnabledWins {config : MachineConfig} {calls : List (Call T D G A)}
    {s : Driven T D G A} (hwired : Along step WiredAt { engine := { config } } calls)
    (hrun : run step { engine := { config } } calls = some s) (hrules : s.engine.Wired)
    (activeState : ActiveState) (guards : G → EventEnvelope T D → Bool)
    (evt : EventEnvelope T D) :
    StateMachineEngine.FirstEnabledWins { s.engine with activeState := activeState } guards evt := by
  obtain ⟨hsound, hlanded⟩ := sound_of_wired hwired hrun
  have hkeyed : StateMachineEngine.Keyed { s.engine with activeState := activeState } :=
    hsound.keyed hlanded
  exact StateMachineEngine.firstEnabledWins_of_keyed hkeyed hrules guards evt

/-- The calls of the library's own test: a guard on the payload. -/
def guardCalls : List (Call Unit ℕ Unit Unit) :=
  [.registerState 1, .registerState 2, .setInitial 1,
    .addRule { srcId := 1, eventType := (), dstId := 2, guard := some () }]

theorem firstEnabledWins_guardCalls :
    ∃ s, run step { engine := { config := {} } } guardCalls = some s ∧
      StateMachineEngine.FirstEnabledWins { s.engine with activeState := { id := 1 } }
        (fun _ evt => decide (100 ≤ evt.data)) ⟨(), 200, 0⟩ := by
  have hend : ∃ s ∈ run step { engine := { config := {} } } guardCalls, s.engine.Wired := by
    decide +kernel
  have hwired : Along step WiredAt { engine := { config := {} } } guardCalls := by
    decide +kernel
  obtain ⟨s, hs, hrules⟩ := hend
  exact ⟨s, hs, firstEnabledWins hwired hs hrules _ _ _⟩

end Driven
end Opencode.Hfsm
