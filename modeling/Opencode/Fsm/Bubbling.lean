import Opencode.Fsm.ActiveConfiguration

/-!
# Which state handles an event

`processEvent` looks up a transition, evaluates its guard and takes a step to the
parent, in one loop; `pathToRoot` is a loop of its own.  `Bubbles` says what an event
does in terms of that path alone: the first state on it with an enabled transition
handles the event, and a failing guard below it does not stop the search.

## Main definitions

* `Enabled` — a state has a transition on the event whose guard is empty or passes.
* `Bubbles` — the outcome of an event on a given path.
* `processEvent_bubbles` — `processEvent` has that outcome on the root path.
-/

namespace Opencode.Fsm

open Opencode.Lib

universe u
variable {S E A G : Type u} [DecidableEq S] [DecidableEq E]

namespace HierarchicalStateMachine

/-- `s` has the transition `tr` on the event, and its guard is empty or passes. -/
def Enabled (m : HierarchicalStateMachine S E A G) (event : E) (guards : G → Bool) (s : S)
    (tr : Transition S A G) : Prop :=
  m.transitions.lookup (s, event) = some tr ∧ ∀ g, tr.guard = some g → guards g = true

/-- What an event does on the path of the current state: it is handled if and only if
some state on the path has an enabled transition, the first such state takes it, and
otherwise nothing happens. -/
structure Bubbles (m : HierarchicalStateMachine S E A G) (event : E) (guards : G → Bool)
    (path : List S) (handled : Bool) (visits : List (Visit S A))
    (m' : HierarchicalStateMachine S E A G) : Prop where
  handled_iff : handled = true ↔ ∃ s ∈ path, ∃ tr, m.Enabled event guards s tr
  first : ∀ below s above tr, path = below ++ s :: above →
    (∀ x ∈ below, ∀ tr', ¬ m.Enabled event guards x tr') → m.Enabled event guards s tr →
    m' = { m with currentState := tr.target }
  idle : handled = false → m' = m ∧ visits = []

variable {m : HierarchicalStateMachine S E A G} {event : E} {guards : G → Bool} {s src : S}
  {tr : Transition S A G} {path : List S}

theorem enabled_eq_some_iff :
    m.enabled event guards s = some (src, tr) ↔ src = s ∧ m.Enabled event guards s tr := by
  cases hl : m.transitions.lookup (s, event) with
  | none => simp [enabled, Enabled, hl]
  | some tr' =>
      simp only [enabled, Enabled, hl, Option.all_eq_true, Option.some.injEq]
      split
      · rename_i hpass
        constructor
        · rintro ⟨⟩
          exact ⟨rfl, rfl, hpass⟩
        · rintro ⟨rfl, rfl, -⟩
          rfl
      · rename_i hfail
        refine iff_of_false (by simp) ?_
        rintro ⟨-, rfl, hpass⟩
        exact hfail hpass

theorem enabled_eq_none_iff :
    m.enabled event guards s = none ↔ ∀ tr, ¬ m.Enabled event guards s tr := by
  constructor
  · intro h tr hen
    exact absurd (h.symm.trans (enabled_eq_some_iff.mpr ⟨rfl, hen⟩)) (by simp)
  · intro h
    cases hen : m.enabled event guards s with
    | none => rfl
    | some r => exact absurd (enabled_eq_some_iff.mp hen).2 (h r.2)

/-- A state has at most one enabled transition on an event. -/
theorem Enabled.unique {tr' : Transition S A G} (h : m.Enabled event guards s tr)
    (h' : m.Enabled event guards s tr') : tr = tr' :=
  Option.some.inj (h.1.symm.trans h'.1)

/-- No state of the path has an enabled transition. -/
theorem bubbles_idle (h : ∀ s ∈ path, ∀ tr, ¬ m.Enabled event guards s tr) :
    m.Bubbles event guards path false [] m where
  handled_iff := by simpa using h
  first := by
    rintro below s above tr rfl - hen
    exact absurd hen (h s (by simp) tr)
  idle := fun _ => ⟨rfl, rfl⟩

/-- The first state of the path with an enabled transition takes it. -/
theorem bubbles_first {below above : List S} (visits : List (Visit S A))
    (hbelow : ∀ x ∈ below, ∀ tr', ¬ m.Enabled event guards x tr')
    (hen : m.Enabled event guards s tr) :
    m.Bubbles event guards (below ++ s :: above) true visits
      { m with currentState := tr.target } where
  handled_iff := iff_of_true rfl ⟨s, by simp, tr, hen⟩
  first := by
    intro below' s' above' tr' heq hbelow' hen'
    -- Neither of the two first enabled states lies below the other.
    rcases List.append_eq_append_iff.mp heq with ⟨mid, rfl, hmid⟩ | ⟨mid, rfl, hmid⟩
    · cases mid with
      | nil =>
          obtain rfl : s = s' := (List.cons.inj hmid).1
          rw [hen.unique hen']
      | cons x mid =>
          obtain rfl : s = x := (List.cons.inj hmid).1
          exact absurd hen (hbelow' s (by simp) tr)
    · cases mid with
      | nil =>
          obtain rfl : s' = s := (List.cons.inj hmid).1
          rw [hen.unique hen']
      | cons x mid =>
          obtain rfl : s' = x := (List.cons.inj hmid).1
          exact absurd hen' (hbelow s' (by simp) tr')
  idle := by simp

/-- **Events bubble to the nearest enabled ancestor.**  In an acyclic hierarchy the path
to the root and the processing of an event both end, and the outcome of the event is the
one `Bubbles` describes on that path. -/
theorem processEvent_bubbles (m : HierarchicalStateMachine S E A G) (hac : Acyclic m.parent)
    (event : E) (guards : G → Bool) :
    ∃ path handled visits m', m.pathToRoot m.currentState = some path ∧
      m.processEvent event guards = some (handled, visits, m') ∧
      m.Bubbles event guards path handled visits m' := by
  obtain ⟨path, hpath⟩ := exists_path hac m.currentState
  have hh := handler_eq hpath event guards
  cases hfound : path.findSome? (m.enabled event guards) with
  | none =>
      rw [hfound] at hh
      refine ⟨path, false, [], m, pathToRoot_eq hpath, by simp [processEvent, hh], ?_⟩
      refine bubbles_idle fun s hs => ?_
      exact enabled_eq_none_iff.mp (List.findSome?_eq_none_iff.mp hfound s hs)
  | some r =>
      obtain ⟨src, tr⟩ := r
      rw [hfound] at hh
      obtain ⟨below, s, above, rfl, hen, hbelow⟩ := List.findSome?_eq_some_iff.mp hfound
      obtain ⟨rfl, hen⟩ := enabled_eq_some_iff.mp hen
      obtain ⟨visits, hexec⟩ := exists_visits hac src tr.target tr.action
      refine ⟨_, true, visits, { m with currentState := tr.target }, pathToRoot_eq hpath,
        by simp [processEvent, hh, hexec], ?_⟩
      exact bubbles_first _ (fun x hx => enabled_eq_none_iff.mp (hbelow x hx)) hen

/-- Switching off from standby is handled two levels up, by the root. -/
theorem processEvent_bubbles_device :
    ∃ path handled visits m',
      pathToRoot { device with currentState := .standby } .standby = some path ∧
      processEvent { device with currentState := .standby } .powerOff (fun _ => true) =
        some (handled, visits, m') ∧
      Bubbles { device with currentState := .standby } .powerOff (fun _ => true) path handled
        visits m' :=
  processEvent_bubbles { device with currentState := .standby } acyclic_device .powerOff
    fun _ => true

end HierarchicalStateMachine
end Opencode.Fsm
