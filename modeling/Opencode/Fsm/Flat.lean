import Opencode.Lib.Run
import Opencode.Fsm.Simple

/-!
# A hierarchy without parents

A hierarchical machine to which no state was added under a parent has the same tables as
a simple one and should behave like it.  Both machines are run side by side here, from a
`reset` to the same state and over the same events, and what they answer, the states they
pass through and the actions they run are recorded.

Two states of a flat hierarchy have no common ancestor, and `find_lca` then returns the
source of the transition.  The exit path from the source to itself is empty, so the exit
action of the source is not run.  Everything else agrees.

## Main definitions

* `Visit.runs` — the visits at which an action is run.
* `Record`, `Twins`, `Twins.step` — the two machines and what they did.
* `Twins.Repeats`, `Twins.SkipsExit` — a transition to its own source; a transition from
  a state with an exit action.
* `agree_iff_not_skipsExit` — when the records agree.
-/

namespace Opencode.Fsm

open Opencode.Lib

universe u
variable {S E A G : Type u}

/-- A visit at which an action is run: the slot has a callback. -/
def Visit.runs : Visit S A → Bool
  | .exit _ callback => callback.isSome
  | .action _ => true
  | .entry _ callback => callback.isSome

/-- What a machine answered, the states it passed through, and the actions it ran. -/
structure Record (S A : Type u) where
  answers : List Bool := []
  states : List S := []
  actions : List (Visit S A) := []

/-- The record after one more call. -/
def Record.add (r : Record S A) (answer : Option Bool) (state : S) (visits : List (Visit S A)) :
    Record S A where
  answers := r.answers ++ answer.toList
  states := r.states ++ [state]
  actions := r.actions ++ visits.filter Visit.runs

/-- An exit slot in front is seen in the record exactly when it has a callback. -/
theorem Record.add_eq_add_exit {r : Record S A} {answer : Option Bool} {state s : S}
    {callback : Option A} {visits : List (Visit S A)} :
    r.add answer state visits = r.add answer state (.exit s callback :: visits) ↔
      callback = none := by
  cases callback <;> simp [Record.add, List.filter_cons, Visit.runs]

/-- A hierarchical machine and a simple one, and what each of them did. -/
structure Twins (S E A G : Type u) where
  flat : HierarchicalStateMachine S E A G
  simple : SimpleStateMachine S E A G
  flatRecord : Record S A := {}
  simpleRecord : Record S A := {}

namespace Twins

variable [DecidableEq S]

/-- Both machines with the same tables, and no parents in the hierarchical one, reset to
the same state. -/
def start (transitions : AList fun _ : S × E => Transition S A G)
    (entryActions exitActions : AList fun _ : S => A) (unset initial : S) :
    Option (Twins S E A G) := do
  let (visits, flat) ←
    HierarchicalStateMachine.reset ⟨unset, ∅, ∅, transitions, entryActions, exitActions⟩ initial
  let (visits', simple) :=
    SimpleStateMachine.reset ⟨unset, transitions, entryActions, exitActions⟩ initial
  return {
    flat := flat
    simple := simple
    flatRecord := Record.add {} none flat.currentState visits
    simpleRecord := Record.add {} none simple.currentState visits' }

variable [DecidableEq E]

/-- Both machines process an event, with the same valuation of the guards. -/
def step (t : Twins S E A G) (event : E × (G → Bool)) : Option (Twins S E A G) := do
  let (answer, visits, flat) ← t.flat.processEvent event.1 event.2
  let (answer', visits', simple) := t.simple.processEvent event.2 event.1
  return {
    flat := flat
    simple := simple
    flatRecord := t.flatRecord.add answer flat.currentState visits
    simpleRecord := t.simpleRecord.add answer' simple.currentState visits' }

/-- The transition the simple machine takes. -/
def taken (t : Twins S E A G) (event : E × (G → Bool)) : Option (Transition S A G) :=
  (t.simple.transitions.lookup (t.simple.currentState, event.1)).filter (·.guard.all event.2)

/-- The transition taken leads back to its source. -/
def Repeats (t : Twins S E A G) (event : E × (G → Bool)) : Prop :=
  (t.taken event).any fun tr => tr.target = t.simple.currentState

/-- A transition is taken from a state that has an exit action. -/
def SkipsExit (t : Twins S E A G) (event : E × (G → Bool)) : Prop :=
  (t.taken event).isSome ∧ (t.simple.exitActions.lookup t.simple.currentState).isSome

instance (t : Twins S E A G) (event : E × (G → Bool)) : Decidable (t.Repeats event) :=
  inferInstanceAs (Decidable (_ = true))

instance (t : Twins S E A G) (event : E × (G → Bool)) : Decidable (t.SkipsExit event) :=
  inferInstanceAs (Decidable (_ ∧ _))

/-- The two machines did the same. -/
def Agree (t : Twins S E A G) : Prop := t.flatRecord = t.simpleRecord

/-- The two machines answered the same and passed through the same states. -/
def AgreeOutside (t : Twins S E A G) : Prop :=
  t.flatRecord.answers = t.simpleRecord.answers ∧ t.flatRecord.states = t.simpleRecord.states

/-- The machines have the same tables and are in the same state, and one of them has no
parents. -/
structure Matched (t : Twins S E A G) : Prop where
  parents : t.flat.parents = ∅
  currentState : t.flat.currentState = t.simple.currentState
  transitions : t.flat.transitions = t.simple.transitions
  entryActions : t.flat.entryActions = t.simple.entryActions
  exitActions : t.flat.exitActions = t.simple.exitActions

end Twins

/-! ## The flat machine -/

namespace HierarchicalStateMachine

variable [DecidableEq S] {m : HierarchicalStateMachine S E A G}

/-- Without parents every path to the root is the state itself. -/
theorem rootPath_of_flat (h : m.parents = ∅) (s : S) : RootPath m.parent s [s] :=
  .root (by simp [parent, h])

theorem reset_of_flat (h : m.parents = ∅) (initial : S) :
    m.reset initial = some ([.entry initial (m.entryActions.lookup initial)],
      { m with currentState := initial }) := by
  simp [reset, pathToRoot_eq (rootPath_of_flat h initial)]

/-- A transition leaves nothing, and enters its target unless it starts there. -/
theorem executeTransition_of_flat (h : m.parents = ∅) (src dst : S) (action : Option A) :
    m.executeTransition src dst action =
      some (action.toList.map .action ++
          (if src = dst then [] else [.entry dst (m.entryActions.lookup dst)]),
        { m with currentState := dst }) := by
  have hlca : src = ([src].find? fun s => decide (s ∈ [dst])).getD src := by
    by_cases hne : src = dst <;> simp [hne]
  rw [executeTransition_eq (rootPath_of_flat h src) (rootPath_of_flat h dst) action hlca]
  by_cases hne : src = dst
  · simp [hne]
  · simp [hne, Ne.symm hne]

variable [DecidableEq E]

/-- Only the current state is asked for a transition. -/
theorem handler_of_flat (h : m.parents = ∅) (event : E) (guards : G → Bool) :
    m.handler event guards = some (m.enabled event guards m.currentState) := by
  rw [handler_eq (rootPath_of_flat h _)]
  simp

/-- What a flat machine does with an event: the transition of the current state, without
the exit. -/
theorem processEvent_of_flat (h : m.parents = ∅) {event : E} {guards : G → Bool}
    {tr : Transition S A G}
    (hen : m.enabled event guards m.currentState = some (m.currentState, tr)) :
    m.processEvent event guards =
      some (true, tr.action.toList.map .action ++
          (if m.currentState = tr.target then []
            else [.entry tr.target (m.entryActions.lookup tr.target)]),
        { m with currentState := tr.target }) := by
  simp [processEvent, handler_of_flat h, hen, executeTransition_of_flat h]

theorem processEvent_of_flat_none (h : m.parents = ∅) {event : E} {guards : G → Bool}
    (hen : m.enabled event guards m.currentState = none) :
    m.processEvent event guards = some (false, [], m) := by
  simp [processEvent, handler_of_flat h, hen]

end HierarchicalStateMachine

/-! ## The two machines side by side -/

namespace Twins

variable [DecidableEq S]

theorem start_eq (transitions : AList fun _ : S × E => Transition S A G)
    (entryActions exitActions : AList fun _ : S => A) (unset initial : S) :
    ∃ t₀ : Twins S E A G, start transitions entryActions exitActions unset initial = some t₀ ∧
      t₀.Matched ∧ t₀.Agree := by
  rw [start, HierarchicalStateMachine.reset_of_flat rfl]
  exact ⟨_, rfl, ⟨rfl, rfl, rfl, rfl, rfl⟩, rfl⟩

variable [DecidableEq E] {t t' : Twins S E A G} {event : E × (G → Bool)}

/-- The flat machine has the transition the simple one takes. -/
theorem Matched.enabled_eq (h : t.Matched) :
    t.flat.enabled event.1 event.2 t.flat.currentState =
      (t.taken event).map fun tr => (t.flat.currentState, tr) := by
  rw [HierarchicalStateMachine.enabled, taken, h.transitions, h.currentState]
  cases t.simple.transitions.lookup (t.simple.currentState, event.1) with
  | none => rfl
  | some tr => by_cases hg : tr.guard.all event.2 <;> simp [hg]

/-- An event neither machine takes. -/
theorem Matched.step_none (h : t.Matched) (htaken : t.taken event = none) :
    t.step event = some { t with
      flatRecord := t.flatRecord.add (some false) t.simple.currentState []
      simpleRecord := t.simpleRecord.add (some false) t.simple.currentState [] } := by
  have hflat := HierarchicalStateMachine.processEvent_of_flat_none h.parents
    (h.enabled_eq.trans (by rw [htaken, Option.map_none]))
  have hsimple : t.simple.processEvent event.2 event.1 = (false, [], t.simple) := by
    unfold SimpleStateMachine.processEvent
    unfold taken at htaken
    split
    · rfl
    · next tr htr =>
        rw [if_neg]
        simpa [htr, Option.filter_eq_none_iff] using htaken
  simp [step, hflat, hsimple, h.currentState]

/-- An event both machines take: only the simple machine comes by the exit slot. -/
theorem Matched.step_some (h : t.Matched) {tr : Transition S A G}
    (htaken : t.taken event = some tr) :
    t.step event = some {
      flat := { t.flat with currentState := tr.target }
      simple := { t.simple with currentState := tr.target }
      flatRecord := t.flatRecord.add (some true) tr.target
        (tr.action.toList.map .action ++
          (if t.simple.currentState = tr.target then []
            else [.entry tr.target (t.simple.entryActions.lookup tr.target)]))
      simpleRecord := t.simpleRecord.add (some true) tr.target
        (.exit t.simple.currentState (t.simple.exitActions.lookup t.simple.currentState) ::
          (tr.action.toList.map .action ++
            [.entry tr.target (t.simple.entryActions.lookup tr.target)])) } := by
  have hflat := HierarchicalStateMachine.processEvent_of_flat h.parents
    (h.enabled_eq.trans (by rw [htaken, Option.map_some]))
  obtain ⟨htr, hg⟩ := Option.filter_eq_some_iff.mp htaken
  have hsimple : t.simple.processEvent event.2 event.1 = (true,
      .exit t.simple.currentState (t.simple.exitActions.lookup t.simple.currentState) ::
        (tr.action.toList.map .action ++
          [.entry tr.target (t.simple.entryActions.lookup tr.target)]),
      { t.simple with currentState := tr.target }) := by
    simp only [SimpleStateMachine.processEvent, htr, if_pos hg]
  simp [step, hflat, hsimple, h.entryActions, h.currentState]

/-- Every event is processed, and the machines stay in the same state. -/
theorem Matched.step_eq (h : t.Matched) (event : E × (G → Bool)) :
    ∃ t', t.step event = some t' ∧ t'.Matched := by
  cases htaken : t.taken event with
  | none =>
      rw [h.step_none htaken]
      exact ⟨_, rfl, h.parents, h.currentState, h.transitions, h.entryActions, h.exitActions⟩
  | some tr =>
      rw [h.step_some htaken]
      exact ⟨_, rfl, h.parents, rfl, h.transitions, h.entryActions, h.exitActions⟩

theorem Matched.of_step (h : t.Matched) (hstep : t.step event = some t') : t'.Matched := by
  obtain ⟨u, hu, hmatched⟩ := h.step_eq event
  obtain rfl : u = t' := by simpa [hu] using hstep
  exact hmatched

omit [DecidableEq S] [DecidableEq E] in
theorem Agree.outside (h : t.Agree) : t.AgreeOutside := by
  rw [Agree] at h
  exact ⟨congrArg Record.answers h, congrArg Record.states h⟩

theorem Matched.agreeOutside_step (h : t.Matched) (hagree : t.AgreeOutside)
    (hstep : t.step event = some t') : t'.AgreeOutside := by
  obtain ⟨hanswers, hstates⟩ := hagree
  cases htaken : t.taken event with
  | none =>
      rw [h.step_none htaken, Option.some.injEq] at hstep
      subst hstep
      simp [AgreeOutside, Record.add, hanswers, hstates]
  | some tr =>
      rw [h.step_some htaken, Option.some.injEq] at hstep
      subst hstep
      simp [AgreeOutside, Record.add, hanswers, hstates]

/-- A step that takes no transition to its own source keeps the agreement exactly when it
takes none from a state with an exit action. -/
theorem Matched.agree_step_iff (h : t.Matched) (hagree : t.Agree) (hne : ¬t.Repeats event)
    (hstep : t.step event = some t') : t'.Agree ↔ ¬t.SkipsExit event := by
  rw [Agree] at hagree
  cases htaken : t.taken event with
  | none =>
      rw [h.step_none htaken, Option.some.injEq] at hstep
      subst hstep
      simp [Agree, SkipsExit, htaken, hagree]
  | some tr =>
      have hne : t.simple.currentState ≠ tr.target :=
        fun heq => hne (by simp [Repeats, htaken, heq])
      rw [h.step_some htaken, Option.some.injEq] at hstep
      subst hstep
      rw [Agree, hagree, if_neg hne, Record.add_eq_add_exit]
      simp [SkipsExit, htaken]

end Twins

/-- The two machines answer the same and pass through the same states, and, as long as no
transition leads back to its source, they run the same actions exactly when no transition
is taken from a state with an exit action. -/
theorem agree_iff_not_skipsExit [DecidableEq S] [DecidableEq E]
    (transitions : AList fun _ : S × E => Transition S A G)
    (entryActions exitActions : AList fun _ : S => A) (unset initial : S)
    (events : List (E × (G → Bool))) :
    ∃ t₀, Twins.start transitions entryActions exitActions unset initial = some t₀ ∧
      (run Twins.step t₀ events).isSome ∧
      Throughout Twins.step Twins.AgreeOutside t₀ events ∧
      (Along Twins.step (fun t event => ¬t.Repeats event) t₀ events →
        (Throughout Twins.step Twins.Agree t₀ events ↔
          Along Twins.step (fun t event => ¬t.SkipsExit event) t₀ events)) := by
  obtain ⟨t₀, h₀, hmatched, hagree⟩ :=
    Twins.start_eq transitions entryActions exitActions unset initial
  refine ⟨t₀, h₀, ?_, ?_, ?_⟩
  · obtain ⟨t, ht, -⟩ := run_total (Q := Twins.Matched)
      (fun t event h => h.step_eq event) events hmatched
    exact Option.isSome_iff_exists.mpr ⟨t, ht⟩
  · have hstep : ∀ (t : Twins S E A G) event t', t.Matched ∧ t.AgreeOutside → Twins.step t event = some t' →
        t'.Matched ∧ t'.AgreeOutside :=
      fun t event t' h ht => ⟨h.1.of_step ht, h.1.agreeOutside_step h.2 ht⟩
    exact (throughout_of_step hstep ⟨hmatched, hagree.outside⟩ events).imp fun _ h => h.2
  · exact throughout_iff_along_within (I := Twins.Matched)
      (fun t event t' h _ ht => h.of_step ht)
      (fun t event t' h hagree hne ht => h.agree_step_iff hagree hne ht) hmatched hagree

/-- A lamp that says when it is switched on. -/
def lampTransitions : AList fun _ : Bool × Unit => Transition Bool String Empty :=
  (∅ : AList _).insert (false, ()) ⟨true, none, none⟩ |>.insert (true, ()) ⟨false, none, none⟩

def lampEntryActions : AList fun _ : Bool => String := (∅ : AList _).insert true "on"

/-- Without exit actions the lamp is switched on and off alike by both machines. -/
theorem agree_switching :
    ∃ t₀, Twins.start lampTransitions lampEntryActions ∅ false false = some t₀ ∧
      Along Twins.step (fun t event => ¬t.Repeats event) t₀
        [((), fun _ => true), ((), fun _ => true)] ∧
      Throughout Twins.step Twins.Agree t₀ [((), fun _ => true), ((), fun _ => true)] := by
  obtain ⟨t₀, h₀, -, -, hiff⟩ := agree_iff_not_skipsExit lampTransitions lampEntryActions ∅
    false false [((), fun _ => true), ((), fun _ => true)]
  have hlamp : ∀ t₀ ∈ Twins.start lampTransitions lampEntryActions ∅ false false,
      Along Twins.step (fun t event => ¬t.Repeats event) t₀
        [((), fun _ => true), ((), fun _ => true)] ∧
      Along Twins.step (fun t event => ¬t.SkipsExit event) t₀
        [((), fun _ => true), ((), fun _ => true)] := by
    decide +kernel
  obtain ⟨hne, hskips⟩ := hlamp t₀ h₀
  exact ⟨t₀, h₀, hne, (hiff hne).mpr hskips⟩

/-- An exit action of the lamp is run by the simple machine only. -/
theorem not_agree_with_exit :
    ¬ ∃ t₀, Twins.start lampTransitions lampEntryActions
        ((∅ : AList _).insert true "off") false true = some t₀ ∧
      (Along Twins.step (fun t event => ¬t.Repeats event) t₀ [((), fun _ => true)] →
        Throughout Twins.step Twins.Agree t₀ [((), fun _ => true)]) := by
  rintro ⟨t₀, h₀, h⟩
  have hlamp : ∀ t₀ ∈ Twins.start lampTransitions lampEntryActions
      ((∅ : AList _).insert true "off") false true,
      Along Twins.step (fun t event => ¬t.Repeats event) t₀ [((), fun _ => true)] ∧
      ∃ t ∈ Twins.step t₀ ((), fun _ => true),
        t.flatRecord.actions = [.entry true (some "on")] ∧
          t.simpleRecord.actions = [.entry true (some "on"), .exit true (some "off")] := by
    decide +kernel
  obtain ⟨hne, t, ht, hflat, hsimple⟩ := hlamp t₀ h₀
  have hagree : t.flatRecord = t.simpleRecord := ((h hne).2 t ht).head
  rw [hagree, hsimple] at hflat
  exact absurd hflat (by decide)

end Opencode.Fsm
