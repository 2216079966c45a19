import Opencode.Fsm.ActiveConfiguration
import Opencode.Fsm.ObjectOriented
import Opencode.Fsm.Simple

/-!
# The device in three designs

The examples build the same device three times: as a flat table, as a hierarchy, and
with an object for each state.  The objects do what the table does, whatever is called;
the hierarchy handles more, and differs from the table exactly where a state inherits a
transition the table does not have.

## Main definitions

* `simpleDevice` — the flat table.
* `DeviceClass`, `deviceClasses` — the classes of the states and their virtual functions.
* `oo_device_agrees` — the objects and the table.
* `Inherits`, `hierarchical_device_agrees_iff` — the hierarchy and the table.
-/

namespace Opencode.Fsm

open Opencode.Lib

/-! ## The flat table -/

def simpleDevice : SimpleStateMachine DeviceState DeviceEvent String Empty :=
  (⟨.off, ∅, ∅, ∅⟩ : SimpleStateMachine DeviceState DeviceEvent String Empty)
    |>.addTransition .off .powerOn .starting none none
    |>.addTransition .starting .startComplete .active none none
    |>.addTransition .active .enterStandby .standby none none
    |>.addTransition .standby .exitStandby .active none none
    |>.addTransition .active .errorOccurred .error none none
    |>.addTransition .standby .errorOccurred .error none none
    |>.addTransition .error .errorCleared .active none none
    |>.addTransition .active .powerOff .shuttingDown none none
    |>.addTransition .standby .powerOff .shuttingDown none none
    |>.addTransition .error .powerOff .shuttingDown none none
    |>.addTransition .shuttingDown .powerOff .off none none
    |>.addTransition .active .suspend .suspended none none
    |>.addTransition .suspended .resume .active none none
    |>.onEntry .off "  [Entry] Device is now Off\n"
    |>.onEntry .starting "  [Entry] Device is starting up...\n"
    |>.onEntry .active "  [Entry] Device is now Active\n"
    |>.onEntry .standby "  [Entry] Device entered Standby mode\n"
    |>.onEntry .suspended "  [Entry] Device is Suspended\n"
    |>.onEntry .error "  [Entry] DEVICE ERROR!\n"
    |>.onEntry .shuttingDown "  [Entry] Device is shutting down...\n"

/-- Where the table goes. -/
def DeviceState.next : DeviceState → DeviceEvent → Option DeviceState
  | .off, .powerOn => some .starting
  | .starting, .startComplete => some .active
  | .active, .enterStandby => some .standby
  | .active, .errorOccurred => some .error
  | .active, .powerOff => some .shuttingDown
  | .active, .suspend => some .suspended
  | .standby, .exitStandby => some .active
  | .standby, .errorOccurred => some .error
  | .standby, .powerOff => some .shuttingDown
  | .error, .errorCleared => some .active
  | .error, .powerOff => some .shuttingDown
  | .shuttingDown, .powerOff => some .off
  | .suspended, .resume => some .active
  | _, _ => none

theorem simpleDevice_lookup (s : DeviceState) (event : DeviceEvent) :
    simpleDevice.transitions.lookup (s, event) =
      (s.next event).map fun t => ⟨t, none, none⟩ := by
  cases s <;> cases event <;> rfl

/-- The table has no guards. -/
def unguarded : Empty → Bool := fun _ => true

/-! ## An object for each state -/

inductive DeviceClass
  | OffState | StartingState | ActiveState | StandbyState | SuspendedState | ErrorState
  | ShuttingDownState
  deriving DecidableEq

/-- Signed overflow of the counter is undefined in the source and none here. -/
structure DeviceContext where
  powerLevel : ℤ
  errorCount : ℤ
  deriving DecidableEq

namespace DeviceClass

/-- The state the class stands for, by its `name()`. -/
def state : DeviceClass → DeviceState
  | OffState => .off
  | StartingState => .starting
  | ActiveState => .active
  | StandbyState => .standby
  | SuspendedState => .suspended
  | ErrorState => .error
  | ShuttingDownState => .shuttingDown

def onEntry (ctx : DeviceContext) : DeviceClass → DeviceContext
  | OffState => { ctx with powerLevel := 0 }
  | StartingState => { ctx with powerLevel := 0 }
  | ActiveState => { ctx with powerLevel := 100 }
  | StandbyState => { ctx with powerLevel := 20 }
  | SuspendedState => { ctx with powerLevel := 5 }
  | ErrorState => { ctx with powerLevel := 0 }
  | ShuttingDownState => ctx

def handleEvent (ctx : DeviceContext) : DeviceClass → DeviceEvent → Option DeviceClass × DeviceContext
  | OffState, .powerOn => (some StartingState, ctx)
  | StartingState, .startComplete => (some ActiveState, ctx)
  | ActiveState, .enterStandby => (some StandbyState, ctx)
  | ActiveState, .suspend => (some SuspendedState, ctx)
  | ActiveState, .errorOccurred => (some ErrorState, { ctx with errorCount := ctx.errorCount + 1 })
  | ActiveState, .powerOff => (some ShuttingDownState, ctx)
  | StandbyState, .exitStandby => (some ActiveState, ctx)
  | StandbyState, .errorOccurred => (some ErrorState, { ctx with errorCount := ctx.errorCount + 1 })
  | StandbyState, .powerOff => (some ShuttingDownState, ctx)
  | SuspendedState, .resume => (some ActiveState, ctx)
  | ErrorState, .errorCleared => (some ActiveState, ctx)
  | ErrorState, .powerOff => (some ShuttingDownState, ctx)
  | ShuttingDownState, .powerOff => (some OffState, { ctx with powerLevel := 0 })
  | _, _ => (none, ctx)

end DeviceClass

/-- The only `on_exit` prints. -/
def deviceClasses : Classes DeviceClass DeviceEvent DeviceContext where
  onEntry c ctx := c.onEntry ctx
  onExit _ ctx := ctx
  handleEvent c event ctx := c.handleEvent ctx event

/-- The machine of the example before its first event. -/
def ooDevice : StateMachine DeviceClass DeviceContext :=
  after (StateMachine.perform deviceClasses) (StateMachine.empty ⟨0, 0⟩)
    [.registerState .OffState, .registerState .StartingState, .registerState .ActiveState,
     .registerState .StandbyState, .registerState .SuspendedState, .registerState .ErrorState,
     .registerState .ShuttingDownState, .start .OffState]

/-! ## What the table does meanwhile -/

/-- The machine of the table, with what it came by and the events it took. -/
structure FlatRun where
  machine : SimpleStateMachine DeviceState DeviceEvent String Empty
  visits : List (Visit DeviceState String)
  taken : List DeviceEvent

namespace FlatRun

def start : FlatRun :=
  let (visits, m) := simpleDevice.reset .off
  ⟨m, visits, []⟩

/-- Nothing is registered in a table, and to start in a state is to reset to it. -/
def perform (f : FlatRun) : Call DeviceClass DeviceEvent → Bool × FlatRun
  | .registerState _ => (true, f)
  | .start c =>
      let (visits, m) := f.machine.reset c.state
      (true, { f with machine := m, visits := f.visits ++ visits })
  | .processEvent event =>
      let (ok, visits, m) := f.machine.processEvent unguarded event
      (ok,
        { machine := m
          visits := f.visits ++ visits
          taken := if ok then f.taken ++ [event] else f.taken })

end FlatRun

/-- The power of a state; shutting down leaves it as it is. -/
def DeviceState.level : DeviceState → Option ℤ
  | .off | .starting | .error => some 0
  | .active => some 100
  | .standby => some 20
  | .suspended => some 5
  | _ => none

/-- The power after the visits: that of the last state entered that has one. -/
def levelAfter (visits : List (Visit DeviceState String)) : ℤ :=
  visits.foldl
    (fun level visit =>
      match visit with
      | .entry s _ => s.level.getD level
      | _ => level) 0

theorem levelAfter_reset (visits : List (Visit DeviceState String)) (s : DeviceState)
    (callback : Option String) :
    levelAfter (visits ++ [.entry s callback]) = s.level.getD (levelAfter visits) := by
  simp [levelAfter]

theorem levelAfter_transition (visits : List (Visit DeviceState String)) (s t : DeviceState)
    (c c' : Option String) :
    levelAfter (visits ++ [.exit s c, .entry t c']) = t.level.getD (levelAfter visits) := by
  simp [levelAfter]

/-! ## The objects and the table agree -/

theorem deviceClasses_moving : deviceClasses.Moving := by
  intro c event ctx
  cases c <;> cases event <;> simp [deviceClasses, DeviceClass.handleEvent]

/-- A class asks for the class of the state the table goes to. -/
theorem handleEvent_next (c : DeviceClass) (event : DeviceEvent) (ctx : DeviceContext) :
    (c.handleEvent ctx event).1.map DeviceClass.state = c.state.next event := by
  cases c <;> cases event <;> rfl

/-- An error is counted where it is handled. -/
theorem handleEvent_errorCount (c : DeviceClass) (event : DeviceEvent) (ctx : DeviceContext) :
    (c.handleEvent ctx event).2.errorCount =
      ctx.errorCount +
        if (c.state.next event).isSome ∧ event = .errorOccurred then 1 else 0 := by
  cases c <;> cases event <;> simp [DeviceClass.handleEvent, DeviceClass.state, DeviceState.next]

/-- Handling an event and entering the state it leads to sets the power of that state. -/
theorem handleEvent_powerLevel (c c' : DeviceClass) (event : DeviceEvent) (ctx : DeviceContext)
    (h : (c.handleEvent ctx event).1 = some c') :
    (c'.onEntry (c.handleEvent ctx event).2).powerLevel =
      c'.state.level.getD ctx.powerLevel := by
  cases c <;> cases event <;> cases h <;> rfl

theorem onEntry_powerLevel (c : DeviceClass) (ctx : DeviceContext) :
    (c.onEntry ctx).powerLevel = c.state.level.getD ctx.powerLevel := by
  cases c <;> rfl

theorem onEntry_errorCount (c : DeviceClass) (ctx : DeviceContext) :
    (c.onEntry ctx).errorCount = ctx.errorCount := by
  cases c <;> rfl

/-- The context when nothing is handled. -/
theorem handleEvent_none (c : DeviceClass) (event : DeviceEvent) (ctx : DeviceContext)
    (h : (c.handleEvent ctx event).1 = none) : (c.handleEvent ctx event).2 = ctx := by
  cases c <;> cases event <;> first | rfl | cases h

theorem processEvent_of_ignored {m : ClassMachine DeviceClass DeviceContext} {c : DeviceClass}
    {event : DeviceEvent} (hc : m.current = some c)
    (h : (c.handleEvent m.context event).1 = none) :
    m.processEvent deviceClasses event = (false, m) := by
  simp only [ClassMachine.processEvent, hc, deviceClasses, h, Option.filter_none,
    handleEvent_none c event m.context h]
  rw [← hc]

theorem processEvent_of_handled {m : ClassMachine DeviceClass DeviceContext} {c c' : DeviceClass}
    {event : DeviceEvent} (hc : m.current = some c)
    (h : (c.handleEvent m.context event).1 = some c') (hreg : m.registered c' = true) :
    m.processEvent deviceClasses event =
      (true, { m with
        current := some c'
        context := c'.onEntry (c.handleEvent m.context event).2 }) := by
  simp only [ClassMachine.processEvent, hc, deviceClasses, h, Option.filter, hreg, if_true]

theorem FlatRun.perform_of_lookup_none {f : FlatRun} {event : DeviceEvent}
    (h : f.machine.transitions.lookup (f.machine.currentState, event) = none) :
    f.perform (.processEvent event) = (false, f) := by
  simp [perform, SimpleStateMachine.processEvent, h]

theorem FlatRun.perform_of_lookup {f : FlatRun} {event : DeviceEvent} {t : DeviceState}
    (h : f.machine.transitions.lookup (f.machine.currentState, event) = some ⟨t, none, none⟩) :
    f.perform (.processEvent event) =
      (true,
        { machine := { f.machine with currentState := t }
          visits := f.visits ++
            [.exit f.machine.currentState (f.machine.exitActions.lookup f.machine.currentState),
             .entry t (f.machine.entryActions.lookup t)]
          taken := f.taken ++ [event] }) := by
  simp [perform, SimpleStateMachine.processEvent, h]

/-- The machine of the classes against the table. -/
structure Matches (m : ClassMachine DeviceClass DeviceContext) (f : FlatRun) : Prop where
  registered : ∀ c, m.registered c = true
  current : m.current.map DeviceClass.state = some f.machine.currentState
  table : f.machine.transitions = simpleDevice.transitions
  power : m.context.powerLevel = levelAfter f.visits
  errors : m.context.errorCount = f.taken.count .errorOccurred

theorem Matches.init : Matches ooDevice.byClass FlatRun.start where
  registered c := by cases c <;> rfl
  current := rfl
  table := rfl
  power := rfl
  errors := rfl

theorem Matches.start {m : ClassMachine DeviceClass DeviceContext} {f : FlatRun}
    (h : Matches m f) (c : DeviceClass) :
    (m.start deviceClasses c).1 = (f.perform (.start c)).1 ∧
      Matches (m.start deviceClasses c).2 (f.perform (.start c)).2 := by
  rw [ClassMachine.start, if_pos (h.registered c)]
  refine ⟨rfl, h.registered, rfl, h.table, ?_, ?_⟩
  · exact (onEntry_powerLevel c m.context).trans
      (by rw [h.power]; exact (levelAfter_reset f.visits c.state _).symm)
  · exact (onEntry_errorCount c m.context).trans h.errors

theorem Matches.processEvent {m : ClassMachine DeviceClass DeviceContext} {f : FlatRun}
    (h : Matches m f) (event : DeviceEvent) :
    (m.processEvent deviceClasses event).1 = (f.perform (.processEvent event)).1 ∧
      Matches (m.processEvent deviceClasses event).2 (f.perform (.processEvent event)).2 := by
  obtain ⟨c, hc, hstate⟩ := Option.map_eq_some_iff.mp h.current
  have hnext := handleEvent_next c event m.context
  have hlookup : f.machine.transitions.lookup (f.machine.currentState, event) =
      (c.state.next event).map fun t => ⟨t, none, none⟩ := by
    rw [h.table, hstate]
    exact simpleDevice_lookup _ event
  cases hw : (c.handleEvent m.context event).1 with
  | none =>
      rw [hw, Option.map_none] at hnext
      rw [← hnext, Option.map_none] at hlookup
      rw [processEvent_of_ignored hc hw, FlatRun.perform_of_lookup_none hlookup]
      exact ⟨rfl, h⟩
  | some c' =>
      rw [hw, Option.map_some] at hnext
      rw [← hnext, Option.map_some] at hlookup
      rw [processEvent_of_handled hc hw (h.registered c'), FlatRun.perform_of_lookup hlookup]
      refine ⟨rfl, h.registered, rfl, h.table, ?_, ?_⟩
      · exact (handleEvent_powerLevel c c' event m.context hw).trans
          (by rw [h.power]; exact (levelAfter_transition f.visits _ _ _ _).symm)
      · have herrors := handleEvent_errorCount c event m.context
        rw [← hnext] at herrors
        rw [onEntry_errorCount, herrors, h.errors, List.count_append]
        by_cases he : event = .errorOccurred <;> simp [he]

/-- **The objects do what the table does.**  Whatever is called, registrations that
replace an object included, the answers are those of the flat machine and the states
have the same names.  The power is that of the last state entered, where shutting down
counts as none, and the errors counted are those the table took. -/
theorem oo_device_agrees (calls : List (Call DeviceClass DeviceEvent)) :
    let m := after (StateMachine.perform deviceClasses) ooDevice calls
    let f := after FlatRun.perform FlatRun.start calls
    answers (StateMachine.perform deviceClasses) ooDevice calls =
        answers FlatRun.perform FlatRun.start calls ∧
      m.currentType.map DeviceClass.state = some f.machine.currentState ∧
      m.context.powerLevel = levelAfter f.visits ∧
      m.context.errorCount = f.taken.count .errorOccurred := by
  intro m f
  have htyped : ooDevice.Typed :=
    after_invariant (fun m call h => m.perform_typed h call) (StateMachine.typed_empty _) _
  obtain ⟨hans, hclass⟩ := StateMachine.answers_byClass deviceClasses_moving htyped calls
  obtain ⟨hans', hmatches⟩ := answers_eq_of_related
    (ClassMachine.perform deviceClasses) FlatRun.perform (R := Matches)
    (by
      intro m f call h
      cases call with
      | registerState c =>
          refine ⟨rfl, ?_, h.current, h.table, h.power, h.errors⟩
          intro c'
          by_cases hne : c' = c
          · simp [ClassMachine.perform, hne]
          · simp [ClassMachine.perform, hne, h.registered c']
      | start c => exact h.start c
      | processEvent event => exact h.processEvent event)
    Matches.init calls
  rw [← hclass] at hmatches
  exact ⟨hans.trans hans', hmatches.current, hmatches.power, hmatches.errors⟩

/-! ## The hierarchy and the table -/

/-- What the example prints of an event: the result and the state, if the call returns. -/
def hierarchicalStep (m : HierarchicalStateMachine DeviceState DeviceEvent String Empty)
    (event : DeviceEvent) :
    Option (Bool × DeviceState) × HierarchicalStateMachine DeviceState DeviceEvent String Empty :=
  match m.processEvent event unguarded with
  | none => (none, m)
  | some (ok, _, m') => (some (ok, m'.currentState), m')

def simpleStep (m : SimpleStateMachine DeviceState DeviceEvent String Empty)
    (event : DeviceEvent) :
    Option (Bool × DeviceState) × SimpleStateMachine DeviceState DeviceEvent String Empty :=
  let (ok, _, m') := m.processEvent unguarded event
  (some (ok, m'.currentState), m')

/-- The table has nothing for the event in this state, and in the hierarchy a state on its
path to the root has. -/
def Inherits (s : DeviceState) (event : DeviceEvent) : Prop :=
  simpleDevice.transitions.lookup (s, event) = none ∧
    ∃ p ∈ (device.pathToRoot s).getD [], (device.transitions.lookup (p, event)).isSome

instance (s : DeviceState) (event : DeviceEvent) : Decidable (Inherits s event) :=
  inferInstanceAs (Decidable (_ ∧ _))

/-- The hierarchical device in a state. -/
def deviceIn (s : DeviceState) : HierarchicalStateMachine DeviceState DeviceEvent String Empty :=
  { device with currentState := s }

theorem acyclic_deviceIn (s : DeviceState) : Acyclic (deviceIn s).parent := acyclic_device

/-- What is not inherited leads where the table does. -/
theorem handler_of_not_inherits (s : DeviceState) (event : DeviceEvent)
    (h : ¬ Inherits s event) :
    ((deviceIn s).handler event unguarded).map
        (Option.map fun handled : _ × Transition _ _ _ => handled.2.target) =
      some (s.next event) := by
  revert h
  cases s <;> cases event <;> decide +kernel

theorem handler_of_inherits (s : DeviceState) (event : DeviceEvent) (h : Inherits s event) :
    ∃ handled, (deviceIn s).handler event unguarded = some (some handled) := by
  have hsome : ((deviceIn s).handler event unguarded).any Option.isSome = true := by
    revert h
    cases s <;> cases event <;> decide +kernel
  obtain ⟨o, ho, hs⟩ := (Option.any_eq_true _ _).mp hsome
  obtain ⟨handled, rfl⟩ := Option.isSome_iff_exists.mp hs
  exact ⟨handled, ho⟩

theorem hierarchicalStep_of_handled {s : DeviceState} {event : DeviceEvent}
    {handled : DeviceState × Transition DeviceState String Empty}
    (h : (deviceIn s).handler event unguarded = some (some handled)) :
    hierarchicalStep (deviceIn s) event =
      (some (true, handled.2.target), deviceIn handled.2.target) := by
  obtain ⟨visits, hvisits⟩ := HierarchicalStateMachine.exists_visits (acyclic_deviceIn s)
    handled.1 handled.2.target handled.2.action
  simp only [hierarchicalStep, HierarchicalStateMachine.processEvent, h, hvisits,
    Option.bind_eq_bind, Option.bind_some]
  rfl

theorem hierarchicalStep_of_ignored {s : DeviceState} {event : DeviceEvent}
    (h : (deviceIn s).handler event unguarded = some none) :
    hierarchicalStep (deviceIn s) event = (some (false, s), deviceIn s) := by
  simp only [hierarchicalStep, HierarchicalStateMachine.processEvent, h,
    Option.bind_eq_bind, Option.bind_some]
  rfl

/-- Every call returns, and only the state changes. -/
theorem hierarchicalStep_returns (s : DeviceState) (event : DeviceEvent) :
    ∃ answer t, hierarchicalStep (deviceIn s) event = (some answer, deviceIn t) := by
  by_cases hD : Inherits s event
  · obtain ⟨handled, hhandled⟩ := handler_of_inherits s event hD
    exact ⟨_, _, hierarchicalStep_of_handled hhandled⟩
  · obtain ⟨found, hfound, -⟩ := Option.map_eq_some_iff.mp (handler_of_not_inherits s event hD)
    cases found with
    | none => exact ⟨_, _, hierarchicalStep_of_ignored hfound⟩
    | some handled => exact ⟨_, _, hierarchicalStep_of_handled hfound⟩

theorem simpleStep_eq (s : DeviceState) (event : DeviceEvent) :
    simpleStep { simpleDevice with currentState := s } event =
      (some ((s.next event).isSome, (s.next event).getD s),
        { simpleDevice with currentState := (s.next event).getD s }) := by
  cases h : s.next event <;>
    simp [simpleStep, SimpleStateMachine.processEvent, simpleDevice_lookup, h]

/-- **The hierarchy is the table until a transition is inherited.**  All calls of the
hierarchical machine return, and the two machines give the same results and states for a
sequence of events exactly when no event meets a state that has no transition for it in
the table while, in the hierarchy, a state on its path to the root has one. -/
theorem hierarchical_device_agrees_iff (events : List DeviceEvent) :
    none ∉ answers hierarchicalStep (deviceIn .off) events ∧
      (answers hierarchicalStep (deviceIn .off) events =
          answers simpleStep { simpleDevice with currentState := .off } events ↔
        Along (fun m event => some (hierarchicalStep m event).2)
          (fun m event => ¬ Inherits m.currentState event) (deviceIn .off) events) := by
  constructor
  · have hsome : ∀ s, ∀ a ∈ answers hierarchicalStep (deviceIn s) events, a ≠ none := by
      induction events with
      | nil => simp
      | cons event events ih =>
          intro s
          obtain ⟨answer, t, hstep⟩ := hierarchicalStep_returns s event
          simp only [answers_cons, hstep, List.mem_cons, forall_eq_or_imp]
          exact ⟨Option.some_ne_none _, ih t⟩
    exact fun hmem => hsome .off none hmem rfl
  refine answers_eq_iff_along
    (R := fun m f => ∃ s, m = deviceIn s ∧ f = { simpleDevice with currentState := s })
    ?_ ?_ ⟨.off, rfl, rfl⟩ events
  · rintro - - event ⟨s, rfl, rfl⟩ hD
    have hnext := handler_of_not_inherits s event hD
    obtain ⟨found, hfound, hmap⟩ := Option.map_eq_some_iff.mp hnext
    rw [simpleStep_eq]
    cases found with
    | none =>
        rw [Option.map_none] at hmap
        rw [hierarchicalStep_of_ignored hfound, ← hmap]
        exact ⟨rfl, s, rfl, rfl⟩
    | some handled =>
        rw [Option.map_some] at hmap
        rw [hierarchicalStep_of_handled hfound, ← hmap]
        exact ⟨rfl, handled.2.target, rfl, rfl⟩
  · rintro - - event ⟨s, rfl, rfl⟩ hD
    obtain ⟨handled, hhandled⟩ := handler_of_inherits s event hD
    have hnone : s.next event = none := by
      have hlookup := hD.1
      rwa [simpleDevice_lookup, Option.map_eq_none_iff] at hlookup
    rw [hierarchicalStep_of_handled hhandled, simpleStep_eq, hnone]
    simp

end Opencode.Fsm
