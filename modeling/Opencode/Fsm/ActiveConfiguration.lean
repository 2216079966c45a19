import Opencode.Lib.Run
import Opencode.Lib.History
import Opencode.Fsm.Hierarchical

/-!
# The active configuration

A state is entered when the machine came by its entry slot more recently than by its
exit slot.  The purpose of the exit and entry paths is that the entered states are the
current state and its ancestors, and that no slot is run out of turn.

`executeTransition` starts its exit path at the state that handled the event.  When
that is an ancestor of the current state, the states below it are never left; and when
the target lies in another tree, nothing is left at all.  Apart from these two cases
the configuration is kept, and this module proves that it is kept in no other case.

## Main definitions

* `Entered`, `Proper` — the reading of a log of visits.
* `Activity`, `Activity.step` — the machine with the log of a run.
* `Activity.Configured` — the entered states are the root path, and the log is proper.
* `Activity.HandledAtHome` — the condition on a step.
-/

namespace Opencode.Fsm

open Opencode.Lib

universe u
variable {S E A G : Type u} [DecidableEq S]

/-! ## Reading a log -/

/-- What a visit says about a state: entered, left, or nothing. -/
def Visit.about (s : S) : Visit S A → Option Bool
  | .exit x _ => if x = s then some false else none
  | .action _ => none
  | .entry x _ => if x = s then some true else none

/-- The last visit about the state is an entry. -/
def Entered (log : List (Visit S A)) (s : S) : Prop :=
  log.reverse.findSome? (Visit.about s) = some true

/-- A state is entered only when it is not, and left only when it is. -/
def InTurn (log : List (Visit S A)) : Visit S A → Prop
  | .exit s _ => Entered log s
  | .action _ => True
  | .entry s _ => ¬ Entered log s

/-- Every visit of the log is in turn. -/
def Proper (log : List (Visit S A)) : Prop :=
  ∀ before v, before ++ [v] <+: log → InTurn before v

instance (log : List (Visit S A)) (s : S) : Decidable (Entered log s) :=
  inferInstanceAs (Decidable (_ = _))

@[simp] theorem not_entered_nil (s : S) : ¬ Entered ([] : List (Visit S A)) s := by
  simp [Entered]

theorem entered_concat (log : List (Visit S A)) (v : Visit S A) (s : S) :
    Entered (log ++ [v]) s ↔ v.about s = some true ∨ v.about s = none ∧ Entered log s := by
  cases h : v.about s <;> simp [Entered, h]

theorem proper_iff_justified {log : List (Visit S A)} : Proper log ↔ Justified InTurn log := by
  constructor
  · rintro h before v after rfl
    exact h before v ⟨after, by simp⟩
  · rintro h before v ⟨after, rfl⟩
    exact h before v after (by simp)

theorem proper_nil : Proper ([] : List (Visit S A)) :=
  proper_iff_justified.mpr (justified_nil InTurn)

theorem proper_concat (log : List (Visit S A)) (v : Visit S A) :
    Proper (log ++ [v]) ↔ Proper log ∧ InTurn log v := by
  rw [proper_iff_justified, proper_iff_justified, justified_concat]

variable (log : List (Visit S A)) (callback : S → Option A) (s : S) (xs : List S)

/-- A sequence of visits of one kind, each about its own state, decides for these states
alone. -/
theorem entered_append_map {f : S → Visit S A} {b : Bool}
    (hf : ∀ x, (f x).about s = if x = s then some b else none) :
    Entered (log ++ xs.map f) s ↔ if s ∈ xs then b = true else Entered log s := by
  induction xs generalizing log with
  | nil => simp
  | cons x xs ih =>
      rw [List.map_cons, List.append_cons, ih, entered_concat, hf]
      by_cases hx : x = s
      · simp [hx]
      · simp [hx, Ne.symm hx]

/-- Leaving states. -/
theorem entered_append_exits :
    Entered (log ++ xs.map fun x => Visit.exit x (callback x)) s ↔ Entered log s ∧ s ∉ xs := by
  rw [entered_append_map log s xs fun x => rfl]
  by_cases hs : s ∈ xs <;> simp [hs]

/-- A sequence of visits of one kind, each of which is in turn while its state has the
property `P` and takes the property from that state alone. -/
theorem proper_append_map {f : S → Visit S A} {P : List (Visit S A) → S → Prop}
    (hturn : ∀ log x, InTurn log (f x) ↔ P log x)
    (hnext : ∀ log x y, P (log ++ [f x]) y ↔ P log y ∧ y ≠ x) :
    Proper (log ++ xs.map f) ↔ Proper log ∧ xs.Nodup ∧ ∀ x ∈ xs, P log x := by
  induction xs generalizing log with
  | nil => simp
  | cons x xs ih =>
      rw [List.map_cons, List.append_cons, ih, proper_concat]
      simp only [hturn, hnext, List.nodup_cons, List.forall_mem_cons]
      constructor
      · rintro ⟨⟨hp, hx⟩, hn, hall⟩
        exact ⟨hp, ⟨fun hmem => (hall x hmem).2 rfl, hn⟩, hx, fun y hy => (hall y hy).1⟩
      · rintro ⟨hp, ⟨hmem, hn⟩, hx, hall⟩
        exact ⟨⟨hp, hx⟩, hn, fun y hy => ⟨hall y hy, fun heq => hmem (heq ▸ hy)⟩⟩

theorem proper_append_exits :
    Proper (log ++ xs.map fun x => Visit.exit x (callback x)) ↔
      Proper log ∧ xs.Nodup ∧ ∀ x ∈ xs, Entered log x := by
  refine proper_append_map log xs (fun _ _ => Iff.rfl) fun log x y => ?_
  simpa using entered_append_exits log callback y [x]

/-- Entering states. -/
theorem entered_append_entries :
    Entered (log ++ xs.map fun x => Visit.entry x (callback x)) s ↔ Entered log s ∨ s ∈ xs := by
  rw [entered_append_map log s xs fun x => rfl]
  by_cases hs : s ∈ xs <;> simp [hs]

theorem proper_append_entries :
    Proper (log ++ xs.map fun x => Visit.entry x (callback x)) ↔
      Proper log ∧ xs.Nodup ∧ ∀ x ∈ xs, ¬ Entered log x := by
  refine proper_append_map (P := fun log x => ¬ Entered log x) log xs (fun _ _ => Iff.rfl)
    fun log x y => ?_
  simpa using (entered_append_entries log callback y [x]).not

/-- Transition actions do not count. -/
theorem entered_append_actions (as : List A) :
    Entered (log ++ as.map .action) s ↔ Entered log s := by
  induction as generalizing log with
  | nil => simp
  | cons a as ih =>
      rw [List.map_cons, List.append_cons, ih, entered_concat]
      simp [Visit.about]

theorem proper_append_actions (as : List A) : Proper (log ++ as.map .action) ↔ Proper log := by
  induction as generalizing log with
  | nil => simp
  | cons a as ih =>
      rw [List.map_cons, List.append_cons, ih, proper_concat]
      simp [InTurn]

/-! ## The paths of one transition -/

/-- With the states of `path` entered, leaving the states of `xs` and entering those of
`ys` is in turn and ends with the states of `path'`. -/
def Exchanges (path xs ys path' : List S) : Prop :=
  (∀ y ∈ ys, ¬ (y ∈ path ∧ y ∉ xs)) ∧ ∀ s, (s ∈ path ∧ s ∉ xs) ∨ s ∈ ys ↔ s ∈ path'

section Paths

variable {parent : S → Option S} {current src dst lca : S} {below ls lt : List S}

/-- From the current state itself and within one tree, the paths fit. -/
theorem exchanges_of_meet (hs : RootPath parent src ls) (ht : RootPath parent dst lt)
    (hx : (ls.find? fun s => decide (s ∈ lt)) = some lca) :
    Exchanges ls (ls.takeWhile fun s => decide (s ≠ lca))
      (lt.takeWhile fun s => decide (s ≠ lca)) lt := by
  obtain ⟨above, hls, hlt⟩ := hs.split_at_meet ht hx
  have hns := hs.nodup
  have hnt := ht.nodup
  generalize (ls.takeWhile fun s => decide (s ≠ lca)) = xs at hls
  generalize (lt.takeWhile fun s => decide (s ≠ lca)) = ys at hlt
  subst hls hlt
  have hys := List.disjoint_of_nodup_append hnt
  have hxs := List.disjoint_of_nodup_append hns
  constructor
  · rintro y hy ⟨hmem, hnot⟩
    exact hys hy ((List.mem_append.mp hmem).resolve_left hnot)
  · intro s
    constructor
    · rintro (⟨hmem, hnot⟩ | hmem)
      · exact List.mem_append_right _ ((List.mem_append.mp hmem).resolve_left hnot)
      · exact List.mem_append_left _ hmem
    · intro hmem
      rcases List.mem_append.mp hmem with hmem | hmem
      · exact .inr hmem
      · exact .inl ⟨List.mem_append_right _ hmem, fun hbad => hxs hbad hmem⟩

/-- **The paths of a transition fit exactly** when it is taken from the current state
and its target is in the same tree. -/
theorem exchanges_iff (hc : RootPath parent current (below ++ ls))
    (hs : RootPath parent src ls) (ht : RootPath parent dst lt)
    (hlca : lca = (ls.find? fun s => decide (s ∈ lt)).getD src) :
    Exchanges (below ++ ls) (ls.takeWhile fun s => decide (s ≠ lca))
        (lt.takeWhile fun s => decide (s ≠ lca)) lt ↔
      src = current ∧ ∃ x ∈ ls, x ∈ lt := by
  constructor
  · rintro ⟨hin, hend⟩
    -- If the paths do not meet, the current state is never left.
    have hmeet : ∃ x ∈ ls, x ∈ lt := by
      by_contra hno
      have hnone : (ls.find? fun s => decide (s ∈ lt)) = none := by
        simpa using hno
      obtain ⟨tl, rfl⟩ := hs.eq_cons
      obtain rfl : lca = src := by simpa [hnone] using hlca
      have hcur : current ∈ lt := (hend current).mp (.inl ⟨hc.mem_self, by simp⟩)
      obtain ⟨pre, above, rfl, habove⟩ := ht.of_mem hcur
      obtain rfl := habove.unique hc
      exact hno ⟨lca, by simp, by simp⟩
    refine ⟨?_, hmeet⟩
    -- If the handler is a proper ancestor, the current state is entered twice or stays.
    by_contra hne
    have hcur : current ∉ ls := fun hmem => hne (hc.eq_of_mem hs hmem).symm
    have hstays : current ∉ ls.takeWhile fun s => decide (s ≠ lca) :=
      fun hmem => hcur ((List.takeWhile_sublist _).subset hmem)
    have hlt : current ∈ lt := (hend current).mp (.inl ⟨hc.mem_self, hstays⟩)
    obtain ⟨x, hx⟩ : ∃ x, (ls.find? fun s => decide (s ∈ lt)) = some x := by
      obtain ⟨x, hxs, hxt⟩ := hmeet
      exact Option.isSome_iff_exists.mp (List.find?_isSome.mpr ⟨x, hxs, by simpa using hxt⟩)
    obtain rfl : lca = x := by simpa [hx] using hlca
    obtain ⟨above, hls, hltsplit⟩ := hs.split_at_meet ht hx
    rw [hltsplit] at hlt
    rcases List.mem_append.mp hlt with hys | habove
    · exact hin current hys ⟨hc.mem_self, hstays⟩
    · exact hcur (hls ▸ List.mem_append_right _ habove)
  · rintro ⟨rfl, x, hxs, hxt⟩
    obtain ⟨y, hy⟩ : ∃ y, (ls.find? fun s => decide (s ∈ lt)) = some y :=
      Option.isSome_iff_exists.mp (List.find?_isSome.mpr ⟨x, hxs, by simpa using hxt⟩)
    obtain rfl : lca = y := by simpa [hy] using hlca
    obtain rfl : below = [] := by simpa using hc.unique hs
    exact exchanges_of_meet hs ht hy

end Paths

/-! ## Runs -/

/-- The machine together with everything it came by since its reset. -/
structure Activity (S E A G : Type u) where
  machine : HierarchicalStateMachine S E A G
  log : List (Visit S A)

namespace Activity

/-- One reset of a machine. -/
def restart (m : HierarchicalStateMachine S E A G) (initial : S) : Option (Activity S E A G) :=
  (m.reset initial).map fun r => ⟨r.2, r.1⟩

/-- One event, with the guards' answers to it. -/
def step [DecidableEq E] (s : Activity S E A G) (a : E × (G → Bool)) :
    Option (Activity S E A G) :=
  (s.machine.processEvent a.1 a.2).map fun r => ⟨r.2.2, s.log ++ r.2.1⟩

/-- The entered states are the current state and its ancestors, and every slot was run
in its turn. -/
def Configured (s : Activity S E A G) : Prop :=
  (∃ path, s.machine.pathToRoot s.machine.currentState = some path ∧
    ∀ x, Entered s.log x ↔ x ∈ path) ∧ Proper s.log

/-- Two states have a common ancestor or are related. -/
def SameTree (m : HierarchicalStateMachine S E A G) (a b : S) : Prop :=
  match m.pathToRoot a, m.pathToRoot b with
  | some path, some path' => ∃ x ∈ path, x ∈ path'
  | _, _ => False

/-- A transition the event takes belongs to the current state itself, and leads to a
state of the same tree. -/
def HandledAtHome [DecidableEq E] (s : Activity S E A G) (a : E × (G → Bool)) : Prop :=
  match s.machine.handler a.1 a.2 with
  | some (some (src, tr)) =>
      src = s.machine.currentState ∧ SameTree s.machine src tr.target
  | _ => True

instance (m : HierarchicalStateMachine S E A G) (a b : S) : Decidable (SameTree m a b) :=
  match ha : m.pathToRoot a, hb : m.pathToRoot b with
  | some path, some path' =>
      decidable_of_iff (∃ x ∈ path, x ∈ path') (by simp [SameTree, ha, hb])
  | none, _ => .isFalse (by simp [SameTree, ha])
  | some _, none => .isFalse (by simp [SameTree, ha, hb])

instance [DecidableEq E] (s : Activity S E A G) (a : E × (G → Bool)) :
    Decidable (HandledAtHome s a) :=
  match h : s.machine.handler a.1 a.2 with
  | some (some (src, tr)) =>
      decidable_of_iff (src = s.machine.currentState ∧ SameTree s.machine src tr.target)
        (by simp [HandledAtHome, h])
  | some none => .isTrue (by simp [HandledAtHome, h])
  | none => .isTrue (by simp [HandledAtHome, h])

/-- Entering a root path from nothing. -/
theorem configured_restart {m : HierarchicalStateMachine S E A G} (hac : Acyclic m.parent)
    (initial : S) :
    ∃ s, restart m initial = some s ∧ s.machine.parent = m.parent ∧ Configured s := by
  obtain ⟨l, hl⟩ := HierarchicalStateMachine.exists_path hac initial
  have hpath := HierarchicalStateMachine.pathToRoot_eq hl
  refine ⟨_, by simp [restart, HierarchicalStateMachine.reset, hpath]; rfl, rfl, ⟨l, hpath, ?_⟩, ?_⟩
  · intro x
    simpa using entered_append_entries [] m.entryActions.lookup x l.reverse
  · simpa [proper_nil, hl.nodup] using proper_append_entries [] m.entryActions.lookup l.reverse

section Step

variable [DecidableEq E] {s t : Activity S E A G} {a : E × (G → Bool)} {src : S}
  {tr : Transition S A G}

theorem step_of_unhandled (h : s.machine.handler a.1 a.2 = some none) : step s a = some s := by
  simp [step, HierarchicalStateMachine.processEvent, h]

/-- A handled event leaves and enters the parts of two root paths below their first
common state. -/
theorem step_of_handled (h : s.machine.handler a.1 a.2 = some (some (src, tr)))
    {ls lt : List S} (hs : RootPath s.machine.parent src ls)
    (ht : RootPath s.machine.parent tr.target lt) {lca : S}
    (hlca : lca = (ls.find? fun x => decide (x ∈ lt)).getD src) :
    step s a = some {
      machine := { s.machine with currentState := tr.target }
      log := s.log ++ (ls.takeWhile fun x => decide (x ≠ lca)).map
          (fun x => .exit x (s.machine.exitActions.lookup x)) ++
        tr.action.toList.map .action ++
        (lt.takeWhile fun x => decide (x ≠ lca)).reverse.map
          (fun x => .entry x (s.machine.entryActions.lookup x)) } := by
  simp [step, HierarchicalStateMachine.processEvent, h,
    HierarchicalStateMachine.executeTransition_eq hs ht tr.action hlca]

/-- In an acyclic hierarchy every event is processed, and the hierarchy stays. -/
theorem exists_step (hac : Acyclic s.machine.parent) (a : E × (G → Bool)) :
    ∃ t, step s a = some t ∧ t.machine.parent = s.machine.parent := by
  obtain ⟨lc, hc⟩ := HierarchicalStateMachine.exists_path hac s.machine.currentState
  have hh := HierarchicalStateMachine.handler_eq hc a.1 a.2
  cases hfound : lc.findSome? (s.machine.enabled a.1 a.2) with
  | none => exact ⟨s, step_of_unhandled (hh.trans (by rw [hfound])), rfl⟩
  | some r =>
      obtain ⟨ls, hs⟩ := HierarchicalStateMachine.exists_path hac r.1
      obtain ⟨lt, ht⟩ := HierarchicalStateMachine.exists_path hac r.2.target
      exact ⟨_, step_of_handled (hh.trans (by rw [hfound])) hs ht rfl, rfl⟩

/-- **One event keeps the configuration exactly when it is handled at home.** -/
theorem configured_step_iff (hac : Acyclic s.machine.parent) (h : Configured s)
    (hstep : step s a = some t) : Configured t ↔ HandledAtHome s a := by
  obtain ⟨lc, hc⟩ := HierarchicalStateMachine.exists_path hac s.machine.currentState
  obtain ⟨⟨path, hpath, hentered⟩, hproper⟩ := h
  obtain rfl : lc = path :=
    Option.some.inj ((HierarchicalStateMachine.pathToRoot_eq hc).symm.trans hpath)
  have hh := HierarchicalStateMachine.handler_eq hc a.1 a.2
  cases hfound : lc.findSome? (s.machine.enabled a.1 a.2) with
  | none =>
      rw [hfound] at hh
      obtain rfl : s = t := Option.some.inj ((step_of_unhandled hh).symm.trans hstep)
      exact iff_of_true ⟨⟨lc, hpath, hentered⟩, hproper⟩ (by simp [HandledAtHome, hh])
  | some r =>
      obtain ⟨src, tr⟩ := r
      rw [hfound] at hh
      obtain ⟨below, ls, rfl, hs⟩ :=
        hc.of_mem (HierarchicalStateMachine.mem_of_handler hc hh)
      obtain ⟨lt, ht⟩ := HierarchicalStateMachine.exists_path hac tr.target
      have hstep' := step_of_handled hh hs ht rfl
      obtain rfl := Option.some.inj (hstep'.symm.trans hstep)
      have hhome : HandledAtHome s a ↔
          src = s.machine.currentState ∧ ∃ x ∈ ls, x ∈ lt := by
        simp [HandledAtHome, hh, SameTree, HierarchicalStateMachine.pathToRoot_eq hs,
          HierarchicalStateMachine.pathToRoot_eq ht]
      rw [hhome, ← exchanges_iff hc hs ht rfl]
      generalize (ls.find? fun x => decide (x ∈ lt)).getD src = lca
      have hxs : (ls.takeWhile fun x => decide (x ≠ lca)).Nodup :=
        hs.nodup.sublist (List.takeWhile_sublist _)
      have hys : (lt.takeWhile fun x => decide (x ≠ lca)).Nodup :=
        ht.nodup.sublist (List.takeWhile_sublist _)
      have hleave : ∀ x ∈ ls.takeWhile fun x => decide (x ≠ lca), x ∈ below ++ ls :=
        fun x hx => List.mem_append_right _ ((List.takeWhile_sublist _).subset hx)
      have hnew : ∀ path', (HierarchicalStateMachine.pathToRoot
          { s.machine with currentState := tr.target } tr.target = some path') ↔ path' = lt := by
        intro path'
        have := HierarchicalStateMachine.pathToRoot_eq ht
        exact ⟨fun hp => (Option.some.inj (this.symm.trans hp)).symm, fun hp => hp ▸ this⟩
      simp only [Configured, hnew, exists_eq_left, entered_append_entries,
        entered_append_actions, entered_append_exits, proper_append_entries,
        proper_append_actions, proper_append_exits, hproper, hxs, hys, hentered,
        List.nodup_reverse, List.mem_reverse, true_and, Exchanges]
      exact ⟨fun h => ⟨h.2.2, h.1⟩, fun h => ⟨h.2, hleave, h.1⟩⟩

end Step

/-- **The active configuration, exactly.**  In an acyclic hierarchy a reset and any
sequence of events are processed, and the configuration is right after each of them
exactly when every event is handled at home. -/
theorem configured_throughout_iff [DecidableEq E] (m : HierarchicalStateMachine S E A G)
    (hac : Acyclic m.parent) (initial : S) (ls : List (E × (G → Bool))) :
    ∃ s, restart m initial = some s ∧ (∃ t, run step s ls = some t) ∧
      (Throughout step Configured s ls ↔ Along step HandledAtHome s ls) := by
  obtain ⟨s, hs, hparent, hconf⟩ := configured_restart hac initial
  have hac' : Acyclic s.machine.parent := hparent ▸ hac
  have hkeep : ∀ s a t, Acyclic s.machine.parent → step s a = some t →
      Acyclic (t : Activity S E A G).machine.parent := by
    intro s a t h hstep
    obtain ⟨t', ht', hp⟩ := exists_step h a
    obtain rfl := Option.some.inj (ht'.symm.trans hstep)
    exact hp ▸ h
  refine ⟨s, hs, ?_, throughout_iff_along hkeep
    (fun _ _ _ h hc hstep => configured_step_iff h hc hstep) hac' hconf⟩
  have htotal : ∀ s a, Acyclic s.machine.parent →
      ∃ t, step s a = some t ∧ Acyclic (t : Activity S E A G).machine.parent := by
    intro s a h
    obtain ⟨t, ht, hp⟩ := exists_step h a
    exact ⟨t, ht, hp ▸ h⟩
  obtain ⟨t, ht, -⟩ := run_total htotal ls hac'
  exact ⟨t, ht⟩

end Activity

/-! ## The device of the examples -/

inductive DeviceState
  | off | starting | standby | active | suspended | error | emergencyStop | shuttingDown
  | on | powerOnState
  deriving DecidableEq

inductive DeviceEvent
  | powerOn | powerOff | startComplete | enterStandby | exitStandby | suspend | resume
  | errorOccurred | errorCleared | emergencyStopTriggered | recover
  deriving DecidableEq

/-- The hierarchy and the transitions of the device example; it has no guards and its
callbacks only print. -/
def device : HierarchicalStateMachine DeviceState DeviceEvent String Empty :=
  HierarchicalStateMachine.empty .off
    |>.addState .starting .active
    |>.addState .standby .active
    |>.addState .suspended .active
    |>.addState .active .on
    |>.addState .on .powerOnState
    |>.addState .off .powerOnState
    |>.addState .error .powerOnState
    |>.addState .shuttingDown .powerOnState
    |>.addTransition .off .powerOn .starting none none
    |>.addTransition .starting .startComplete .active none none
    |>.addTransition .active .enterStandby .standby none none
    |>.addTransition .standby .exitStandby .active none none
    |>.addTransition .active .errorOccurred .error none none
    |>.addTransition .error .errorCleared .active none none
    |>.addTransition .active .suspend .suspended none none
    |>.addTransition .suspended .resume .active none none
    |>.addTransition .powerOnState .powerOff .shuttingDown none none
    |>.addTransition .shuttingDown .powerOff .off none none
    |>.onEntry .powerOnState "  [Entry] Entered PowerOnState (hierarchy root)\n"
    |>.onEntry .off "  [Entry] Device Off\n"
    |>.onEntry .starting "  [Entry] Device Starting...\n"
    |>.onEntry .active "  [Entry] Device Active\n"
    |>.onEntry .standby "  [Entry] Device Standby\n"
    |>.onEntry .suspended "  [Entry] Device Suspended\n"
    |>.onEntry .error "  [Entry] ERROR STATE\n"
    |>.onEntry .shuttingDown "  [Entry] Shutting Down...\n"

/-- The depth of a state below `powerOnState`. -/
private def depth : DeviceState → ℕ
  | .starting | .standby | .suspended => 3
  | .active => 2
  | .powerOnState | .emergencyStop => 0
  | _ => 1

theorem acyclic_device : Acyclic device.parent := by
  refine acyclic_of_rank depth ?_
  intro s p h
  cases s <;> cases h <;> decide

namespace Activity

/-- Switching off is handled by the root of the hierarchy: the device is shutting down
and the state it was in is still entered. -/
theorem not_configured_after_powerOff :
    ¬ ∃ s, restart device .off = some s ∧
      Throughout step Configured s [(.powerOff, fun _ => true)] := by
  rintro ⟨s, hs, h⟩
  have hend : ∀ s ∈ restart device .off, ∃ t ∈ step s (.powerOff, fun _ => true),
      Entered t.log .off ∧
        t.machine.pathToRoot t.machine.currentState = some [.shuttingDown, .powerOnState] := by
    decide +kernel
  obtain ⟨t, ht, hoff, hpath⟩ := hend s hs
  obtain ⟨⟨path, hpath', hentered⟩, -⟩ := (h.2 t ht).head
  rw [hpath, Option.some.injEq] at hpath'
  subst hpath'
  exact absurd ((hentered .off).mp hoff) (by decide)

/-- Starting up is handled at home, from the power switch to standby. -/
theorem configured_startup :
    ∃ s, restart device .off = some s ∧
      Throughout step Configured s [(.powerOn, fun _ => true), (.startComplete, fun _ => true),
        (.enterStandby, fun _ => true)] := by
  obtain ⟨s, hs, -, hiff⟩ := configured_throughout_iff device acyclic_device .off
    [(.powerOn, fun _ => true), (.startComplete, fun _ => true), (.enterStandby, fun _ => true)]
  have hhome : ∀ s ∈ restart device .off, Along step HandledAtHome s
      [(.powerOn, fun _ => true), (.startComplete, fun _ => true),
        (.enterStandby, fun _ => true)] := by
    decide +kernel
  exact ⟨s, hs, hiff.mpr (hhome s hs)⟩

end Activity
end Opencode.Fsm
