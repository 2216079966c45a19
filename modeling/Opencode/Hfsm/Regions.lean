import Opencode.Hfsm.SubStates
import Opencode.Lib.History

/-!
# Orthogonal regions

`RegionManager` keeps one region for each parent state that was given one: whether it is
active, and its active child.  The regions of different parents are independent, and what
is read of one is a function of the calls for its parent since it was added.

The child set last is the active one, with one exception: a region whose child was set to
no state goes back to its initial child when it is activated.

## Main definitions

* `addRegion`, `deactivateRegion`, `setActiveChild`, … — the calls.
* `RegionManager.after` — a new manager after a sequence of calls.
* `initialOf`, `regionCalls` — what added the region of a parent, and the calls since.
* `regions_of_calls` — what is read of it.
-/

namespace Opencode.Hfsm

open Opencode.Lib

/-- The calls that change a region manager. -/
inductive RegionCall
  | addRegion (parentId initialChild : StateId)
  | activateRegion (parentId : StateId)
  | deactivateRegion (parentId : StateId)
  | setActiveChild (parentId childId : StateId)
  | clear
  deriving DecidableEq

namespace RegionManager

variable (m : RegionManager)

def addRegion (parentId initialChild : StateId) : RegionManager :=
  ⟨m.regions.insert parentId
    { parentId, activeChild := initialChild, initialChild, history := invalidState,
      isActive := false }⟩

def deactivateRegion (parentId : StateId) : RegionManager :=
  match m.regions.lookup parentId with
  | none => m
  | some region =>
      ⟨m.regions.insert parentId { region with isActive := false, history := region.activeChild }⟩

def setActiveChild (parentId childId : StateId) : RegionManager :=
  match m.regions.lookup parentId with
  | none => m
  | some region => ⟨m.regions.insert parentId { region with activeChild := childId }⟩

def getActiveChild (parentId : StateId) : StateId :=
  match m.regions.lookup parentId with
  | none => invalidState
  | some region => region.activeChild

def isRegionActive (parentId : StateId) : Bool :=
  (m.regions.lookup parentId).any RegionState.isActive

def clear : RegionManager := ⟨∅⟩

def perform : RegionCall → RegionManager
  | .addRegion parentId initialChild => m.addRegion parentId initialChild
  | .activateRegion parentId => m.activateRegion parentId
  | .deactivateRegion parentId => m.deactivateRegion parentId
  | .setActiveChild parentId childId => m.setActiveChild parentId childId
  | .clear => clear

/-- A new manager after a sequence of calls. -/
def after (calls : List RegionCall) : RegionManager := calls.foldl perform {}

theorem after_concat (calls : List RegionCall) (c : RegionCall) :
    after (calls ++ [c]) = (after calls).perform c := by
  rw [after, List.foldl_append]
  rfl

end RegionManager

/-! ## What the calls say -/

namespace RegionCall

variable (s : StateId)

/-- The region of a parent is added, with its initial child, or taken away. -/
def adds : RegionCall → Option (Option StateId)
  | addRegion parentId initialChild => if parentId = s then some (some initialChild) else none
  | clear => some none
  | _ => none

/-- The child the region of a parent is given. -/
def sets : RegionCall → Option StateId
  | setActiveChild parentId childId => if parentId = s then some childId else none
  | _ => none

end RegionCall

/-- The initial child of the region of a parent, if it has one. -/
def initialOf (s : StateId) (calls : List RegionCall) : Option StateId :=
  (calls.filterMap (RegionCall.adds s)).getLast?.join

/-- The calls since the region was added. -/
def regionCalls (s : StateId) (calls : List RegionCall) : List RegionCall :=
  sinceLast (fun c => (c.adds s).isSome) calls

/-- The child set last, the initial one if there is none. -/
def lastChild (s init : StateId) (since : List RegionCall) : StateId :=
  (since.filterMap (RegionCall.sets s)).getLast?.getD init

/-- The region has been activated since its child was set. -/
def Reactivated (s : StateId) (since : List RegionCall) : Prop :=
  .activateRegion s ∈ sinceLast (fun c => (c.sets s).isSome) since

instance (s : StateId) (since : List RegionCall) : Decidable (Reactivated s since) :=
  inferInstanceAs (Decidable (_ ∈ _))

/-- The active child of a region. -/
def childOf (s init : StateId) (since : List RegionCall) : StateId :=
  if lastChild s init since = invalidState ∧ Reactivated s since then init
  else lastChild s init since

/-- The region is active: it has been activated and not deactivated since. -/
def ActiveOf (s : StateId) (since : List RegionCall) : Prop :=
  Standing (.activateRegion s) (.deactivateRegion s) since

section Concat

variable {s init : StateId} {since calls : List RegionCall} {c : RegionCall}

theorem lastChild_concat :
    lastChild s init (since ++ [c]) = (c.sets s).getD (lastChild s init since) := by
  rw [lastChild, List.filterMap_append]
  cases h : c.sets s with
  | none => simp [h, lastChild]
  | some child => simp [h]

theorem reactivated_concat :
    Reactivated s (since ++ [c]) ↔
      c.sets s = none ∧ (Reactivated s since ∨ c = .activateRegion s) := by
  rw [Reactivated, sinceLast_concat]
  cases h : c.sets s with
  | none => simp [Reactivated, eq_comm]
  | some child => simp

@[simp] theorem childOf_nil (s init : StateId) : childOf s init [] = init := by
  simp [childOf, lastChild, Reactivated]

theorem childOf_set {child : StateId} (h : c.sets s = some child) :
    childOf s init (since ++ [c]) = child := by
  simp [childOf, lastChild_concat, reactivated_concat, h]

/-- An activation gives a region without a child its initial one. -/
theorem childOf_activate :
    childOf s init (since ++ [.activateRegion s]) =
      if childOf s init since = invalidState then init else childOf s init since := by
  have hsets : (RegionCall.activateRegion s).sets s = none := rfl
  simp only [childOf, lastChild_concat, reactivated_concat, hsets, Option.getD_none, or_true,
    and_true]
  by_cases hchild : lastChild s init since = invalidState
  · by_cases hre : Reactivated s since
    · simp only [hchild, hre, and_self, if_true]
      split <;> simp
    · simp [hchild, hre]
  · simp [hchild]

theorem childOf_other (hsets : c.sets s = none) (hne : c ≠ .activateRegion s) :
    childOf s init (since ++ [c]) = childOf s init since := by
  simp [childOf, lastChild_concat, reactivated_concat, hsets, hne]

theorem initialOf_concat :
    initialOf s (calls ++ [c]) = (c.adds s).getD (initialOf s calls) := by
  rw [initialOf, List.filterMap_append]
  cases h : c.adds s with
  | none => simp [h, initialOf]
  | some init => simp [h]

theorem regionCalls_concat :
    regionCalls s (calls ++ [c]) = if (c.adds s).isSome then [] else regionCalls s calls ++ [c] :=
  sinceLast_concat _ _ _

end Concat

/-! ## What the manager holds -/

/-- The entry of a parent is what the calls say. -/
def RegionManager.Holds (calls : List RegionCall) (s : StateId) (m : RegionManager) : Prop :=
  (initialOf s calls = none ∧ m.regions.lookup s = none) ∨
    ∃ init region, initialOf s calls = some init ∧ m.regions.lookup s = some region ∧
      region.initialChild = init ∧ region.activeChild = childOf s init (regionCalls s calls) ∧
      (region.isActive = true ↔ ActiveOf s (regionCalls s calls))

namespace RegionManager

variable {m : RegionManager} {calls : List RegionCall} {s : StateId} {c : RegionCall}

/-- A call that is not about the region of a parent. -/
theorem Holds.frame (h : m.Holds calls s) {m' : RegionManager} (hadds : c.adds s = none)
    (hsets : c.sets s = none) (hactivate : c ≠ .activateRegion s)
    (hdeactivate : c ≠ .deactivateRegion s) (hm : m'.regions.lookup s = m.regions.lookup s) :
    m'.Holds (calls ++ [c]) s := by
  rw [Holds, initialOf_concat, regionCalls_concat, hadds, hm]
  obtain ⟨hinit, hlookup⟩ | ⟨init, region, hinit, hlookup, hinitial, hchild, hactive⟩ := h
  · exact .inl ⟨hinit, hlookup⟩
  · refine .inr ⟨init, region, hinit, hlookup, hinitial, ?_, ?_⟩
    · rw [hchild]
      exact (childOf_other hsets hactivate).symm
    · rw [hactive]
      simp [ActiveOf, standing_concat_iff, hactivate, hdeactivate]

/-- A call that is about it, and changes it if there is one. -/
theorem Holds.update (h : m.Holds calls s) {m' : RegionManager} (hadds : c.adds s = none)
    (hnone : m.regions.lookup s = none → m'.regions.lookup s = none)
    (hsome : ∀ init region, m.regions.lookup s = some region → region.initialChild = init →
      region.activeChild = childOf s init (regionCalls s calls) →
      (region.isActive = true ↔ ActiveOf s (regionCalls s calls)) →
      ∃ region', m'.regions.lookup s = some region' ∧ region'.initialChild = init ∧
        region'.activeChild = childOf s init (regionCalls s calls ++ [c]) ∧
        (region'.isActive = true ↔ ActiveOf s (regionCalls s calls ++ [c]))) :
    m'.Holds (calls ++ [c]) s := by
  rw [Holds, initialOf_concat, regionCalls_concat, hadds]
  obtain ⟨hinit, hlookup⟩ | ⟨init, region, hinit, hlookup, hinitial, hchild, hactive⟩ := h
  · exact .inl ⟨hinit, hnone hlookup⟩
  · obtain ⟨region', hlookup', hrest⟩ := hsome init region hlookup hinitial hchild hactive
    exact .inr ⟨init, region', hinit, hlookup', hrest⟩

theorem Holds.perform (h : m.Holds calls s) (c : RegionCall) :
    (m.perform c).Holds (calls ++ [c]) s := by
  cases c with
  | addRegion parentId initialChild =>
      by_cases hs : parentId = s
      · subst hs
        have hadds : (RegionCall.addRegion parentId initialChild).adds parentId =
            some (some initialChild) := if_pos rfl
        right
        refine ⟨initialChild, ⟨parentId, initialChild, initialChild, invalidState, false⟩, ?_,
          AList.lookup_insert _, rfl, ?_, ?_⟩
        · rw [initialOf_concat, hadds]
          rfl
        · rw [regionCalls_concat, hadds]
          exact (childOf_nil _ _).symm
        · rw [regionCalls_concat, hadds]
          simp [ActiveOf, Standing]
      · refine h.frame (if_neg hs) rfl (by simp) (by simp) ?_
        exact AList.lookup_insert_ne (Ne.symm hs)
  | clear =>
      refine .inl ⟨?_, rfl⟩
      rw [initialOf_concat]
      rfl
  | activateRegion parentId =>
      by_cases hs : parentId = s
      · subst hs
        refine h.update rfl (fun hnone => ?_) fun init region hlookup hinitial hchild hactive => ?_
        · simp [RegionManager.perform, activateRegion, hnone]
        · refine ⟨{ region with
              isActive := true
              activeChild :=
                if region.activeChild = invalidState then region.initialChild
                else region.activeChild },
            by simp [RegionManager.perform, activateRegion, hlookup], hinitial, ?_, ?_⟩
          · rw [childOf_activate, ← hchild, ← hinitial]
          · simp [ActiveOf, standing_concat_iff]
      · refine h.frame rfl rfl (by simp [hs]) (by simp) ?_
        rw [RegionManager.perform, activateRegion]
        split
        · rfl
        · exact AList.lookup_insert_ne (Ne.symm hs)
  | deactivateRegion parentId =>
      by_cases hs : parentId = s
      · subst hs
        refine h.update rfl (fun hnone => ?_) fun init region hlookup hinitial hchild hactive => ?_
        · simp [RegionManager.perform, deactivateRegion, hnone]
        · refine ⟨{ region with isActive := false, history := region.activeChild },
            by simp [RegionManager.perform, deactivateRegion, hlookup], hinitial, ?_, ?_⟩
          · rw [childOf_other rfl (by simp), hchild]
          · simp [ActiveOf, standing_concat_iff]
      · refine h.frame rfl rfl (by simp) (by simp [hs]) ?_
        rw [RegionManager.perform, deactivateRegion]
        split
        · rfl
        · exact AList.lookup_insert_ne (Ne.symm hs)
  | setActiveChild parentId childId =>
      by_cases hs : parentId = s
      · subst hs
        refine h.update rfl (fun hnone => ?_) fun init region hlookup hinitial hchild hactive => ?_
        · simp [RegionManager.perform, setActiveChild, hnone]
        · refine ⟨{ region with activeChild := childId },
            by simp [RegionManager.perform, setActiveChild, hlookup], hinitial, ?_, ?_⟩
          · exact (childOf_set (by simp [RegionCall.sets])).symm
          · rw [hactive]
            simp [ActiveOf, standing_concat_iff]
      · refine h.frame rfl (by simp [RegionCall.sets, hs]) (by simp) (by simp) ?_
        rw [RegionManager.perform, setActiveChild]
        split
        · rfl
        · exact AList.lookup_insert_ne (Ne.symm hs)

theorem holds_after (calls : List RegionCall) (s : StateId) : (after calls).Holds calls s := by
  induction calls using List.reverseRecOn with
  | nil => exact .inl ⟨rfl, rfl⟩
  | append_singleton calls c ih =>
      rw [after_concat]
      exact ih.perform c

end RegionManager

/-- **What is read of a region** after any calls: its active child, and whether it is
active, are what the calls for its parent say since it was added last; without a region
there is no child, and nothing is active. -/
theorem regions_of_calls (calls : List RegionCall) (s : StateId) :
    (RegionManager.after calls).getActiveChild s =
        (initialOf s calls).elim invalidState
          (fun init => childOf s init (regionCalls s calls)) ∧
      ((RegionManager.after calls).isRegionActive s = true ↔
        (initialOf s calls).isSome ∧ ActiveOf s (regionCalls s calls)) := by
  rw [RegionManager.getActiveChild, RegionManager.isRegionActive]
  obtain ⟨hinit, hlookup⟩ | ⟨init, region, hinit, hlookup, -, hchild, hactive⟩ :=
    RegionManager.holds_after calls s
  · simp [hinit, hlookup]
  · simp [hinit, hlookup, hchild, hactive]

end Opencode.Hfsm
