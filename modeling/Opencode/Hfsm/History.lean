import Mathlib
import Opencode.Lib.History
import Opencode.Hfsm.Engine

/-!
# The history manager

`HistoryManager` remembers, for each state that was configured, the child recorded last
and, for deep history, the stack of all children recorded.  What it recalls is a
function of the calls made so far: the mode a state was given last, and the children
recorded for it since.

`record` looks at the mode only to decide about the stack, so a child recorded for a
state of mode `none` is recalled as if the mode were shallow.

## Main definitions

* `HistoryManager` — `configure`, `record`, `recallState`, `clear`, `clearAll`, `hasHistory`.
* `modeOf`, `recordedFor` — the mode and the children of a state, from the calls.
* `RecallsLog` — what is recalled is what the calls say.
* `recallsLog_iff` — it is, but for the children of a state of mode `none`.
-/

namespace Opencode.Hfsm

open Opencode.Lib

/-- History mode. -/
inductive HistoryMode
  | none
  | shallow
  | deep
  deriving DecidableEq

/-- History entry for a state. -/
structure HistoryEntry where
  stateId : StateId := invalidState
  mode : HistoryMode := .none
  lastActive : StateId := invalidState
  lastActiveStack : List StateId := []
  deriving DecidableEq

namespace HistoryEntry

/-- A child is recorded; only deep history keeps the stack. -/
def record (entry : HistoryEntry) (activeChild : StateId) : HistoryEntry :=
  let entry := { entry with lastActive := activeChild }
  if entry.mode = .deep then
    { entry with lastActiveStack := entry.lastActiveStack ++ [activeChild] }
  else entry

def clear (entry : HistoryEntry) : HistoryEntry :=
  { entry with lastActive := invalidState, lastActiveStack := [] }

end HistoryEntry

structure HistoryManager where
  history : AList fun _ : StateId => HistoryEntry := ∅

/-- The calls that change a history manager. -/
inductive HistoryCall
  | configure (stateId : StateId) (mode : HistoryMode)
  | record (stateId : StateId) (activeChild : StateId)
  | clear (stateId : StateId)
  | clearAll
  deriving DecidableEq

namespace HistoryManager

variable (hm : HistoryManager)

def configure (stateId : StateId) (mode : HistoryMode) : HistoryManager :=
  ⟨hm.history.insert stateId { stateId, mode }⟩

def record (stateId activeChild : StateId) : HistoryManager :=
  match hm.history.lookup stateId with
  | none => hm
  | some entry => ⟨hm.history.insert stateId (entry.record activeChild)⟩

/-- `recall`; deep history restores the front of the stack. -/
def recallState (stateId : StateId) : StateId :=
  match hm.history.lookup stateId with
  | none => invalidState
  | some entry =>
      if entry.lastActive = invalidState then invalidState
      else if entry.mode = .deep then entry.lastActiveStack.head?.getD entry.lastActive
      else entry.lastActive

def clear (stateId : StateId) : HistoryManager :=
  match hm.history.lookup stateId with
  | none => hm
  | some entry => ⟨hm.history.insert stateId entry.clear⟩

def clearAll : HistoryManager := ⟨∅⟩

def hasHistory (stateId : StateId) : Bool :=
  (hm.history.lookup stateId).any (·.lastActive ≠ invalidState)

def perform : HistoryCall → HistoryManager
  | .configure stateId mode => hm.configure stateId mode
  | .record stateId activeChild => hm.record stateId activeChild
  | .clear stateId => hm.clear stateId
  | .clearAll => clearAll

/-- A new manager after a sequence of calls. -/
def after (calls : List HistoryCall) : HistoryManager := calls.foldl perform {}

theorem after_concat (calls : List HistoryCall) (c : HistoryCall) :
    after (calls ++ [c]) = (after calls).perform c := by
  rw [after, List.foldl_append]
  rfl

end HistoryManager

/-! ## What the calls say -/

namespace HistoryCall

/-- The mode a call gives a state. -/
def modeFor (s : StateId) : HistoryCall → Option HistoryMode
  | .configure stateId mode => if stateId = s then some mode else none
  | _ => none

/-- The child a call records for a state. -/
def childFor (s : StateId) : HistoryCall → Option StateId
  | .record stateId activeChild => if stateId = s then some activeChild else none
  | _ => none

/-- The call starts the record of a state anew. -/
def restarts (s : StateId) : HistoryCall → Bool
  | .configure stateId _ => stateId = s
  | .clear stateId => stateId = s
  | _ => false

def isClearAll : HistoryCall → Bool
  | .clearAll => true
  | _ => false

end HistoryCall

/-- The mode of a state: the one it was given last since the last `clear_all`. -/
def modeOf (s : StateId) (calls : List HistoryCall) : Option HistoryMode :=
  ((sinceLast HistoryCall.isClearAll calls).filterMap (·.modeFor s)).getLast?

/-- The children recorded for a state since its last `configure` or `clear`. -/
def recordedFor (s : StateId) (calls : List HistoryCall) : List StateId :=
  (sinceLast (·.restarts s) calls).filterMap (·.childFor s)

/-- What the calls say is to be recalled. -/
def recallOf (s : StateId) (calls : List HistoryCall) : StateId :=
  match modeOf s calls with
  | some .shallow => (recordedFor s calls).getLast?.getD invalidState
  | some .deep => (recordedFor s calls).head?.getD invalidState
  | _ => invalidState

/-- The manager recalls for a state what the calls say. -/
def RecallsLog (calls : List HistoryCall) (s : StateId) : Prop :=
  (HistoryManager.after calls).recallState s = recallOf s calls ∧
    ((HistoryManager.after calls).hasHistory s = true ↔
      (HistoryManager.after calls).recallState s ≠ invalidState)

theorem modeOf_concat (s : StateId) (calls : List HistoryCall) (c : HistoryCall) :
    modeOf s (calls ++ [c]) =
      if c.isClearAll then none else (c.modeFor s).or (modeOf s calls) := by
  rw [modeOf, sinceLast_concat]
  split
  · rfl
  · rw [List.filterMap_append]
    cases hc : c.modeFor s <;> simp [modeOf, hc]

theorem recordedFor_concat (s : StateId) (calls : List HistoryCall) (c : HistoryCall) :
    recordedFor s (calls ++ [c]) =
      if c.restarts s then [] else recordedFor s calls ++ (c.childFor s).toList := by
  rw [recordedFor, sinceLast_concat]
  split
  · rfl
  · rw [List.filterMap_append]
    cases hc : c.childFor s <;> simp [recordedFor, hc]

/-! ## The table -/

namespace HistoryManager

variable {hm : HistoryManager}

/-- An entry is written under its own state alone. -/
theorem lookup_insert (id s : StateId) (entry : HistoryEntry) :
    (hm.history.insert id entry).lookup s = if id = s then some entry else hm.history.lookup s := by
  split
  · rename_i h
    rw [← h, AList.lookup_insert]
  · rename_i h
    rw [AList.lookup_insert_ne (Ne.symm h)]

/-- `record` and `clear` change the entry of a state, if it has one. -/
theorem lookup_modify (f : HistoryEntry → HistoryEntry) (id s : StateId) :
    (match hm.history.lookup id with
      | none => hm
      | some entry => ⟨hm.history.insert id (f entry)⟩ : HistoryManager).history.lookup s =
      if id = s then (hm.history.lookup s).map f else hm.history.lookup s := by
  by_cases h : id = s
  · subst h
    cases hlookup : hm.history.lookup id with
    | none => simp [hlookup]
    | some entry => simp
  · rw [if_neg h]
    cases hm.history.lookup id with
    | none => rfl
    | some entry => exact AList.lookup_insert_ne (Ne.symm h)

theorem lookup_record (id child s : StateId) :
    (hm.record id child).history.lookup s =
      if id = s then (hm.history.lookup s).map (·.record child) else hm.history.lookup s :=
  lookup_modify _ id s

theorem lookup_clear (id s : StateId) :
    (hm.clear id).history.lookup s =
      if id = s then (hm.history.lookup s).map (·.clear) else hm.history.lookup s :=
  lookup_modify _ id s

end HistoryManager

/-- The entry of a state of a mode for which the children were recorded. -/
def entryOf (s : StateId) (children : List StateId) (mode : HistoryMode) : HistoryEntry where
  stateId := s
  mode := mode
  lastActive := children.getLast?.getD invalidState
  lastActiveStack := if mode = .deep then children else []

theorem entryOf_record (s child : StateId) (children : List StateId) (mode : HistoryMode) :
    (entryOf s children mode).record child = entryOf s (children ++ [child]) mode := by
  cases mode <;> simp [entryOf, HistoryEntry.record]

theorem entryOf_clear (s : StateId) (children : List StateId) (mode : HistoryMode) :
    (entryOf s children mode).clear = entryOf s [] mode := by
  cases mode <;> simp [entryOf, HistoryEntry.clear]

/-- **The table follows the calls.**  A state has an entry exactly when it has a mode,
and the entry is made of the mode and the children recorded since. -/
theorem lookup_after (calls : List HistoryCall) (s : StateId) :
    (HistoryManager.after calls).history.lookup s =
      (modeOf s calls).map (entryOf s (recordedFor s calls)) := by
  induction calls using List.reverseRecOn with
  | nil => rfl
  | append_singleton calls c ih =>
      rw [HistoryManager.after_concat, modeOf_concat, recordedFor_concat]
      cases c with
      | configure id mode =>
          rw [HistoryManager.perform, HistoryManager.configure, HistoryManager.lookup_insert, ih]
          by_cases h : id = s
          · subst h
            cases mode <;>
              simp [HistoryCall.isClearAll, HistoryCall.modeFor, HistoryCall.restarts, entryOf]
          · simp [HistoryCall.isClearAll, HistoryCall.modeFor, HistoryCall.restarts,
              HistoryCall.childFor, h]
      | record id child =>
          rw [HistoryManager.perform, HistoryManager.lookup_record, ih]
          by_cases h : id = s
          · subst h
            simp [HistoryCall.isClearAll, HistoryCall.modeFor, HistoryCall.restarts,
              HistoryCall.childFor, Function.comp_def, entryOf_record]
          · simp [HistoryCall.isClearAll, HistoryCall.modeFor, HistoryCall.restarts,
              HistoryCall.childFor, h]
      | clear id =>
          rw [HistoryManager.perform, HistoryManager.lookup_clear, ih]
          by_cases h : id = s
          · subst h
            simp [HistoryCall.isClearAll, HistoryCall.modeFor, HistoryCall.restarts,
              Function.comp_def, entryOf_clear]
          · simp [HistoryCall.isClearAll, HistoryCall.modeFor, HistoryCall.restarts,
              HistoryCall.childFor, h]
      | clearAll => rfl

/-! ## Recalling -/

theorem getLast?_getD_eq_iff {d : StateId} {cs : List StateId} (h : ∀ c ∈ cs, c ≠ d) :
    cs.getLast?.getD d = d ↔ cs = [] := by
  rcases List.eq_nil_or_concat cs with rfl | ⟨init, last, rfl⟩
  · simp
  · simpa using h last (by simp)

theorem head?_getD_eq_iff {d : StateId} {cs : List StateId} (h : ∀ c ∈ cs, c ≠ d) :
    cs.head?.getD d = d ↔ cs = [] := by
  cases cs with
  | nil => simp
  | cons c cs => simpa using h c (by simp)

/-- Every child that is recorded is a state. -/
def RecordsStates (calls : List HistoryCall) : Prop :=
  ∀ id child, .record id child ∈ calls → child ≠ invalidState

theorem RecordsStates.ne_invalidState {calls : List HistoryCall} (h : RecordsStates calls)
    (s : StateId) : ∀ child ∈ recordedFor s calls, child ≠ invalidState := by
  intro child hchild
  obtain ⟨c, hc, hfor⟩ := List.mem_filterMap.mp hchild
  cases c with
  | record id child' =>
      obtain ⟨-, rfl⟩ : id = s ∧ child' = child := by simpa [HistoryCall.childFor] using hfor
      exact h id child' (sinceLast_subset _ _ hc)
  | _ => cases hfor

/-- What is recalled, from the calls: the children of a state of mode `none` are not
told from those of a state of mode `shallow`. -/
theorem recallState_after {calls : List HistoryCall} (h : RecordsStates calls) (s : StateId) :
    (HistoryManager.after calls).recallState s =
      match modeOf s calls with
      | none => invalidState
      | some .deep => (recordedFor s calls).head?.getD invalidState
      | some _ => (recordedFor s calls).getLast?.getD invalidState := by
  have hchildren := h.ne_invalidState s
  rw [HistoryManager.recallState, lookup_after]
  cases modeOf s calls with
  | none => rfl
  | some mode =>
      simp only [Option.map_some, entryOf, getLast?_getD_eq_iff hchildren]
      cases recordedFor s calls <;> cases mode <;> simp

/-- There is a history exactly when there is something to recall. -/
theorem hasHistory_iff {calls : List HistoryCall} (h : RecordsStates calls) (s : StateId) :
    (HistoryManager.after calls).hasHistory s = true ↔
      (HistoryManager.after calls).recallState s ≠ invalidState := by
  have hlast := getLast?_getD_eq_iff (h.ne_invalidState s)
  have hhead := head?_getD_eq_iff (h.ne_invalidState s)
  rw [HistoryManager.hasHistory, recallState_after h, lookup_after]
  cases modeOf s calls with
  | none => simp
  | some mode => cases mode <;> simp [entryOf, hlast, hhead]

/-- **Recall follows the calls**, for every state but those of mode `none` that a child
was recorded for. -/
theorem recallsLog_iff {calls : List HistoryCall} (h : RecordsStates calls) (s : StateId) :
    RecallsLog calls s ↔ ¬ (modeOf s calls = some .none ∧ recordedFor s calls ≠ []) := by
  have hlast := getLast?_getD_eq_iff (h.ne_invalidState s)
  rw [RecallsLog, and_iff_left (hasHistory_iff h s), recallState_after h, recallOf]
  cases modeOf s calls with
  | none => simp
  | some mode => cases mode <;> simp [hlast]

theorem recallsLog_iff_deep :
    RecallsLog [.configure 200 .deep, .record 200 1, .record 200 2, .record 200 3] 200 := by
  refine (recallsLog_iff ?_ 200).mpr (by decide)
  intro id child hmem
  simp only [List.mem_cons, List.not_mem_nil, or_false, reduceCtorEq, HistoryCall.record.injEq,
    false_or] at hmem
  obtain ⟨-, rfl⟩ | ⟨-, rfl⟩ | ⟨-, rfl⟩ := hmem <;> decide

/-- A child recorded for a state of mode `none` is recalled. -/
theorem not_recallsLog_none :
    ¬ ∀ calls, RecordsStates calls → ∀ s, RecallsLog calls s := by
  intro h
  have hrecords : RecordsStates [.configure 100 .none, .record 100 1] := by
    intro id child hmem
    obtain ⟨-, rfl⟩ : id = 100 ∧ child = 1 := by simpa using hmem
    decide
  have hrecall := (h _ hrecords 100).1
  revert hrecall
  decide

end Opencode.Hfsm
