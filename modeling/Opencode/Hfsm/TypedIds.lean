import Opencode.Hfsm.Engine

/-!
# Typed states

`Machine` names its states by tag types and finds the id of a tag with
`TypedStateId<T>::id()`, which draws it from a counter on the first call.  Both the id
and the counter are local statics of member functions of a class template, so each tag
has a counter of its own, and every counter starts at one.

The statics live for the whole program; the members of `Machine` call `id()` on whatever
statics there are.

## Main definitions

* `Statics`, `Statics.id` — the statics of `TypedStateId`.
* `TypedCall`, `Machine.perform`, `Machine.idsOf` — the members of `Machine` that take a
  tag.
* `Machine.OwnIds` — every tag has its own id, and no machine confuses two.
* `ownIds_iff` — that is so only while there is one tag.
-/

namespace Opencode.Hfsm

universe u
variable {Tag T D G A : Type u} [DecidableEq Tag]

/-! ## The statics -/

/-- The local statics of `id()` and `next_id()`, one of each for a tag; that of `id()` has
no value before the first call. -/
structure Statics (Tag : Type u) where
  sid : Tag → Option StateId := fun _ => none
  counter : Tag → StateId := fun _ => 1

namespace Statics

/-- `return counter++`. -/
def nextId (st : Statics Tag) (tag : Tag) : StateId × Statics Tag :=
  (st.counter tag, { st with counter := Function.update st.counter tag (st.counter tag + 1) })

/-- The first call for a tag initialises its id. -/
def id (st : Statics Tag) (tag : Tag) : StateId × Statics Tag :=
  match st.sid tag with
  | some sid => (sid, st)
  | none =>
      let (sid, st) := st.nextId tag
      (sid, { st with sid := Function.update st.sid tag (some sid) })

end Statics

/-! ## The typed machine -/

/-- A typed machine in a program with its statics. -/
structure Machine (Tag T D G A : Type u) where
  statics : Statics Tag := {}
  engine : StateMachineEngine T D G A := {}

/-- The calls that find the id of a tag. -/
inductive TypedCall (Tag A : Type u)
  | id (tag : Tag)
  | registerState (tag : Tag)
  | isIn (tag : Tag)
  | setInitial (tag : Tag)
  | onEntry (tag : Tag) (cb : A)
  | onExit (tag : Tag) (cb : A)

namespace TypedCall

def tag : TypedCall Tag A → Tag
  | .id tag | .registerState tag | .isIn tag | .setInitial tag => tag
  | .onEntry tag _ | .onExit tag _ => tag

/-- What the call does with the id it found. -/
def onEngine (c : TypedCall Tag A) (id : StateId) (e : StateMachineEngine T D G A) :
    StateMachineEngine T D G A :=
  match c with
  | .id _ | .isIn _ => e
  | .registerState _ => e.registerState id
  | .setInitial _ => e.setInitial id
  | .onEntry _ cb => e.onEntry id cb
  | .onExit _ cb => e.onExit id cb

end TypedCall

namespace Machine

/-- A call, with the id it found. -/
def perform (m : Machine Tag T D G A) (c : TypedCall Tag A) : StateId × Machine Tag T D G A :=
  let (id, statics) := m.statics.id c.tag
  (id, ⟨statics, c.onEngine id m.engine⟩)

/-- The ids a sequence of calls finds. -/
def idsOf (m : Machine Tag T D G A) : List (TypedCall Tag A) → List StateId × Machine Tag T D G A
  | [] => ([], m)
  | c :: calls =>
      let (id, m) := m.perform c
      let (ids, m) := m.idsOf calls
      (id :: ids, m)

/-- `is_in<StateTag>()`. -/
def isIn (m : Machine Tag T D G A) (tag : Tag) : Bool :=
  m.engine.currentState = (m.perform (.isIn tag)).1

/-- The machine tells one tag from another: it is not in both, and what it is told of one
leaves the other alone. -/
structure Separates (m : Machine Tag T D G A) (tag tag' : Tag) : Prop where
  isIn : ¬ (m.isIn tag = true ∧ m.isIn tag' = true)
  setInitial : (m.perform (.setInitial tag)).2.engine.initialState ≠ (m.perform (.id tag')).1
  onEntry : ∀ cb, (m.perform (.onEntry tag cb)).2.engine.entryActions.lookup
      (m.perform (.id tag')).1 = m.engine.entryActions.lookup (m.perform (.id tag')).1
  onExit : ∀ cb, (m.perform (.onExit tag cb)).2.engine.exitActions.lookup
      (m.perform (.id tag')).1 = m.engine.exitActions.lookup (m.perform (.id tag')).1

/-- Calls find the same id exactly when they are for the same tag, and in no state of its
engine does the machine confuse two tags that were registered. -/
structure OwnIds (m : Machine Tag T D G A) (calls : List (TypedCall Tag A)) : Prop where
  own : ∀ (i j : ℕ) (c c' : TypedCall Tag A), calls[i]? = some c → calls[j]? = some c' →
    (c.tag = c'.tag ↔ (m.idsOf calls).1[i]? = (m.idsOf calls).1[j]?)
  separates : ∀ tag tag', .registerState tag ∈ calls → .registerState tag' ∈ calls →
    tag ≠ tag' →
    ∀ e : StateMachineEngine T D G A, Separates ⟨(m.idsOf calls).2.statics, e⟩ tag tag'

end Machine

/-! ## Every id is one -/

/-- A tag has the id one, or its counter still stands at one. -/
def Statics.AllOne (st : Statics Tag) : Prop :=
  ∀ tag, st.sid tag = some 1 ∨ st.sid tag = none ∧ st.counter tag = 1

theorem Statics.AllOne.id {st : Statics Tag} (h : st.AllOne) (tag : Tag) :
    (st.id tag).1 = 1 ∧ (st.id tag).2.AllOne := by
  unfold Statics.id
  obtain hsid | ⟨hsid, hcounter⟩ := h tag
  · rw [hsid]
    exact ⟨rfl, h⟩
  · rw [hsid]
    refine ⟨hcounter, fun tag' => ?_⟩
    by_cases heq : tag' = tag
    · subst heq
      exact .inl (by simp [Statics.nextId, hcounter])
    · simpa [Statics.nextId, heq] using h tag'

namespace Machine

variable {m : Machine Tag T D G A}

theorem idsOf_of_allOne (h : m.statics.AllOne) (calls : List (TypedCall Tag A)) :
    (m.idsOf calls).1 = List.replicate calls.length 1 ∧ (m.idsOf calls).2.statics.AllOne := by
  induction calls generalizing m with
  | nil => exact ⟨rfl, h⟩
  | cons c calls ih =>
      obtain ⟨hid, hone⟩ := h.id c.tag
      obtain ⟨hids, hrest⟩ := ih (m := (m.perform c).2) hone
      refine ⟨?_, hrest⟩
      rw [List.length_cons, List.replicate_succ, ← hids, ← hid]
      rfl

/-- **Every tag has its own id only while there is one tag.**  The calls of a program for
one tag find the same id every time, and so do those for all others. -/
theorem ownIds_iff (engine : StateMachineEngine T D G A) (calls : List (TypedCall Tag A)) :
    OwnIds { engine } calls ↔ ∀ c ∈ calls, ∀ c' ∈ calls, c.tag = c'.tag := by
  have hstart : ({} : Statics Tag).AllOne := fun _ => .inr ⟨rfl, rfl⟩
  have hids := (idsOf_of_allOne (m := { engine }) hstart calls).1
  have hone {i : ℕ} {c : TypedCall Tag A} (hc : calls[i]? = some c) :
      (idsOf { engine } calls).1[i]? = some 1 := by
    obtain ⟨hi, -⟩ := List.getElem?_eq_some_iff.mp hc
    rw [hids, List.getElem?_replicate, if_pos hi]
  constructor
  · intro h c hc c' hc'
    obtain ⟨i, hi⟩ := List.mem_iff_getElem?.mp hc
    obtain ⟨j, hj⟩ := List.mem_iff_getElem?.mp hc'
    exact (h.own i j c c' hi hj).mpr ((hone hi).trans (hone hj).symm)
  · intro h
    refine ⟨fun i j c c' hi hj => ?_, fun tag tag' htag htag' hne => ?_⟩
    · exact iff_of_true (h c (List.mem_of_getElem? hi) c' (List.mem_of_getElem? hj))
        ((hone hi).trans (hone hj).symm)
    · exact absurd (h _ htag _ htag') hne

/-- Two tags are confused by whatever is done with one of them: a machine that starts in
one state is in the other. -/
theorem not_separates (engine : StateMachineEngine T D G A) (calls : List (TypedCall Tag A))
    (tag tag' : Tag) : ¬ (idsOf { engine } calls).2.Separates tag tag' := by
  have hstart : ({} : Statics Tag).AllOne := fun _ => .inr ⟨rfl, rfl⟩
  have hone := (idsOf_of_allOne (m := { engine }) hstart calls).2
  intro hsep
  refine hsep.setInitial ?_
  have hinitial (e : StateMachineEngine T D G A) (id : StateId) :
      (e.setInitial id).initialState = id := by
    simp only [StateMachineEngine.setInitial]
    split <;> rfl
  exact (hinitial _ _).trans ((hone.id tag).1.trans (hone.id tag').1.symm)

/-- The calls of the library's own test, with its two tags. -/
def typedCalls : List (TypedCall Bool Unit) :=
  [.registerState false, .registerState true, .setInitial false, .isIn false, .isIn true]

theorem not_ownIds_typedCalls :
    ¬ ∀ calls : List (TypedCall Bool Unit),
      OwnIds ({} : Machine Bool Unit Unit Unit Unit) calls := by
  intro h
  have hsame := ((h typedCalls).own 0 1 _ _ rfl rfl).mpr (by decide)
  cases hsame

end Machine
end Opencode.Hfsm
