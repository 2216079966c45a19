import Opencode.Fsm.Bubbling
import Opencode.Lib.Run

/-!
# Building the hierarchy

`addState` takes any pair: it may name a parent that does not occur yet, move a state to
another parent, and close a cycle.  Every loop up the hierarchy ends in all the states
exactly while the hierarchy is acyclic, so whether the machine can be used at all is
decided by the calls it was built with.

## Main definitions

* `Ends` — all the loops end, from every state and on every event.
* `KeepsOrder` — a call does not put a state below itself.
* `acyclic_throughout_iff` — exactly the calls that keep the order keep it acyclic.
-/

namespace Opencode.Fsm

open Opencode.Lib

universe u
variable {S E A G : Type u} [DecidableEq S] [DecidableEq E]

namespace HierarchicalStateMachine

/-- Every query and every operation that goes up the hierarchy returns, whatever the
machine's current state is. -/
structure Ends (m : HierarchicalStateMachine S E A G) : Prop where
  isAncestor : ∀ a s, (m.isAncestor a s).isSome
  pathToRoot : ∀ s, (m.pathToRoot s).isSome
  findLca : ∀ a b, (m.findLca a b).isSome
  reset : ∀ s, (m.reset s).isSome
  isInState : ∀ current s,
    (HierarchicalStateMachine.isInState { m with currentState := current } s).isSome
  processEvent : ∀ current event guards,
    (HierarchicalStateMachine.processEvent { m with currentState := current } event guards).isSome

/-- One call: a state and the parent it is put under. -/
def grow (m : HierarchicalStateMachine S E A G) (c : S × S) :
    Option (HierarchicalStateMachine S E A G) :=
  some (m.addState c.1 c.2)

/-- The parent a call names is neither the state itself nor one below it. -/
def KeepsOrder (m : HierarchicalStateMachine S E A G) (c : S × S) : Prop :=
  c.2 ≠ c.1 ∧ m.isAncestor c.1 c.2 ≠ some true

instance (m : HierarchicalStateMachine S E A G) (c : S × S) : Decidable (m.KeepsOrder c) :=
  inferInstanceAs (Decidable (_ ∧ _))

variable {m : HierarchicalStateMachine S E A G}

/-- The machine without any hierarchy: what it has before the first call. -/
def bare (m : HierarchicalStateMachine S E A G) : HierarchicalStateMachine S E A G :=
  { m with parents := ∅, children := ∅ }

omit [DecidableEq E] in
theorem acyclic_bare (m : HierarchicalStateMachine S E A G) : Acyclic m.bare.parent :=
  acyclic_of_rank (fun _ => 0) fun a p h => by simp [parent, bare] at h

omit [DecidableEq E] in
theorem parent_addState (m : HierarchicalStateMachine S E A G) (state p : S) :
    (m.addState state p).parent = Function.update m.parent state (some p) := by
  funext s
  by_cases hs : s = state
  · subst hs
    simp [parent, addState]
  · rw [Function.update_of_ne hs]
    exact AList.lookup_insert_ne hs

/-- **The loops end from every state exactly in an acyclic hierarchy.** -/
theorem ends_iff : m.Ends ↔ Acyclic m.parent := by
  constructor
  · intro h
    refine acyclic_of_rootPath fun s => ?_
    obtain ⟨l, hl⟩ := Option.isSome_iff_exists.mp (h.pathToRoot s)
    exact ⟨l, (walkUp_eq_some_iff.mp hl).1⟩
  · intro hac
    choose path hpath using exists_path hac
    refine ⟨?_, ?_, ?_, ?_, ?_, ?_⟩
    · intro a s
      simp [isAncestor_eq (hpath s)]
    · intro s
      simp [pathToRoot_eq (hpath s)]
    · intro a b
      simp [findLca_eq (hpath a) (hpath b)]
    · intro s
      simp [HierarchicalStateMachine.reset, pathToRoot_eq (hpath s)]
    · intro current s
      simp [isInState_eq (m := { m with currentState := current }) (hpath current)]
    · intro current event guards
      obtain ⟨_, _, _, _, -, h, -⟩ :=
        processEvent_bubbles { m with currentState := current } hac event guards
      simp [h]

omit [DecidableEq E] in
/-- **A call keeps an acyclic hierarchy acyclic exactly when it keeps the order.** -/
theorem acyclic_addState_iff (hac : Acyclic m.parent) (c : S × S) :
    Acyclic (m.addState c.1 c.2).parent ↔ m.KeepsOrder c := by
  obtain ⟨l, hl⟩ := exists_path hac c.2
  rw [parent_addState, acyclic_update_iff hac, ← hl.mem_iff, KeepsOrder, isAncestor_eq hl, ne_comm]
  have hmem : c.1 ∈ l ↔ c.1 = c.2 ∨ c.1 ∈ l.tail := by
    obtain ⟨tl, rfl⟩ := hl.eq_cons
    exact List.mem_cons
  rw [hmem, not_or, ne_eq (some _), Option.some.injEq, decide_eq_true_eq]

/-- **When the hierarchy can be used.**  From a machine without a hierarchy, after every
call of a sequence the hierarchy is acyclic and all the loops end, exactly when no call
puts a state under itself or under one that is below it at that time. -/
theorem acyclic_throughout_iff (m : HierarchicalStateMachine S E A G) (calls : List (S × S)) :
    Throughout grow (fun m => Acyclic m.parent ∧ m.Ends) m.bare calls ↔
      Along grow KeepsOrder m.bare calls := by
  have hbare : Acyclic m.bare.parent := acyclic_bare m
  refine throughout_iff_along (I := fun _ => True) (fun _ _ _ _ _ => trivial) ?_ trivial
    ⟨hbare, ends_iff.mpr hbare⟩
  rintro m c m' - ⟨hac, -⟩ ⟨⟩
  rw [ends_iff, and_self]
  exact acyclic_addState_iff hac c

/-- A state that is put under itself: from there on its path to the root does not end. -/
theorem not_acyclic_of_self_parent :
    ¬ Throughout grow (fun m => Acyclic m.parent ∧ m.Ends)
      (empty 0 : HierarchicalStateMachine ℕ ℕ ℕ ℕ) [(1, 1)] := by
  intro h
  have hends := (h.2 _ rfl).head.2.pathToRoot 1
  exact absurd hends (by decide)

end HierarchicalStateMachine
end Opencode.Fsm
