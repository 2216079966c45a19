import Opencode.Fsm.ActiveConfiguration

/-!
# The lowest common ancestor

`isAncestor`, `pathToRoot` and `findLca` go up the hierarchy in three loops of their own.
Here they agree: the ancestors of a state are its root path without the state, and
`findLca` returns the state at which two root paths join.

## Main definitions

* `Joins` — a state is the lowest one on two paths.
* `findLca_joins` — `findLca` returns it, from either side.
-/

namespace Opencode.Fsm

open Opencode.Lib

universe u
variable {S E A G : Type u} [DecidableEq S]

namespace HierarchicalStateMachine

/-- `lca` is on both paths and every other state on both is an ancestor of it. -/
structure Joins (m : HierarchicalStateMachine S E A G) (pathA pathB : List S) (lca : S) :
    Prop where
  mem_left : lca ∈ pathA
  mem_right : lca ∈ pathB
  lowest : ∀ s ∈ pathA, s ∈ pathB → s = lca ∨ m.isAncestor s lca = some true

variable {m : HierarchicalStateMachine S E A G} {a b x : S} {la lb : List S}

/-- `findLca` on two root paths that share a state. -/
theorem exists_shared (ha : RootPath m.parent a la) (hb : RootPath m.parent b lb)
    (hmeet : ∃ s ∈ la, s ∈ lb) :
    ∃ x, (la.find? fun s => decide (s ∈ lb)) = some x ∧ m.findLca a b = some x := by
  obtain ⟨s, hsa, hsb⟩ := hmeet
  have hsome : (la.find? fun s => decide (s ∈ lb)).isSome :=
    List.find?_isSome.mpr ⟨s, hsa, by simpa using hsb⟩
  obtain ⟨x, hx⟩ := Option.isSome_iff_exists.mp hsome
  exact ⟨x, hx, by rw [findLca_eq ha hb, hx, Option.getD_some]⟩

/-- The first state of one root path on another joins the two. -/
theorem joins_of_find? (ha : RootPath m.parent a la) (hb : RootPath m.parent b lb)
    (hx : (la.find? fun s => decide (s ∈ lb)) = some x) : m.Joins la lb x := by
  obtain ⟨⟨above, hup, hshared⟩, -⟩ := ha.find?_shared hb hx
  refine ⟨List.mem_of_find?_eq_some hx, by simpa using List.find?_some hx, ?_⟩
  intro s hsa hsb
  rcases List.mem_cons.mp (hshared s hsa hsb) with rfl | habove
  · exact .inl rfl
  · right
    rw [isAncestor_eq hup, Option.some.injEq, decide_eq_true_iff]
    exact habove

/-- **In an acyclic hierarchy `findLca` is the lowest common ancestor**: it joins the two
root paths, whichever state is given first; and `isAncestor` holds exactly of the states
strictly above on the root path. -/
theorem findLca_joins (m : HierarchicalStateMachine S E A G) (hac : Acyclic m.parent) :
    (∀ x y, ∃ above, m.pathToRoot y = some (y :: above) ∧
      m.isAncestor x y = some (decide (x ∈ above))) ∧
    ∀ a b pathA pathB, m.pathToRoot a = some pathA → m.pathToRoot b = some pathB →
      (∃ s ∈ pathA, s ∈ pathB) →
      ∃ lca, m.findLca a b = some lca ∧ m.findLca b a = some lca ∧ m.Joins pathA pathB lca := by
  constructor
  · intro x y
    obtain ⟨l, hl⟩ := exists_path hac y
    obtain ⟨above, rfl⟩ := hl.eq_cons
    exact ⟨above, pathToRoot_eq hl, by rw [isAncestor_eq hl, List.tail_cons]⟩
  · intro a b pathA pathB hA hB hmeet
    have ha := (walkUp_eq_some_iff.mp hA).1
    have hb := (walkUp_eq_some_iff.mp hB).1
    obtain ⟨x, hx, hlca⟩ := exists_shared ha hb hmeet
    have hsymm : m.findLca b a = some x := by
      rw [findLca_eq hb ha, (ha.find?_shared hb hx).2, Option.getD_some]
    exact ⟨x, hlca, hsymm, joins_of_find? ha hb hx⟩

/-- Standby and suspended join below the root of the device, at active. -/
theorem device_findLca_joins :
    ∃ lca, device.findLca .standby .suspended = some lca ∧
      device.findLca .suspended .standby = some lca ∧
      device.Joins [.standby, .active, .on, .powerOnState] [.suspended, .active, .on, .powerOnState]
        lca :=
  (findLca_joins device acyclic_device).2 .standby .suspended _ _ (by decide) (by decide)
    ⟨.active, by decide, by decide⟩

end HierarchicalStateMachine
end Opencode.Fsm
