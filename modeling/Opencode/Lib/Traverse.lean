import Mathlib.Data.List.Forall2

/-!
# Partial functions over a list

`List.mapM` in `Option` applies a partial function to every element and has a result if all
of them have one.

## Main definitions

* `mapM_eq_some_iff`, `mapM_eq_some_map_iff` — what a result says about the elements.
* `map_mapM`, `mapM_congr_left` — mapping the results, and comparing two functions.
-/

namespace Opencode.Lib

universe u v w
variable {α : Type u} {β : Type v} {γ : Type w} {f : α → Option β} {l : List α}

/-- The results of the elements, in their order. -/
theorem mapM_eq_some_iff {ys : List β} :
    l.mapM f = some ys ↔ List.Forall₂ (fun x y => f x = some y) l ys := by
  induction l generalizing ys with
  | nil => simp [eq_comm]
  | cons x l ih =>
      simp only [List.mapM_cons, Option.bind_eq_bind, Option.bind_eq_some_iff, ih,
        List.forall₂_cons_left_iff]
      constructor
      · rintro ⟨y, hy, ys, hys, ⟨⟩⟩
        exact ⟨y, ys, hy, hys, rfl⟩
      · rintro ⟨y, ys, hy, hys, rfl⟩
        exact ⟨y, hy, ys, hys, rfl⟩

theorem mapM_eq_some_map_iff {g : α → β} :
    l.mapM f = some (l.map g) ↔ ∀ x ∈ l, f x = some (g x) := by
  rw [mapM_eq_some_iff, List.forall₂_map_right_iff, List.forall₂_same]

theorem map_mapM (g : β → γ) : (l.mapM f).map (List.map g) = l.mapM fun x => (f x).map g := by
  induction l with
  | nil => rfl
  | cons x l ih =>
      rw [List.mapM_cons, List.mapM_cons, ← ih]
      cases f x <;> cases l.mapM f <;> rfl

theorem mapM_congr_left {g : α → Option β} (h : ∀ x ∈ l, f x = g x) : l.mapM f = l.mapM g := by
  induction l with
  | nil => rfl
  | cons x l ih =>
      rw [List.mapM_cons, List.mapM_cons, h x List.mem_cons_self,
        ih fun y hy => h y (List.mem_cons_of_mem x hy)]

end Opencode.Lib
