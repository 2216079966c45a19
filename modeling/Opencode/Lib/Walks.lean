import Mathlib.Data.List.Basic

/-!
# Walks in a graph, in pre-order

A graph is given by the edges that leave each node, in an order, and the node each edge
leads to; it may have cycles.  A walk is its list of edges.  Listed up to a length, a walk
comes before the walks that go on from it, and these come before those that leave by a later
edge.

## Main definitions

* `IsWalk`, `walks` — walks, and the list of them up to a length.
* `visits` — the edge each listed walk ends with.
* `mem_walks_iff`, `visits_succ` — what is listed, and one level of it.
-/

namespace Opencode.Lib

universe u v
variable {ν : Type u} {ε : Type v} (out : ν → List ε) (target : ε → ν)

/-- The edges follow each other, from a node on. -/
inductive IsWalk : ν → List ε → Prop
  | single {n : ν} {e : ε} (h : e ∈ out n) : IsWalk n [e]
  | cons {n : ν} {e : ε} {p : List ε} (h : e ∈ out n) (rest : IsWalk (target e) p) :
      IsWalk n (e :: p)

/-- The walks of length 1 to `d`, in pre-order. -/
def walks : ℕ → ν → List (List ε)
  | 0, _ => []
  | d + 1, n => (out n).flatMap fun e => [e] :: (walks d (target e)).map (e :: ·)

/-- The last edges of the walks of length 1 to `d`, in pre-order. -/
def visits (d : ℕ) (n : ν) : List ε := (walks out target d n).filterMap List.getLast?

variable {out target} {d : ℕ} {n : ν} {p : List ε} {e : ε}

theorem IsWalk.ne_nil (h : IsWalk out target n p) : p ≠ [] := by
  cases h <;> simp

/-- **Every walk is listed**, up to the length. -/
theorem mem_walks_iff : p ∈ walks out target d n ↔ IsWalk out target n p ∧ p.length ≤ d := by
  induction d generalizing n p with
  | zero =>
      refine iff_of_false (by simp [walks]) ?_
      rintro ⟨h, hlen⟩
      exact h.ne_nil (List.length_eq_zero_iff.mp (Nat.le_zero.mp hlen))
  | succ d ih =>
      simp only [walks, List.mem_flatMap, List.mem_cons, List.mem_map, ih]
      constructor
      · rintro ⟨e, he, rfl | ⟨q, ⟨hq, hlen⟩, rfl⟩⟩
        · exact ⟨.single he, by simp⟩
        · exact ⟨.cons he hq, by simpa using hlen⟩
      · rintro ⟨h, hlen⟩
        cases h with
        | @single _ e he => exact ⟨e, he, .inl rfl⟩
        | @cons _ e q he hq => exact ⟨e, he, .inr ⟨q, ⟨hq, by simpa using hlen⟩, rfl⟩⟩

@[simp] theorem visits_zero : visits out target 0 n = [] := rfl

/-- One level: each edge, and what is visited from where it leads. -/
theorem visits_succ :
    visits out target (d + 1) n =
      (out n).flatMap fun e => e :: visits out target d (target e) := by
  rw [visits, walks, List.filterMap_flatMap]
  refine congrArg (fun f => (out n).flatMap f) (funext fun e => ?_)
  -- A walk through `e` ends where the rest of it ends.
  have hlast : ∀ q ∈ walks out target d (target e), (e :: q).getLast? = q.getLast? := by
    intro q hq
    obtain ⟨a, q, rfl⟩ := List.exists_cons_of_ne_nil (mem_walks_iff.mp hq).1.ne_nil
    rfl
  rw [List.filterMap_cons, List.getLast?_singleton, List.filterMap_map, visits]
  exact congrArg (e :: ·) (List.filterMap_congr hlast)

/-- What holds of all that is visited holds of the edges that leave the node, and of all
that is visited from where they lead. -/
theorem forall_visits_succ {P : ε → Prop} :
    (∀ e ∈ visits out target (d + 1) n, P e) ↔
      (∀ e ∈ out n, P e) ∧ ∀ e ∈ out n, ∀ e' ∈ visits out target d (target e), P e' := by
  simp only [visits_succ, List.mem_flatMap, List.mem_cons]
  constructor
  · intro h
    exact ⟨fun e he => h e ⟨e, he, .inl rfl⟩, fun e he e' he' => h e' ⟨e, he, .inr he'⟩⟩
  · rintro ⟨hself, hrest⟩ e ⟨a, ha, rfl | he⟩
    · exact hself e ha
    · exact hrest a ha e he

/-- Lists of blocks are equal only for equal lists, if the first entry of a block determines
what the block is for. -/
theorem eq_of_flatMap_cons_eq {α β : Type*} {first : α → β} {rest : α → List β}
    {xs ys : List α} (hinj : ∀ x ∈ xs, ∀ y ∈ ys, first x = first y → x = y)
    (h : (xs.flatMap fun x => first x :: rest x) = ys.flatMap fun y => first y :: rest y) :
    xs = ys := by
  induction xs generalizing ys with
  | nil =>
      cases ys with
      | nil => rfl
      | cons y ys => simp at h
  | cons x xs ih =>
      cases ys with
      | nil => simp at h
      | cons y ys =>
          simp only [List.flatMap_cons, List.cons_append, List.cons.injEq] at h
          obtain rfl := hinj x List.mem_cons_self y List.mem_cons_self h.1
          rw [ih (fun a ha b hb =>
            hinj a (List.mem_cons_of_mem _ ha) b (List.mem_cons_of_mem _ hb))
            (List.append_cancel_left h.2)]

end Opencode.Lib
