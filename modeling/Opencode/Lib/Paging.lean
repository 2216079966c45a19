import Mathlib.Data.List.Basic

/-!
# Reading a list in pages

A page of a list is what is left of it from an offset on, cut to a size.  A client that
does not know the list reads page after page until it meets an empty one.

## Main definitions

* `untilEmpty` — the elements of the pages up to the first empty one.
* `take_drop_concat` — a page when the list grows by an element.
* `untilEmpty_eq_drop` — pages one behind the other give the list from the first on.
-/

namespace Opencode.Lib

universe u v
variable {α : Type u} {β : Type v}

/-- Page after page until the first empty one; `none` when a page asked for is. -/
def untilEmpty (page : β → Option (List α)) : List β → Option (List α)
  | [] => some []
  | b :: bs =>
      (page b).bind fun first =>
        if first = [] then some [] else (untilEmpty page bs).map (first ++ ·)

/-- A page takes the next element of the list when its offset is reached and it has room. -/
theorem take_drop_concat (l : List α) (x : α) (m n : ℕ) :
    ((l ++ [x]).drop m).take n =
      if m ≤ l.length ∧ ((l.drop m).take n).length < n then (l.drop m).take n ++ [x]
      else (l.drop m).take n := by
  rw [List.length_take, List.length_drop]
  by_cases hm : m ≤ l.length
  · rw [List.drop_append_of_le_length hm]
    by_cases hn : min n (l.length - m) < n
    · have hroom : (l.drop m ++ [x]).length ≤ n := by
        rw [List.length_append, List.length_drop, List.length_singleton]
        omega
      have hall : (l.drop m).length ≤ n := by
        rw [List.length_drop]
        omega
      rw [if_pos ⟨hm, hn⟩, List.take_of_length_le hall, List.take_of_length_le hroom]
    · have hfull : n ≤ (l.drop m).length := by
        rw [List.length_drop]
        omega
      rw [if_neg fun h => hn h.2, List.take_append_of_le_length hfull]
  · rw [if_neg fun h => hm h.1, List.drop_eq_nil_of_le, List.drop_eq_nil_of_le (by omega)]
    rw [List.length_append, List.length_singleton]
    omega

/-- **Pages that follow one another** neither overlap nor leave a gap: read until the first
empty one, they give the list from the first of them on, if they are enough for it. -/
theorem untilEmpty_eq_drop {page : β → Option (List α)} {l : List α} {n : ℕ} (hn : 0 < n)
    {bs : List β} {m : ℕ}
    (hpage : ∀ j b, bs[j]? = some b → page b = some ((l.drop (m + j * n)).take n))
    (hend : l.length ≤ m + bs.length * n) : untilEmpty page bs = some (l.drop m) := by
  induction bs generalizing m with
  | nil =>
      rw [List.drop_eq_nil_of_le (by simpa using hend)]
      rfl
  | cons b bs ih =>
      have hfirst : page b = some ((l.drop m).take n) := by simpa using hpage 0 b rfl
      rw [untilEmpty, hfirst, Option.bind_some]
      by_cases hempty : (l.drop m).take n = []
      · rw [if_pos hempty, (List.take_eq_nil_iff.mp hempty).resolve_left (Nat.ne_of_gt hn)]
      · -- What is behind the first page is read from the others.
        have hrest : untilEmpty page bs = some (l.drop (m + n)) := by
          refine ih (fun j c hc => ?_) ?_
          · rw [hpage (j + 1) c hc, Nat.succ_mul, Nat.add_assoc, Nat.add_comm n]
          · rw [List.length_cons, Nat.succ_mul] at hend
            omega
        rw [if_neg hempty, hrest, Option.map_some, ← List.drop_drop, List.take_append_drop]

end Opencode.Lib
