import Mathlib.Data.List.Dedup
import Mathlib.Data.List.DropRight

/-!
# The most recent keys

A sequence of keys, each possibly occurring many times, has for every `m` its `m` most
recent keys: the last `m` of the distinct keys in the order of their last occurrences.
One more key at the end of the sequence moves to the end of them if it is among them;
otherwise it is added, and pushes out the first of them if there are `m` already.

## Main definitions

* `recent m ks` — the `m` most recent keys of `ks`, the least recent first.
* `recent_concat_of_mem`, `recent_concat_of_lt`, `recent_concat_of_full` — one more key.
-/

namespace Opencode.Lib

universe u
variable {α : Type u} [DecidableEq α]

/-- The `m` most recent keys, in the order of their last occurrences. -/
def recent (m : ℕ) (ks : List α) : List α := ks.dedup.rtake m

@[simp] theorem recent_nil (m : ℕ) : recent m ([] : List α) = [] := by
  simp [recent]

/-- The recent keys end the list of the distinct ones, which is longer only if there are
enough of them. -/
theorem exists_dedup_eq (m : ℕ) (ks : List α) :
    ∃ older, ks.dedup = older ++ recent m ks ∧
      ((recent m ks).length = m ∨ older = [] ∧ (recent m ks).length < m) := by
  refine ⟨ks.dedup.take (ks.dedup.length - m), (List.take_append_drop _ _).symm, ?_⟩
  rw [recent, List.rtake, List.length_drop]
  rcases Nat.lt_or_ge ks.dedup.length m with h | h
  · right
    rw [Nat.sub_eq_zero_of_le h.le]
    exact ⟨List.take_zero, by omega⟩
  · left
    omega

theorem length_recent_le (m : ℕ) (ks : List α) : (recent m ks).length ≤ m := by
  obtain ⟨-, -, h | ⟨-, h⟩⟩ := exists_dedup_eq m ks
  · exact h.le
  · exact h.le

/-- One more key takes the place of its earlier occurrences. -/
theorem dedup_concat (ks : List α) (k : α) : (ks ++ [k]).dedup = ks.dedup.erase k ++ [k] := by
  induction ks with
  | nil => simp
  | cons a ks ih =>
      rw [List.cons_append]
      by_cases hk : a = k
      · subst hk
        rw [List.dedup_cons_of_mem (by simp), ih]
        by_cases ha : a ∈ ks
        · rw [List.dedup_cons_of_mem ha]
        · rw [List.dedup_cons_of_notMem ha, List.erase_cons_head,
            List.erase_of_not_mem (by simpa using ha)]
      · by_cases ha : a ∈ ks
        · rw [List.dedup_cons_of_mem (by simp [ha]), List.dedup_cons_of_mem ha, ih]
        · rw [List.dedup_cons_of_notMem (by simp [ha, hk]), List.dedup_cons_of_notMem ha, ih,
            List.erase_cons_tail (by simpa using hk), List.cons_append]

omit [DecidableEq α] in
/-- The last entries of a list that ends in as many, or consists of fewer. -/
theorem rtake_append {older l : List α} {n : ℕ} (h : l.length = n ∨ older = [] ∧ l.length ≤ n) :
    (older ++ l).rtake n = l := by
  rcases h with rfl | ⟨rfl, h⟩
  · rw [List.rtake, List.length_append, Nat.add_sub_cancel, List.drop_left]
  · rw [List.nil_append, List.rtake, Nat.sub_eq_zero_of_le h, List.drop_zero]

theorem recent_concat (n : ℕ) (ks : List α) (k : α) :
    recent (n + 1) (ks ++ [k]) = (ks.dedup.erase k).rtake n ++ [k] := by
  rw [recent, dedup_concat, List.rtake_concat_succ]

/-- A recent key moves to the end. -/
theorem recent_concat_of_mem {n : ℕ} {ks : List α} {k : α} (hk : k ∈ recent (n + 1) ks) :
    recent (n + 1) (ks ++ [k]) = (recent (n + 1) ks).erase k ++ [k] := by
  obtain ⟨older, hdedup, hlen⟩ := exists_dedup_eq (n + 1) ks
  have holder : k ∉ older := by
    have hnodup := hdedup ▸ List.nodup_dedup ks
    exact fun h => (List.disjoint_of_nodup_append hnodup) h hk
  rw [recent_concat, hdedup, List.erase_append_right _ holder, rtake_append]
  rw [List.length_erase_of_mem hk]
  rcases hlen with h | ⟨rfl, h⟩
  · exact .inl (by omega)
  · exact .inr ⟨rfl, by omega⟩

/-- Another key is added as long as there is room. -/
theorem recent_concat_of_lt {n : ℕ} {ks : List α} {k : α} (hk : k ∉ recent (n + 1) ks)
    (hlt : (recent (n + 1) ks).length < n + 1) :
    recent (n + 1) (ks ++ [k]) = recent (n + 1) ks ++ [k] := by
  obtain ⟨older, hdedup, h | ⟨rfl, -⟩⟩ := exists_dedup_eq (n + 1) ks
  · omega
  · rw [List.nil_append] at hdedup
    have hall : ([] ++ recent (n + 1) ks).rtake n = recent (n + 1) ks :=
      rtake_append (.inr ⟨rfl, by omega⟩)
    rw [recent_concat, hdedup, List.erase_of_not_mem hk, ← List.nil_append (recent (n + 1) ks),
      hall, List.nil_append]

/-- Without room, it pushes out the least recent. -/
theorem recent_concat_of_full {n : ℕ} {ks : List α} {k : α} (hk : k ∉ recent (n + 1) ks)
    (hfull : (recent (n + 1) ks).length = n + 1) :
    recent (n + 1) (ks ++ [k]) = (recent (n + 1) ks).tail ++ [k] := by
  obtain ⟨older, hdedup, -⟩ := exists_dedup_eq (n + 1) ks
  obtain ⟨a, l, hl⟩ := List.exists_cons_of_length_eq_add_one hfull
  have herase : ks.dedup.erase k = older.erase k ++ [a] ++ l := by
    rw [hl] at hk
    rw [hdedup, hl]
    by_cases holder : k ∈ older
    · rw [List.erase_append_left _ holder]
      simp
    · rw [List.erase_append_right _ holder, List.erase_of_not_mem hk,
        List.erase_of_not_mem holder]
      simp
  rw [recent_concat, herase, rtake_append (.inl ?_), hl, List.tail_cons]
  rw [hl, List.length_cons] at hfull
  omega

end Opencode.Lib
