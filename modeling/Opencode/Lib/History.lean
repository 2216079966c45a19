import Mathlib.Data.List.Infix

/-!
# Histories

A ghost history is a list of entries that grows at its end.  Three kinds of statement
about it recur: that every entry was justified by the entries before it, that one entry
occurred after the last occurrence of another, and that it was not followed by another.
Each has a rule for the history with one entry more, and proofs about a step use only these
rules.  The entries after the last one of a kind have such a rule as well.

## Main definitions

* `Justified P log` — every entry stands in the relation `P` to what precedes it.
* `Since mark e log` — `e` occurs after the last `mark`.
* `Standing e clear log` — `e` occurs and no `clear` after it.
* `sinceLast p log` — the entries after the last one that satisfies `p`.
-/

namespace Opencode.Lib

universe u
variable {α : Type u}

/-- Every entry of the history stands in the relation `P` to the entries before it. -/
def Justified (P : List α → α → Prop) (log : List α) : Prop :=
  ∀ pre e post, log = pre ++ e :: post → P pre e

@[simp] theorem justified_nil (P : List α → α → Prop) : Justified P [] := by
  intro pre e post h
  simp at h

/-- A history is justified exactly when its last entry and the rest of it are. -/
@[simp] theorem justified_concat {P : List α → α → Prop} {log : List α} {a : α} :
    Justified P (log ++ [a]) ↔ Justified P log ∧ P log a := by
  constructor
  · intro h
    refine ⟨?_, h log a [] rfl⟩
    rintro pre e post rfl
    exact h pre e (post ++ [a]) (by simp)
  · rintro ⟨h, ha⟩ pre e post heq
    rcases List.eq_nil_or_concat post with rfl | ⟨post, b, rfl⟩
    · obtain ⟨rfl, hab⟩ := List.append_inj' heq rfl
      obtain rfl : a = e := by simpa using hab
      exact ha
    · rw [List.concat_eq_append, ← List.cons_append, ← List.append_assoc] at heq
      obtain ⟨hlog, -⟩ := List.append_inj' heq rfl
      exact h pre e post hlog

/-- `e` occurs in the history after the last occurrence of `mark`. -/
def Since (mark e : α) (log : List α) : Prop :=
  ∃ before after, log = before ++ mark :: after ∧ mark ∉ after ∧ e ∈ after

/-- Only the mark itself takes the property away. -/
theorem Since.concat {mark e a : α} {log : List α} (h : Since mark e log) (ha : a ≠ mark) :
    Since mark e (log ++ [a]) := by
  obtain ⟨before, after, rfl, hmark, he⟩ := h
  refine ⟨before, after ++ [a], by simp, ?_, by simp [he]⟩
  simp [hmark, ha.symm]

/-- The entry itself establishes the property, once there is a mark. -/
theorem Since.of_concat {mark e : α} {log : List α} (h : mark ∈ log) (he : e ≠ mark) :
    Since mark e (log ++ [e]) := by
  obtain ⟨after, before, hrev, hmark⟩ := List.eq_append_cons_of_mem (List.mem_reverse.mpr h)
  have hlog : log = before.reverse ++ mark :: after.reverse := by
    simpa using congrArg List.reverse hrev
  refine ⟨before.reverse, after.reverse ++ [e], by simp [hlog], ?_, by simp⟩
  simp [hmark, he.symm]

/-- `e` occurs in the history and is not followed by `clear`. -/
def Standing (e clear : α) (log : List α) : Prop :=
  ∃ before after, log = before ++ e :: after ∧ clear ∉ after

/-- The last entry establishes the property, or leaves it as it is, or takes it away. -/
theorem standing_concat_iff {e clear a : α} {log : List α} :
    Standing e clear (log ++ [a]) ↔ a = e ∨ Standing e clear log ∧ a ≠ clear := by
  constructor
  · rintro ⟨before, after, heq, hafter⟩
    rcases List.eq_nil_or_concat after with rfl | ⟨after, last, rfl⟩
    · obtain ⟨-, ha⟩ := List.append_inj' heq rfl
      exact .inl (List.singleton_inj.mp ha)
    · rw [List.concat_eq_append, ← List.cons_append, ← List.append_assoc] at heq
      obtain ⟨hlog, ha⟩ := List.append_inj' heq rfl
      obtain rfl := List.singleton_inj.mp ha
      simp only [List.concat_eq_append, List.mem_append, List.mem_singleton, not_or] at hafter
      exact .inr ⟨⟨before, after, hlog, hafter.1⟩, Ne.symm hafter.2⟩
  · rintro (rfl | ⟨⟨before, after, rfl, hafter⟩, ha⟩)
    · exact ⟨log, [], rfl, List.not_mem_nil⟩
    · refine ⟨before, after ++ [a], by simp, ?_⟩
      simp [hafter, ha.symm]

/-- The entries of the history after the last one that satisfies `p`. -/
def sinceLast (p : α → Bool) (log : List α) : List α :=
  (log.reverse.takeWhile fun a => !p a).reverse

@[simp] theorem sinceLast_nil (p : α → Bool) : sinceLast p [] = [] := rfl

@[simp] theorem sinceLast_concat (p : α → Bool) (log : List α) (a : α) :
    sinceLast p (log ++ [a]) = if p a then [] else sinceLast p log ++ [a] := by
  cases h : p a <;> simp [sinceLast, h]

theorem sinceLast_subset (p : α → Bool) (log : List α) : sinceLast p log ⊆ log := by
  intro a ha
  exact List.mem_reverse.mp ((List.takeWhile_sublist _).subset (List.mem_reverse.mp ha))

end Opencode.Lib
