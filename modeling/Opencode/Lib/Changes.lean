import Mathlib.Data.List.Basic

/-!
# The changes of a value

A variable is written again and again; a write that leaves it as it is is no change.
`changes` has the changes of a list of writes, each as the value before and the value
after, and `replay` follows a list of changes from a value, as long as each begins where the
one before it ended.

## Main definitions

* `changes a as` — the changes the writes `as` make to a variable that is `a`.
* `replay a cs` — the value after the changes `cs`.
* `replay_changes` — following the changes leads to the value last written.
-/

namespace Opencode.Lib

universe u v
variable {α : Type u} {β : Type v} [DecidableEq α] [DecidableEq β]

/-- The changes that the writes make, in order. -/
def changes : α → List α → List (α × α)
  | _, [] => []
  | a, b :: bs => if b = a then changes a bs else (a, b) :: changes b bs

@[simp] theorem changes_singleton_eq_nil {a b : α} : changes a [b] = [] ↔ b = a := by
  simp [changes]

/-- Later writes make their changes from the value the earlier ones left. -/
theorem changes_append (a : α) (bs cs : List α) :
    changes a (bs ++ cs) = changes a bs ++ changes (bs.getLastD a) cs := by
  induction bs generalizing a with
  | nil => rfl
  | cons b bs ih =>
      rw [List.cons_append, changes, changes, List.getLastD_cons]
      split
      · rename_i hab
        rw [ih, hab]
      · rw [ih, List.cons_append]

theorem changes_mono {a : α} {bs cs : List α} (h : bs <+: cs) :
    changes a bs <+: changes a cs := by
  obtain ⟨rest, rfl⟩ := h
  rw [changes_append]
  exact List.prefix_append _ _

/-- A change is between two of the values. -/
theorem mem_of_mem_changes {a b c : α} {bs : List α} (h : (b, c) ∈ changes a bs) :
    b ∈ a :: bs ∧ c ∈ bs := by
  induction bs generalizing a with
  | nil => cases h
  | cons d bs ih =>
      rw [changes] at h
      split at h
      · obtain ⟨hb, hc⟩ := ih h
        exact ⟨List.cons_subset_cons a (List.subset_cons_self d bs) hb, List.mem_cons_of_mem d hc⟩
      · rcases List.mem_cons.mp h with heq | h
        · obtain ⟨rfl, rfl⟩ := Prod.mk.inj heq
          exact ⟨List.mem_cons_self, List.mem_cons_self⟩
        · obtain ⟨hb, hc⟩ := ih h
          exact ⟨List.mem_cons_of_mem a hb, List.mem_cons_of_mem d hc⟩

/-- The value after the changes, if each fits the one before. -/
def replay : α → List (α × α) → Option α
  | a, [] => some a
  | a, (b, c) :: cs => if b = a then replay c cs else none

theorem replay_append (a : α) (cs ds : List (α × α)) :
    replay a (cs ++ ds) = (replay a cs).bind fun b => replay b ds := by
  induction cs generalizing a with
  | nil => rfl
  | cons c cs ih =>
      simp only [List.cons_append, replay]
      split
      · exact ih c.2
      · rfl

/-- **The changes lead to the value last written.** -/
theorem replay_changes (a : α) (bs : List α) :
    replay a (changes a bs) = some (bs.getLastD a) := by
  induction bs generalizing a with
  | nil => rfl
  | cons b bs ih =>
      rw [changes, List.getLastD_cons]
      split
      · rename_i hab
        rw [hab, ih]
      · rw [replay, if_pos rfl, ih]

/-- Changes are followed alike under other names of the values. -/
theorem replay_map {f : α → β} (hf : Function.Injective f) (a : α) (cs : List (α × α)) :
    replay (f a) (cs.map (Prod.map f f)) = (replay a cs).map f := by
  induction cs generalizing a with
  | nil => rfl
  | cons c cs ih =>
      simp only [List.map_cons, replay, Prod.map_fst, Prod.map_snd, hf.eq_iff]
      split
      · exact ih c.2
      · rfl

end Opencode.Lib
