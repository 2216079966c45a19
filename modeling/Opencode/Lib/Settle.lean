import Mathlib.Algebra.BigOperators.Group.Finset.Basic
import Mathlib.Algebra.Order.BigOperators.Group.Finset
import Opencode.Lib.Run

/-!
# Coming to rest

Some labels of a system are its own: they carry on what has been begun.  A system comes
to rest when, however its own steps are scheduled, there are only so many of them, and
as long as it is not at rest one more can be taken.  So nothing blocks it for ever and it
does not go on for ever; what is at rest is up to the system.

Calm labels may fall between the own ones.  They begin nothing, but need not lead
anywhere either.

The rule for it is a rank that every own step lowers and no calm one raises.  A rank is
often a sum over the parties of the system, of which a step changes one.

## Main definitions

* `ComesToRest` — the property.
* `Settles` — an invariant and a rank that guarantee it.
* `Settles.comesToRest` — the rule.
* `sum_update` — the sum when one party changes.
-/

namespace Opencode.Lib

open scoped BigOperators

universe u v
variable {σ : Type u} {α : Type v} {step : σ → α → Option σ}

/-- There is a bound on the own steps of every run over own and calm labels, and such a
run ends at rest or can go on with an own step. -/
def ComesToRest (step : σ → α → Option σ) (own calm : α → Bool) (Rest : σ → Prop) (s : σ) :
    Prop :=
  ∃ n, ∀ ls t, (∀ a ∈ ls, own a ∨ calm a) → run step s ls = some t →
    ls.countP own ≤ n ∧ (Rest t ∨ ∃ a u, own a ∧ step t a = some u)

/-- In the states of an invariant every own step lowers the rank, no calm step raises
it, and one is at rest or can take an own step. -/
structure Settles (step : σ → α → Option σ) (own calm : α → Bool) (I Rest : σ → Prop)
    (rank : σ → ℕ) : Prop where
  keeps : ∀ s a t, I s → own a ∨ calm a → step s a = some t → I t
  lowers : ∀ s a t, I s → own a → step s a = some t → rank t < rank s
  calm_le : ∀ s a t, I s → calm a → step s a = some t → rank t ≤ rank s
  moves : ∀ s, I s → Rest s ∨ ∃ a t, own a ∧ step s a = some t

namespace Settles

variable {own calm : α → Bool} {I Rest : σ → Prop} {rank : σ → ℕ}

/-- The own steps of a run are paid for by the rank. -/
theorem countP_add_le (h : Settles step own calm I Rest rank) {ls : List α} {s t : σ}
    (hI : I s) (hls : ∀ a ∈ ls, own a ∨ calm a) (hrun : run step s ls = some t) :
    I t ∧ ls.countP own + rank t ≤ rank s := by
  induction ls generalizing s with
  | nil =>
      obtain rfl : s = t := by simpa using hrun
      exact ⟨hI, by simp⟩
  | cons a ls ih =>
      obtain ⟨u, hu, hrun⟩ := Option.bind_eq_some_iff.mp hrun
      obtain ⟨ha, hls⟩ := List.forall_mem_cons.mp hls
      obtain ⟨hIt, hle⟩ := ih (h.keeps s a u hI ha hu) hls hrun
      refine ⟨hIt, ?_⟩
      cases hown : own a with
      | true =>
          have hlt : rank u < rank s := h.lowers s a u hI hown hu
          rw [List.countP_cons_of_pos hown]
          omega
      | false =>
          have hle' : rank u ≤ rank s :=
            h.calm_le s a u hI (ha.resolve_left (by simp [hown])) hu
          rw [List.countP_cons_of_neg (by simp [hown])]
          omega

/-- **The rule.**  From a state of the invariant the system comes to rest, after no more
own steps than its rank there. -/
theorem comesToRest (h : Settles step own calm I Rest rank) {s : σ} (hI : I s) :
    ComesToRest step own calm Rest s := by
  refine ⟨rank s, fun ls t hls hrun => ?_⟩
  obtain ⟨hIt, hle⟩ := h.countP_add_le hI hls hrun
  exact ⟨by omega, h.moves t hIt⟩

end Settles

/-! ## Ranks that are sums -/

/-- One party of a sum changes: what it counted goes and what it counts now comes. -/
theorem sum_update {ι : Type u} {β : Type v} [DecidableEq ι] {T : Finset ι} {i : ι}
    (hi : i ∈ T) (f : β → ℕ) (g : ι → β) (b : β) :
    (∑ j ∈ T, f (Function.update g i b j)) + f (g i) = (∑ j ∈ T, f (g j)) + f b := by
  have hrest : ∑ j ∈ T.erase i, f (Function.update g i b j) = ∑ j ∈ T.erase i, f (g j) := by
    refine Finset.sum_congr rfl fun j hj => ?_
    rw [Function.update_of_ne (Finset.ne_of_mem_erase hj)]
  rw [← Finset.add_sum_erase T _ hi, ← Finset.add_sum_erase T (fun j => f (g j)) hi, hrest,
    Function.update_self]
  omega

end Opencode.Lib
