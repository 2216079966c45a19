import Opencode.Lib.Run

/-!
# Systems that answer every call

A system whose every call returns is a function `step : σ → α → β × σ`, from the state
and the call to the answer and the next state.  Two such systems are compared by their
answers to a sequence of calls.

## Main definitions

* `answers step s ls` — the answers to the calls `ls`, one after the other.
* `after step s ls` — the state after them.
* `answers_eq_of_related` — what a relation that every call keeps is good for.
* `answers_eq_iff_along` — when exactly the answers of two systems agree.
-/

namespace Opencode.Lib

universe u v w x
variable {σ : Type u} {τ : Type x} {α : Type v} {β : Type w}

/-- The answers to the calls, one after the other. -/
def answers (step : σ → α → β × σ) : σ → List α → List β
  | _, [] => []
  | s, a :: ls => (step s a).1 :: answers step (step s a).2 ls

/-- The state after the calls. -/
def after (step : σ → α → β × σ) : σ → List α → σ
  | s, [] => s
  | s, a :: ls => after step (step s a).2 ls

variable {step : σ → α → β × σ} {step' : τ → α → β × τ}

@[simp] theorem answers_nil (s : σ) : answers step s [] = [] := rfl

@[simp] theorem answers_cons (s : σ) (a : α) (ls : List α) :
    answers step s (a :: ls) = (step s a).1 :: answers step (step s a).2 ls := rfl

@[simp] theorem after_nil (s : σ) : after step s [] = s := rfl

@[simp] theorem after_cons (s : σ) (a : α) (ls : List α) :
    after step s (a :: ls) = after step (step s a).2 ls := rfl

theorem after_concat (s : σ) (ls : List α) (a : α) :
    after step s (ls ++ [a]) = (step (after step s ls) a).2 := by
  induction ls generalizing s with
  | nil => rfl
  | cons b ls ih => rw [List.cons_append, after_cons, after_cons, ih]

/-- What every call keeps holds after every sequence of calls. -/
theorem after_invariant {Q : σ → Prop} (hstep : ∀ s a, Q s → Q (step s a).2) {s : σ}
    (h0 : Q s) (ls : List α) : Q (after step s ls) := by
  induction ls generalizing s with
  | nil => exact h0
  | cons a ls ih => exact ih (hstep s a h0)

/-- Two systems in related states answer alike when every call is answered alike and
keeps the relation. -/
theorem answers_eq_of_related (step : σ → α → β × σ) (step' : τ → α → β × τ) {R : σ → τ → Prop}
    (hstep : ∀ s t a, R s t →
      (step s a).1 = (step' t a).1 ∧ R (step s a).2 (step' t a).2)
    {s : σ} {t : τ} (h0 : R s t) (ls : List α) :
    answers step s ls = answers step' t ls ∧ R (after step s ls) (after step' t ls) := by
  induction ls generalizing s t with
  | nil => exact ⟨rfl, h0⟩
  | cons a ls ih =>
      obtain ⟨hans, hnext⟩ := hstep s t a h0
      obtain ⟨hrest, hend⟩ := ih hnext
      exact ⟨by simp [hans, hrest], hend⟩

/-- **When two systems answer alike.**  If calls outside `D` are answered alike and keep
the relation, and calls in `D` are answered differently, then the answers to a sequence
of calls agree exactly when none of them is in `D`. -/
theorem answers_eq_iff_along {R : σ → τ → Prop} {D : σ → α → Prop}
    (hsame : ∀ s t a, R s t → ¬ D s a →
      (step s a).1 = (step' t a).1 ∧ R (step s a).2 (step' t a).2)
    (hdiffer : ∀ s t a, R s t → D s a → (step s a).1 ≠ (step' t a).1)
    {s : σ} {t : τ} (h0 : R s t) (ls : List α) :
    answers step s ls = answers step' t ls ↔
      Along (fun s a => some (step s a).2) (fun s a => ¬ D s a) s ls := by
  induction ls generalizing s t with
  | nil => exact ⟨fun _ => trivial, fun _ => rfl⟩
  | cons a ls ih =>
      by_cases hD : D s a
      · constructor
        · intro h
          exact absurd (List.cons.inj h).1 (hdiffer s t a h0 hD)
        · intro h
          exact absurd hD (h _ rfl).1
      · obtain ⟨hans, hnext⟩ := hsame s t a h0 hD
        rw [answers_cons, answers_cons, hans, List.cons.injEq, ih hnext]
        constructor
        · rintro ⟨-, h⟩ u hu
          obtain rfl := Option.some.inj hu
          exact ⟨hD, h⟩
        · intro h
          exact ⟨rfl, (h _ rfl).2⟩

end Opencode.Lib
