import Mathlib.Data.List.Infix

/-!
# Runs of a partial step function

A system is given by its step function `step : σ → α → Option σ`: a label that is
not enabled in a state, or a call that does not return, gives `none`.  A run is a
list of labels.  This module has the modalities every whole-run statement of the
development is phrased with, and their induction rules.

`Throughout` says that a predicate holds in every state a run passes through,
`Along` that every step the run takes meets a condition on the state before it, and
`AtEach` that a step that cannot be taken meets it as well.
`throughout_iff_along` is the rule behind every exact characterisation: a
predicate that a step keeps *exactly* under a condition holds throughout a run
exactly when every step of the run meets that condition.

## Main definitions

* `run step s ls` — the state after the labels `ls`.
* `Throughout step Q s ls` — `Q` holds in every state of the run, first and last
  included.
* `Along step P s ls` — every step taken meets `P`.
* `AtEach step P s ls` — every step taken or tried meets `P`.
* `run_invariant`, `run_invariant_along`, `run_total`, `run_refines` — the invariant and
  refinement rules.
-/

namespace Opencode.Lib

universe u v w
variable {σ : Type u} {α : Type v} {step : σ → α → Option σ}

/-- Take the labels in order, stopping at the first one that has no successor. -/
def run (step : σ → α → Option σ) : σ → List α → Option σ
  | s, [] => some s
  | s, a :: ls => (step s a).bind fun t => run step t ls

@[simp] theorem run_nil (s : σ) : run step s [] = some s := rfl

@[simp] theorem run_cons (s : σ) (a : α) (ls : List α) :
    run step s (a :: ls) = (step s a).bind fun t => run step t ls := rfl

theorem run_append (s : σ) (ms ls : List α) :
    run step s (ms ++ ls) = (run step s ms).bind fun t => run step t ls := by
  induction ms generalizing s with
  | nil => rfl
  | cons a ms ih => simp [ih, Option.bind_assoc]

/-- `Q` holds in every state of the run, the first and the last included. -/
def Throughout (step : σ → α → Option σ) (Q : σ → Prop) : σ → List α → Prop
  | s, [] => Q s
  | s, a :: ls => Q s ∧ ∀ t, step s a = some t → Throughout step Q t ls

/-- Every step the run takes meets the condition `P` on the state before it. -/
def Along (step : σ → α → Option σ) (P : σ → α → Prop) : σ → List α → Prop
  | _, [] => True
  | s, a :: ls => ∀ t, step s a = some t → P s a ∧ Along step P t ls

/-- Every label of the run, whether it has a successor or not, meets the condition `P` on
the state before it. -/
def AtEach (step : σ → α → Option σ) (P : σ → α → Prop) : σ → List α → Prop
  | _, [] => True
  | s, a :: ls => P s a ∧ ∀ t, step s a = some t → AtEach step P t ls

theorem atEach_congr {P P' : σ → α → Prop} (h : ∀ s a, P s a ↔ P' s a) (s : σ) (ls : List α) :
    AtEach step P s ls ↔ AtEach step P' s ls := by
  induction ls generalizing s with
  | nil => rfl
  | cons a ls ih => exact and_congr (h s a) (forall₂_congr fun t _ => ih t)

/-- A run is followed step by step, so a decidable condition is decidable along it. -/
instance decidableAlong {P : σ → α → Prop} [∀ s a, Decidable (P s a)] :
    ∀ s ls, Decidable (Along step P s ls)
  | _, [] => .isTrue trivial
  | s, a :: ls =>
      match h : step s a with
      | none => .isTrue (by simp [Along, h])
      | some t =>
          have := decidableAlong (P := P) t ls
          decidable_of_iff (P s a ∧ Along step P t ls) (by simp [Along, h])

/-- A condition on the labels alone holds along every run over such labels. -/
theorem along_of_forall {P : σ → α → Prop} {ls : List α} (h : ∀ a ∈ ls, ∀ s, P s a) (s : σ) :
    Along step P s ls := by
  induction ls generalizing s with
  | nil => trivial
  | cons a ls ih =>
      intro t _
      exact ⟨h a List.mem_cons_self s, ih (fun b hb => h b (List.mem_cons_of_mem a hb)) t⟩

theorem Along.and {P P' : σ → α → Prop} {s : σ} {ls : List α} (h : Along step P s ls)
    (h' : Along step P' s ls) : Along step (fun s a => P s a ∧ P' s a) s ls := by
  induction ls generalizing s with
  | nil => trivial
  | cons a ls ih =>
      intro t ht
      exact ⟨⟨(h t ht).1, (h' t ht).1⟩, ih (h t ht).2 (h' t ht).2⟩

theorem Throughout.head {Q : σ → Prop} {s : σ} {ls : List α}
    (h : Throughout step Q s ls) : Q s := by
  cases ls with
  | nil => exact h
  | cons a ls => exact h.1

theorem Throughout.imp {Q Q' : σ → Prop} (himp : ∀ s, Q s → Q' s) {s : σ} {ls : List α}
    (h : Throughout step Q s ls) : Throughout step Q' s ls := by
  induction ls generalizing s with
  | nil => exact himp s h
  | cons a ls ih => exact ⟨himp s h.1, fun t ht => ih (h.2 t ht)⟩

theorem Throughout.and {Q Q' : σ → Prop} {s : σ} {ls : List α} (h : Throughout step Q s ls)
    (h' : Throughout step Q' s ls) : Throughout step (fun s => Q s ∧ Q' s) s ls := by
  induction ls generalizing s with
  | nil => exact ⟨h, h'⟩
  | cons a ls ih => exact ⟨⟨h.1, h'.1⟩, fun t ht => ih (h.2 t ht) (h'.2 t ht)⟩

/-- `Throughout` is a statement about the states after every initial part. -/
theorem throughout_iff {Q : σ → Prop} {s : σ} {ls : List α} :
    Throughout step Q s ls ↔ ∀ ms, ms <+: ls → ∀ t, run step s ms = some t → Q t := by
  induction ls generalizing s with
  | nil =>
      constructor
      · intro h ms hms t ht
        obtain rfl : ms = [] := List.prefix_nil.mp hms
        obtain rfl : s = t := by simpa using ht
        exact h
      · intro h
        exact h [] List.nil_prefix s rfl
  | cons a ls ih =>
      constructor
      · rintro ⟨h0, h⟩ ms hms t ht
        cases ms with
        | nil =>
            obtain rfl : s = t := by simpa using ht
            exact h0
        | cons b ms =>
            obtain ⟨rfl, hms'⟩ := List.cons_prefix_cons.mp hms
            obtain ⟨u, hu, ht⟩ := Option.bind_eq_some_iff.mp ht
            exact ih.mp (h u hu) ms hms' t ht
      · intro h
        refine ⟨h [] List.nil_prefix s rfl, ?_⟩
        intro t ht
        refine ih.mpr ?_
        intro ms hms u hu
        refine h (a :: ms) (List.cons_prefix_cons.mpr ⟨rfl, hms⟩) u ?_
        simp [ht, hu]

theorem Throughout.last {Q : σ → Prop} {s t : σ} {ls : List α} (h : Throughout step Q s ls)
    (ht : run step s ls = some t) : Q t := throughout_iff.mp h ls List.prefix_rfl t ht

/-- What a run comes to in the end refutes a predicate that does not allow it. -/
theorem not_throughout_of_end {Q R : σ → Prop} {s : σ} {ls : List α}
    (hend : ∃ t ∈ run step s ls, R t) (hR : ∀ t, R t → ¬ Q t) : ¬ Throughout step Q s ls := by
  intro h
  obtain ⟨t, ht, hRt⟩ := hend
  exact hR t hRt (h.last ht)

/-- **The invariant rule.**  What every step keeps, every run keeps. -/
theorem run_invariant {Q : σ → Prop} (hstep : ∀ s a t, Q s → step s a = some t → Q t)
    {s t : σ} {ls : List α} (h0 : Q s) (hrun : run step s ls = some t) : Q t := by
  induction ls generalizing s with
  | nil =>
      obtain rfl : s = t := by simpa using hrun
      exact h0
  | cons a ls ih =>
      obtain ⟨u, hu, hrun⟩ := Option.bind_eq_some_iff.mp hrun
      exact ih (hstep s a u h0 hu) hrun

/-- The invariant rule for a run whose steps all meet a condition. -/
theorem run_invariant_along {Q : σ → Prop} {P : σ → α → Prop}
    (hstep : ∀ s a t, Q s → P s a → step s a = some t → Q t)
    {s : σ} {ls : List α} (h0 : Q s) (h : Along step P s ls) : Throughout step Q s ls := by
  induction ls generalizing s with
  | nil => exact h0
  | cons a ls ih =>
      refine ⟨h0, ?_⟩
      intro t ht
      obtain ⟨hP, hrest⟩ := h t ht
      exact ih (hstep s a t h0 hP ht) hrest

/-- The invariant rule for a run over labels that all meet a condition. -/
theorem run_invariant_of_forall {Q : σ → Prop} {P : α → Prop}
    (hstep : ∀ s a t, Q s → P a → step s a = some t → Q t) {s t : σ} {ls : List α} (h0 : Q s)
    (hP : ∀ a ∈ ls, P a) (hrun : run step s ls = some t) : Q t :=
  (run_invariant_along (P := fun _ a => P a) hstep h0
    (along_of_forall (fun a ha _ => hP a ha) s)).last hrun

/-- What every step keeps holds in every state of a run. -/
theorem throughout_of_step {Q : σ → Prop} (hstep : ∀ s a t, Q s → step s a = some t → Q t)
    {s : σ} (h0 : Q s) (ls : List α) : Throughout step Q s ls :=
  run_invariant_along (P := fun _ _ => True) (fun s a t hQ _ => hstep s a t hQ) h0
    (along_of_forall (fun _ _ _ => trivial) s)

/-- The total form: when an invariant guarantees a successor, the run exists and
ends in the invariant. -/
theorem run_total {Q : σ → Prop} (hstep : ∀ s a, Q s → ∃ t, step s a = some t ∧ Q t)
    {s : σ} (ls : List α) (h0 : Q s) : ∃ t, run step s ls = some t ∧ Q t := by
  induction ls generalizing s with
  | nil => exact ⟨s, rfl, h0⟩
  | cons a ls ih =>
      obtain ⟨u, hu, hQ⟩ := hstep s a h0
      obtain ⟨t, ht, hQt⟩ := ih hQ
      exact ⟨t, by simp [hu, ht], hQt⟩

/-- **Refinement lifts to runs.**  If, in the states of an invariant, every step of the
list has a successor that an abstraction maps to the abstract step's result, then so has
the whole run. -/
theorem run_refines {τ : Type w} {astep : τ → α → τ} {abs : σ → τ} {I : σ → Prop}
    {ls : List α}
    (hstep : ∀ a ∈ ls, ∀ s, I s → ∃ t, step s a = some t ∧ I t ∧ abs t = astep (abs s) a)
    {s : σ} (h0 : I s) :
    ∃ t, run step s ls = some t ∧ I t ∧ abs t = ls.foldl astep (abs s) := by
  induction ls generalizing s with
  | nil => exact ⟨s, rfl, h0, rfl⟩
  | cons a ls ih =>
      obtain ⟨u, hu, hI, habs⟩ := hstep a List.mem_cons_self s h0
      obtain ⟨t, ht, hIt, habst⟩ :=
        ih (fun b hb => hstep b (List.mem_cons_of_mem a hb)) hI
      exact ⟨t, by simp [hu, ht], hIt, by rw [habst, habs, List.foldl_cons]⟩

/-- Exactness of a step condition lifts to the runs whose steps all meet a further
condition `D`, which the invariant may need as well. -/
theorem throughout_iff_along_within {I Q : σ → Prop} {D P : σ → α → Prop}
    (hinv : ∀ s a t, I s → D s a → step s a = some t → I t)
    (hstep : ∀ s a t, I s → Q s → D s a → step s a = some t → (Q t ↔ P s a))
    {s : σ} {ls : List α} (hI : I s) (h0 : Q s) (hD : Along step D s ls) :
    Throughout step Q s ls ↔ Along step P s ls := by
  induction ls generalizing s with
  | nil => exact ⟨fun _ => trivial, fun _ => h0⟩
  | cons a ls ih =>
      constructor
      · rintro ⟨-, h⟩ t ht
        obtain ⟨hd, hrest⟩ := hD t ht
        have hQ : Q t := (h t ht).head
        exact ⟨(hstep s a t hI h0 hd ht).mp hQ, (ih (hinv s a t hI hd ht) hQ hrest).mp (h t ht)⟩
      · intro h
        refine ⟨h0, ?_⟩
        intro t ht
        obtain ⟨hd, hDrest⟩ := hD t ht
        obtain ⟨hP, hrest⟩ := h t ht
        exact (ih (hinv s a t hI hd ht) ((hstep s a t hI h0 hd ht).mpr hP) hDrest).mpr hrest

/-- **Exactness lifts to runs.**  If, in the states of an invariant, a step from a state
in `Q` stays in `Q` exactly when it meets `P`, then a run from `Q` stays in `Q` exactly
when all its steps meet `P`. -/
theorem throughout_iff_along {I Q : σ → Prop} {P : σ → α → Prop}
    (hinv : ∀ s a t, I s → step s a = some t → I t)
    (hstep : ∀ s a t, I s → Q s → step s a = some t → (Q t ↔ P s a))
    {s : σ} {ls : List α} (hI : I s) (h0 : Q s) :
    Throughout step Q s ls ↔ Along step P s ls :=
  throughout_iff_along_within (D := fun _ _ => True) (fun s a t hI _ ht => hinv s a t hI ht)
    (fun s a t hI hQ _ ht => hstep s a t hI hQ ht) hI h0
    (along_of_forall (fun _ _ _ => trivial) s)

/-- A step condition that keeps an invariant and, in its states, implies another one
passes to it along a run. -/
theorem along_of_invariant {Q : σ → Prop} {P P' : σ → α → Prop}
    (hstep : ∀ s a t, Q s → P s a → step s a = some t → Q t)
    (himp : ∀ s a, Q s → P s a → P' s a)
    {s : σ} {ls : List α} (h0 : Q s) (h : Along step P s ls) : Along step P' s ls := by
  induction ls generalizing s with
  | nil => trivial
  | cons a ls ih =>
      intro t ht
      obtain ⟨hP, hrest⟩ := h t ht
      exact ⟨himp s a h0 hP, ih (hstep s a t h0 hP ht) hrest⟩

/-- Two step conditions that agree on the states of an invariant, wherever the run
meets a third one, hold along the same runs. -/
theorem along_congr {Q : σ → Prop} {D P P' : σ → α → Prop}
    (hstep : ∀ s a t, Q s → D s a → step s a = some t → Q t)
    (hiff : ∀ s a t, Q s → D s a → step s a = some t → (P s a ↔ P' s a))
    {s : σ} {ls : List α} (h0 : Q s) (hD : Along step D s ls) :
    Along step P s ls ↔ Along step P' s ls := by
  induction ls generalizing s with
  | nil => rfl
  | cons a ls ih =>
      refine forall₂_congr fun t ht => ?_
      obtain ⟨hd, hrest⟩ := hD t ht
      rw [hiff s a t h0 hd ht, ih (hstep s a t h0 hd ht) hrest]

end Opencode.Lib
