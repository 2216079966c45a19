import Mathlib.Data.List.Chain

/-!
# Entering and leaving

A log of places being entered and left.  For each place the two alternate, starting with
an entry, when its own part of the log does; a place is occupied when its own part ends
in an entry.  Proofs about a step use only the rules for a log with one entry more.

## Main definitions

* `Mark` — a place is entered or left.
* `Alternates log` — no place is entered twice in a row, or left without being entered.
* `Occupied i log` — the place was entered and not left since.
* `Tracks log i` — entering and leaving alternate, and `i` alone is occupied.
-/

namespace Opencode.Lib

universe u
variable {ι : Type u}

/-- A place is entered or left. -/
inductive Mark (ι : Type u)
  | enter (i : ι)
  | leave (i : ι)
  deriving DecidableEq

namespace Mark

def place : Mark ι → ι
  | .enter i => i
  | .leave i => i

def isEnter : Mark ι → Bool
  | .enter _ => true
  | .leave _ => false

end Mark

variable [DecidableEq ι]

/-- The part of the log about one place: `true` for an entry. -/
def own (i : ι) (log : List (Mark ι)) : List Bool :=
  (log.filter (·.place = i)).map Mark.isEnter

/-- The place was entered and not left since. -/
def Occupied (i : ι) (log : List (Mark ι)) : Prop := (own i log).getLast?.getD false = true

/-- Entering and leaving alternate for every place; before the log, none is occupied. -/
def Alternates (log : List (Mark ι)) : Prop :=
  ∀ i, (own i log).head? ≠ some false ∧ (own i log).IsChain (· ≠ ·)

instance (i : ι) (log : List (Mark ι)) : Decidable (Occupied i log) :=
  inferInstanceAs (Decidable (_ = _))

theorem own_concat (i : ι) (log : List (Mark ι)) (m : Mark ι) :
    own i (log ++ [m]) = own i log ++ if m.place = i then [m.isEnter] else [] := by
  by_cases h : m.place = i <;> simp [own, List.filter_append, h]

@[simp] theorem not_occupied_nil (i : ι) : ¬ Occupied i [] := by
  simp [Occupied, own]

@[simp] theorem alternates_nil : Alternates ([] : List (Mark ι)) := by
  simp [Alternates, own]

/-- Only a mark of the place itself changes whether it is occupied. -/
theorem occupied_concat_iff {i : ι} {log : List (Mark ι)} {m : Mark ι} :
    Occupied i (log ++ [m]) ↔ if m.place = i then m.isEnter = true else Occupied i log := by
  rw [Occupied, own_concat]
  split
  · simp
  · simp [Occupied]

/-- Alternates, beginning with `true`. -/
def Turns (l : List Bool) : Prop := l.head? ≠ some false ∧ l.IsChain (· ≠ ·)

@[simp] theorem turns_nil : Turns [] := by simp [Turns]

/-- One more has to differ from the last one. -/
theorem turns_concat_iff {l : List Bool} {b : Bool} :
    Turns (l ++ [b]) ↔ Turns l ∧ (l.getLast?.getD false = true ↔ b = false) := by
  rw [Turns, Turns, List.isChain_append]
  rcases List.eq_nil_or_concat l with rfl | ⟨init, last, rfl⟩
  · cases b <;> simp
  · cases b <;> cases last <;> simp

/-- One more mark has to differ from the one before it at its place. -/
theorem alternates_concat_iff {log : List (Mark ι)} {m : Mark ι} :
    Alternates (log ++ [m]) ↔ Alternates log ∧ (Occupied m.place log ↔ m.isEnter = false) := by
  have hturns : ∀ log : List (Mark ι), Alternates log ↔ ∀ i, Turns (own i log) := fun _ => Iff.rfl
  rw [hturns, hturns]
  simp only [own_concat]
  constructor
  · intro h
    refine ⟨fun i => ?_, ?_⟩
    · have hi := h i
      split at hi
      · exact (turns_concat_iff.mp hi).1
      · rwa [List.append_nil] at hi
    · have hm := h m.place
      rw [if_pos rfl] at hm
      exact (turns_concat_iff.mp hm).2
  · rintro ⟨h, hm⟩ i
    split
    · rename_i hi
      subst hi
      exact turns_concat_iff.mpr ⟨h _, hm⟩
    · rw [List.append_nil]
      exact h i

/-! ## One occupied place -/

/-- Entering and leaving alternate, and this place alone is occupied. -/
def Tracks (log : List (Mark ι)) (i : ι) : Prop := Alternates log ∧ ∀ j, Occupied j log ↔ j = i

theorem tracks_enter (i : ι) : Tracks [.enter i] i := by
  constructor
  · rw [← List.nil_append [Mark.enter i], alternates_concat_iff]
    simp [Mark.isEnter]
  · intro j
    rw [← List.nil_append [Mark.enter i], occupied_concat_iff]
    simp [Mark.place, Mark.isEnter, eq_comm]

namespace Tracks

variable {log : List (Mark ι)} {i : ι}

/-- The occupied place is left and another, or the same one, entered. -/
theorem move (h : Tracks log i) (j : ι) : Tracks (log ++ [.leave i, .enter j]) j := by
  have hleft : Alternates (log ++ [.leave i]) :=
    alternates_concat_iff.mpr ⟨h.1, iff_of_true ((h.2 i).mpr rfl) rfl⟩
  have hnone (k : ι) : ¬ Occupied k (log ++ [.leave i]) := by
    rw [occupied_concat_iff, h.2 k]
    split
    · simp [Mark.isEnter]
    · rename_i hne
      exact fun hk => hne hk.symm
  rw [List.append_cons]
  constructor
  · exact alternates_concat_iff.mpr ⟨hleft, iff_of_false (hnone _) (by simp [Mark.isEnter])⟩
  · intro k
    rw [occupied_concat_iff]
    simp [Mark.place, Mark.isEnter, hnone k, eq_comm]

/-- Leaving the occupied place leaves none. -/
theorem not_leave (h : Tracks log i) (j : ι) : ¬ Tracks (log ++ [.leave i]) j := by
  rintro ⟨-, hj⟩
  have hoccupied := (hj j).mpr rfl
  rw [occupied_concat_iff, h.2 j] at hoccupied
  split at hoccupied
  · cases hoccupied
  · rename_i hne
    exact hne hoccupied.symm

/-- Entering a place without leaving the occupied one is entering it twice or being in
two. -/
theorem not_enter (h : Tracks log i) (j k : ι) : ¬ Tracks (log ++ [.enter j]) k := by
  rintro ⟨halt, hk⟩
  have hfree := (alternates_concat_iff.mp halt).2
  have hji : j ≠ i := by
    intro hji
    have := hfree.mp ((h.2 j).mpr hji)
    cases this
  have hj : j = k := (hk j).mp (occupied_concat_iff.mpr (by simp [Mark.place, Mark.isEnter]))
  have hi : i = k := by
    refine (hk i).mp (occupied_concat_iff.mpr ?_)
    simp [Mark.place, hji, (h.2 i).mpr rfl]
  exact hji (hj.trans hi.symm)

end Tracks

end Opencode.Lib
