import Mathlib
import Opencode.Stage.Pipeline

/-!
# The words of a run

What a run of the pipeline does is a word over its events.  `Word` is the language of
the words a configuration allows: some stages of the vector in order, the last of them
possibly throwing, then the cleanup once, then the setting of `done_`.  `At` says what
a run in progress has produced when its worker is at a given point, and every such
word is the beginning of a complete one.

## Main definitions

* `events r log` — what run `r` did.
* `Word cfg W` — the complete words of a run with configuration `cfg`.
* `At cfg w evs` — the words of a run whose worker is at `w`.
-/

namespace Opencode.Stage

variable {St C X Tid : Type}

/-- What run `r` did. -/
def events (r : ℕ) (log : List (Entry St C X Tid)) : List (RunEvent St C X) :=
  log.filterMap fun
    | .event k e => if k = r then some e else none
    | _ => none

@[simp] theorem events_nil (r : ℕ) : events r ([] : List (Entry St C X Tid)) = [] := rfl

@[simp] theorem events_append (r : ℕ) (log log' : List (Entry St C X Tid)) :
    events r (log ++ log') = events r log ++ events r log' := by
  simp [events]

@[simp] theorem events_event (r k : ℕ) (e : RunEvent St C X) :
    events r [(.event k e : Entry St C X Tid)] = if k = r then [e] else [] := by
  by_cases h : k = r <;> simp [events, h]

@[simp] theorem events_reset (r k : ℕ) :
    events r [(.reset k : Entry St C X Tid)] = [] := rfl

@[simp] theorem events_startReturned (r k : ℕ) :
    events r [(.startReturned k : Entry St C X Tid)] = [] := rfl

@[simp] theorem events_stopRequested (r : ℕ) :
    events r [(.stopRequested : Entry St C X Tid)] = [] := rfl

@[simp] theorem events_waitReturned (r : ℕ) (t : Tid) (called : Option ℕ) (x : Option X) :
    events r [(.waitReturned t called x : Entry St C X Tid)] = [] := rfl

/-! ## The words of a run -/

/-- Stages that are called and return, one after the other. -/
def completed (ss : List St) : List (RunEvent St C X) :=
  ss.flatMap fun st => [.began st, .ended st]

/-- What the loop does: every stage, or the first `j` because of a stop request, or
the first `j` and one more that throws.  The flag is `aborted`. -/
inductive Stages (steps : List St) : Bool → List (RunEvent St C X) → Prop
  | all : Stages steps false (completed steps)
  | stopped {j : ℕ} : 0 < j → j ≤ steps.length → Stages steps true (completed (steps.take j))
  | threw {j : ℕ} {st : St} {x : X} : steps[j]? = some st →
      Stages steps true (completed (steps.take j) ++ [.began st, .threw st x])

/-- What the cleanup does: nothing when there is none, else one call, with the flag. -/
inductive Cleaned : Option C → Bool → List (RunEvent St C X) → Prop
  | absent {aborted : Bool} : Cleaned none aborted []
  | ended {c : C} {aborted : Bool} :
      Cleaned (some c) aborted [.cleanupBegan c aborted, .cleanupEnded]
  | threw {c : C} {aborted : Bool} {x : X} :
      Cleaned (some c) aborted [.cleanupBegan c aborted, .cleanupThrew x]

/-- The complete words of a run: the stages, the cleanup, and `done_` last. -/
def Word (cfg : Config St C) (W : List (RunEvent St C X)) : Prop :=
  ∃ aborted body tail, Stages cfg.1 aborted body ∧ Cleaned cfg.2 aborted tail ∧
    W = body ++ tail ++ [.finished]

@[simp] theorem completed_nil : completed ([] : List St) = ([] : List (RunEvent St C X)) := rfl

/-- One stage more. -/
theorem completed_take_succ {steps : List St} {i : ℕ} {st : St} (h : steps[i]? = some st) :
    (completed (steps.take (i + 1)) : List (RunEvent St C X)) =
      completed (steps.take i) ++ [.began st, .ended st] := by
  simp [completed, List.take_add_one, h]

theorem completed_take_isPrefix (steps : List St) (i : ℕ) :
    (completed (steps.take i) : List (RunEvent St C X)) <+: completed steps := by
  refine ⟨completed (steps.drop i), ?_⟩
  rw [completed, completed, ← List.flatMap_append, List.take_append_drop, completed]

theorem finished_notMem_completed (ss : List St) :
    (.finished : RunEvent St C X) ∉ completed ss := by
  simp [completed]

theorem Stages.finished_notMem {steps : List St} {aborted : Bool}
    {body : List (RunEvent St C X)} (h : Stages steps aborted body) : .finished ∉ body := by
  cases h with
  | all => exact finished_notMem_completed steps
  | stopped _ _ => exact finished_notMem_completed _
  | threw _ => simp [finished_notMem_completed]

theorem Cleaned.finished_notMem {cleanup : Option C} {aborted : Bool}
    {tail : List (RunEvent St C X)} (h : Cleaned cleanup aborted tail) : .finished ∉ tail := by
  cases h <;> simp

/-- Every flag can be cleaned up after. -/
theorem exists_cleaned (cleanup : Option C) (aborted : Bool) :
    ∃ tail : List (RunEvent St C X), Cleaned cleanup aborted tail := by
  cases cleanup with
  | none => exact ⟨_, .absent⟩
  | some c => exact ⟨_, .ended⟩

theorem Word.finished_mem {cfg : Config St C} {W : List (RunEvent St C X)} (h : Word cfg W) :
    .finished ∈ W := by
  obtain ⟨_, body, tail, -, -, rfl⟩ := h
  simp

/-- What the loop has done can be completed. -/
theorem Stages.exists_word {cfg : Config St C} {aborted : Bool}
    {body : List (RunEvent St C X)} (h : Stages cfg.1 aborted body) :
    ∃ W, Word cfg W ∧ body <+: W := by
  obtain ⟨tail, htail⟩ := exists_cleaned cfg.2 aborted
  exact ⟨_, ⟨aborted, body, tail, h, htail, rfl⟩, ⟨tail ++ [RunEvent.finished], by simp⟩⟩

theorem exists_word_of_prefix_completed {cfg : Config St C} {evs : List (RunEvent St C X)}
    (h : evs <+: completed cfg.1) : ∃ W, Word cfg W ∧ evs <+: W := by
  obtain ⟨W, hW, hpre⟩ := Stages.exists_word (.all : Stages cfg.1 false _)
  exact ⟨W, hW, h.trans hpre⟩

/-! ## The words of a run in progress -/

/-- What a run has produced when its worker is at the given point. -/
def At (cfg : Config St C) : Worker St X → List (RunEvent St C X) → Prop
  | .head i, evs => i ≤ cfg.1.length ∧ evs = completed (cfg.1.take i)
  | .call i, evs => i < cfg.1.length ∧ evs = completed (cfg.1.take i)
  | .inStage i st, evs => cfg.1[i]? = some st ∧ evs = completed (cfg.1.take i) ++ [.began st]
  | .check i, evs => i < cfg.1.length ∧ evs = completed (cfg.1.take (i + 1))
  | .after _ aborted, evs => Stages cfg.1 aborted evs
  | .clean _ aborted, evs => Stages cfg.1 aborted evs
  | .inCleanup _ aborted, evs => ∃ c body, cfg.2 = some c ∧ Stages cfg.1 aborted body ∧
      evs = body ++ [.cleanupBegan c aborted]
  | .finish _, evs => ∃ aborted body tail, Stages cfg.1 aborted body ∧
      Cleaned cfg.2 aborted tail ∧ evs = body ++ tail
  | .notify, evs => Word cfg evs
  | .exited, evs => Word cfg evs

/-- Between two runs the word is complete. -/
theorem At.word {cfg : Config St C} {w : Worker St X} {evs : List (RunEvent St C X)}
    (h : At cfg w evs) (hw : w.active = false) : Word cfg evs := by
  cases w with
  | exited | notify => exact h
  | _ => simp [Worker.active] at hw

/-- During a run `done_` has not been set for it. -/
theorem At.finished_notMem {cfg : Config St C} {w : Worker St X}
    {evs : List (RunEvent St C X)} (h : At cfg w evs) (hw : w.active = true) :
    .finished ∉ evs := by
  cases w with
  | exited | notify => simp [Worker.active] at hw
  | head i | call i | check i =>
      obtain ⟨-, rfl⟩ := h
      exact finished_notMem_completed _
  | inStage i st =>
      obtain ⟨-, rfl⟩ := h
      simp [finished_notMem_completed]
  | after _ aborted | clean _ aborted => exact Stages.finished_notMem h
  | inCleanup _ aborted =>
      obtain ⟨c, body, -, hbody, rfl⟩ := h
      simp [hbody.finished_notMem]
  | finish _ =>
      obtain ⟨aborted, body, tail, hbody, htail, rfl⟩ := h
      simp [hbody.finished_notMem, htail.finished_notMem]

/-- What a run has produced is the beginning of a complete word. -/
theorem At.exists_word {cfg : Config St C} {w : Worker St X} {evs : List (RunEvent St C X)}
    (h : At cfg w evs) : ∃ W, Word cfg W ∧ evs <+: W := by
  cases w with
  | exited | notify => exact ⟨evs, h, List.prefix_refl evs⟩
  | head i | call i | check i =>
      obtain ⟨-, rfl⟩ := h
      exact exists_word_of_prefix_completed (completed_take_isPrefix _ _)
  | inStage i st =>
      obtain ⟨hst, rfl⟩ := h
      refine exists_word_of_prefix_completed (List.IsPrefix.trans ?_
        (completed_take_isPrefix cfg.1 (i + 1)))
      rw [completed_take_succ hst]
      exact ⟨[.ended st], by simp⟩
  | after _ aborted | clean _ aborted => exact Stages.exists_word h
  | inCleanup _ aborted =>
      obtain ⟨c, body, hc, hbody, rfl⟩ := h
      refine ⟨_, ⟨aborted, body, [.cleanupBegan c aborted, .cleanupEnded], hbody, ?_, rfl⟩,
        ⟨[.cleanupEnded, .finished], by simp⟩⟩
      rw [hc]
      exact .ended
  | finish _ =>
      obtain ⟨aborted, body, tail, hbody, htail, rfl⟩ := h
      exact ⟨_, ⟨aborted, body, tail, hbody, htail, rfl⟩, ⟨[.finished], by simp⟩⟩

end Opencode.Stage
