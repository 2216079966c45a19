import Opencode.Device.Module
import Opencode.Lib.History

/-!
# Commands and inputs

Operators are driven by commands and sensors by inputs.  Only `startWork` asks for the
type of the module it is called on; what keeps the two apart otherwise is that a sensor
which nobody powers on stays `inactive`, where every other command is refused.

## Main definitions

* `Unmoved` — every command to a module is refused and its state never changes.
* `Apart` — how far commands and inputs are kept apart.
* `apart` — in every run.
-/

namespace Opencode.Device

open Opencode.Lib

universe u
variable {ι : Type u} [DecidableEq ι] {σ : Modules ι} {w : Wiring ι} {calls : List (Call ι)}
  {i : ι}

/-- A command was refused. -/
def Refused (σ : Modules ι) (i : ι) (k : Command) : Prop :=
  ∃ reason, execute σ i k = (.error reason, σ)

/-- At every call of the run, the state of `i` stays and a command to `i` is refused. -/
def Unmoved (w : Wiring ι) (calls : List (Call ι)) (i : ι) : Prop :=
  ∀ before c rest, calls = before ++ c :: rest →
    (call (w.after before) c i).state = (w.after before i).state ∧
      ∀ k, c = .command i k → Refused (w.after before) i k

/-- The calls that move a module which is not powered on. -/
def Moves (c : Call ι) (i : ι) : Prop := c = .command i .powerOn ∨ c = .command i .setFault

/-- How far a run keeps commands and inputs apart. -/
structure Apart (w : Wiring ι) (calls : List (Call ι)) : Prop where
  unmoved : ∀ i, w.type i = .sensor → (Unmoved w calls i ↔ ∀ c ∈ calls, ¬ Moves c i)
  idle : ∀ i, w.type i = .sensor →
    (w.after calls i).state ≠ .working ∧ (w.after calls i).state ≠ .completed
  refuses : ∀ i, w.type i = .sensor →
    Refused (w.after calls) i .startWork ∧ Refused (w.after calls) i .finishWork
  shown : ∀ i c, (∀ v, c ≠ .input i v) →
    (call (w.after calls) c i).sensor = (w.after calls i).sensor

/-! ## One call -/

/-- What a module shows is changed by an input to it and by nothing else. -/
theorem call_sensor (σ : Modules ι) {c : Call ι} (h : ∀ v, c ≠ .input i v) :
    (call σ c i).sensor = (σ i).sensor := by
  cases c with
  | command j k => exact (execute_frame σ j k i).2.1
  | input j v =>
      have hne : i ≠ j := by
        rintro rfl
        exact h v rfl
      rw [call, refreshSensor_of_ne hne]

omit [DecidableEq ι] in
/-- An inactive module refuses everything but `powerOn` and `setFault`. -/
theorem not_allowed_of_inactive (h : (σ i).state = .inactive) {k : Command}
    (hk : ¬ Moves (.command i k) i) : ¬ k.Allowed σ i := by
  cases k <;> simp_all [Moves, Command.Allowed]

theorem call_state_of_inactive (h : (σ i).state = .inactive) {c : Call ι} (hc : ¬ Moves c i) :
    (call σ c i).state = .inactive ∧ ∀ k, c = .command i k → Refused σ i k := by
  cases c with
  | input j v => simp [call, h]
  | command j k =>
      constructor
      · rcases execute_state σ j k i with heq | ⟨rfl, hallowed, -⟩
        · exact heq.trans h
        · exact absurd hallowed (not_allowed_of_inactive h hc)
      · rintro k' ⟨⟩
        exact execute_of_not_allowed (not_allowed_of_inactive h hc)

/-- The calls that move an inactive module are accepted. -/
theorem not_refused_of_moves (h : (σ i).state = .inactive) {k : Command}
    (hk : Moves (.command i k) i) : ¬ Refused σ i k := by
  rintro ⟨reason, heq⟩
  rcases execute_cases σ i k with ⟨-, hok⟩ | ⟨hnot, -⟩
  · exact absurd (heq.symm.trans hok) (by simp)
  · rcases hk with hk | hk <;> cases hk <;> simp [Command.Allowed, h] at hnot

/-! ## Runs -/

theorem unmoved_concat_iff (c : Call ι) :
    Unmoved w (calls ++ [c]) i ↔ Unmoved w calls i ∧
      (call (w.after calls) c i).state = (w.after calls i).state ∧
      ∀ k, c = .command i k → Refused (w.after calls) i k :=
  justified_concat

/-- **A module is left alone exactly in the runs that do not move it.** -/
theorem unmoved_iff (w : Wiring ι) (calls : List (Call ι)) (i : ι) :
    Unmoved w calls i ↔ ∀ c ∈ calls, ¬ Moves c i := by
  have hboth : (Unmoved w calls i ↔ ∀ c ∈ calls, ¬ Moves c i) ∧
      ((∀ c ∈ calls, ¬ Moves c i) → (w.after calls i).state = .inactive) := by
    induction calls using List.reverseRecOn with
    | nil => exact ⟨by simp [Unmoved], fun _ => rfl⟩
    | append_singleton calls c ih =>
        obtain ⟨hiff, hinactive⟩ := ih
        simp only [List.forall_mem_append, List.forall_mem_singleton]
        rw [unmoved_concat_iff, hiff, Wiring.after_concat]
        refine ⟨and_congr_right fun hcalls => ?_, fun h => ?_⟩
        · have hstate := hinactive hcalls
          constructor
          · rintro ⟨-, hrefused⟩ hmoves
            obtain ⟨k, rfl⟩ : ∃ k, c = .command i k :=
              hmoves.elim (fun h => ⟨_, h⟩) fun h => ⟨_, h⟩
            exact not_refused_of_moves hstate hmoves (hrefused k rfl)
          · intro hc
            rw [hstate]
            exact call_state_of_inactive hstate hc
        · exact (call_state_of_inactive (hinactive h.1) h.2).1
  exact hboth.1

/-- A sensor is never working and never completed. -/
theorem sensor_idle (hi : w.type i = .sensor) (calls : List (Call ι)) :
    (w.after calls i).state ≠ .working ∧ (w.after calls i).state ≠ .completed := by
  induction calls using List.reverseRecOn with
  | nil => simp [Wiring.create]
  | append_singleton calls c ih =>
      rw [Wiring.after_concat]
      cases c with
      | input j v => simpa [call] using ih
      | command j k =>
          rcases execute_state (w.after calls) j k i with heq | ⟨rfl, hallowed, heq⟩
          · simpa [call, heq] using ih
          · have hk : k ≠ .startWork ∧ k ≠ .finishWork := by
              refine ⟨?_, ?_⟩
              · rintro rfl
                exact hallowed.1 (by simpa using hi)
              · rintro rfl
                exact ih.1 hallowed
            cases k <;> simp_all [call, Command.target]

/-- **How far commands and inputs are kept apart**, in every run. -/
theorem apart (w : Wiring ι) (calls : List (Call ι)) : Apart w calls where
  unmoved := fun i _ => unmoved_iff w calls i
  idle := fun i hi => sensor_idle hi calls
  refuses := by
    intro i hi
    refine ⟨execute_of_not_allowed fun h => ?_, execute_of_not_allowed fun h => ?_⟩
    · exact h.1 (by simpa using hi)
    · exact (sensor_idle hi calls).1 h
  shown := fun _ _ hc => call_sensor _ hc

/-- A sensor that is powered on leaves its state, and the command is accepted. -/
theorem not_unmoved_of_powerOn :
    ¬ Unmoved (⟨fun _ => .sensor, fun _ => []⟩ : Wiring Unit) [.command () .powerOn] () := by
  intro h
  exact absurd (h [] _ [] rfl).1 (by decide)

end Opencode.Device
