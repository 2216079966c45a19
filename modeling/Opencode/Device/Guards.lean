import Opencode.Device.Module
import Opencode.Lib.History

/-!
# What the guards look at

`startWork` and `preheatDone` look at the children of a module and no further, and
`startWork` only at the sensors among them.  The parts of a module take commands of their
own in between, so what a guard does not look at may have changed since.

The two main results say what is known after a command that was accepted: a module that
was started has no faulty part exactly when every fault below it had been reset, and a
module that became ready is ready all the way down exactly when the guard of every part
would have been met as well: when no part further down than the children was started,
failed or triggered since it became ready.

## Main definitions

* `LeftInFault` — the last `setFault` of a module was not followed by a `reset`.
* `MadeReady`, `lastInput` — what the calls say of an operator and of a sensor.
* `NoFaultyPart`, `AllReady` — what a start and what readiness should mean.
* `noFaultyPart_iff`, `allReady_iff` — when they do.
-/

namespace Opencode.Device

open Opencode.Lib

universe u
variable {ι : Type u} [DecidableEq ι] {σ : Modules ι} {w : Wiring ι} {calls : List (Call ι)}
  {i m : ι}

/-! ## Faults -/

/-- Since the last `setFault` of the module nobody called its `reset`. -/
def LeftInFault (calls : List (Call ι)) (m : ι) : Prop :=
  ∃ before rest, calls = before ++ .command m .setFault :: rest ∧ .command m .reset ∉ rest

omit [DecidableEq ι] in
theorem leftInFault_concat_iff (c : Call ι) :
    LeftInFault (calls ++ [c]) m ↔
      c = .command m .setFault ∨ LeftInFault calls m ∧ c ≠ .command m .reset :=
  standing_concat_iff

/-- One call puts a module in the fault state, leaves it there or takes it out of it. -/
theorem call_state_eq_fault_iff (σ : Modules ι) (c : Call ι) (m : ι) :
    (call σ c m).state = .fault ↔
      c = .command m .setFault ∨ (σ m).state = .fault ∧ c ≠ .command m .reset := by
  cases c with
  | input i v => simp [call]
  | command i k =>
      by_cases him : i = m
      · subst him
        rcases execute_cases σ i k with ⟨hallowed, heq⟩ | ⟨hallowed, reason, heq⟩
        · cases k <;> simp_all [call, setState_state, Command.Allowed, Command.target]
        · cases k <;> simp_all [call, Command.Allowed]
      · have hstate : ((execute σ i k).2 m).state = (σ m).state := by
          rcases execute_state σ i k m with h | ⟨h, -⟩
          · exact h
          · exact absurd h.symm him
        simp [call, hstate, him]

/-- **A module is in the fault state exactly if its last fault was not reset.** -/
theorem state_eq_fault_iff (m : ι) : (w.after calls m).state = .fault ↔ LeftInFault calls m := by
  induction calls using List.reverseRecOn with
  | nil => simp [Wiring.create, LeftInFault]
  | append_singleton calls c ih =>
      rw [Wiring.after_concat, call_state_eq_fault_iff, leftInFault_concat_iff, ih]

/-- No part of `i` and not `i` itself is faulty, and the sensors it has show `normal`. -/
structure NoFaultyPart (w : Wiring ι) (σ : Modules ι) (i : ι) : Prop where
  state : ∀ m, m = i ∨ w.Below i m → (σ m).state ≠ .fault
  sensor : ∀ c, some c ∈ w.children i → w.type c = .sensor → (σ c).sensor = .normal

/-- The guard of `startWork` on an operator: its sensors show `normal`. -/
theorem sensor_of_sensorOk (hi : w.type i ≠ .sensor) (h : (w.after calls).sensorOk i) {c : ι}
    (hc : some c ∈ w.children i) (ht : w.type c = .sensor) :
    (w.after calls c).sensor = .normal := by
  simp only [Modules.sensorOk, Wiring.after_type, hi, if_false, Wiring.after_children,
    List.all_eq_true] at h
  simpa [ht] using h _ hc

/-- **When a started module has no faulty part.**  After any calls, a `startWork` that
succeeds leaves no faulty part exactly when, of the modules below, each fault had been
followed by a reset. -/
theorem noFaultyPart_iff (w : Wiring ι) (calls : List (Call ι)) (i : ι)
    (h : ((w.after calls).startWork i).1 = .ok true) :
    NoFaultyPart w ((w.after calls).startWork i).2 i ↔
      ∀ m, w.Below i m → ¬ LeftInFault calls m := by
  obtain ⟨⟨hi, hready, hsensor⟩, heq⟩ := execute_of_ok (c := .startWork) h
  change ((w.after calls).startWork i).2 = _ at heq
  rw [Wiring.after_type] at hi
  have hstate : ∀ m, (((w.after calls).startWork i).2 m).state = .fault ↔
      LeftInFault calls m := by
    intro m
    rw [heq, setState_state, ← state_eq_fault_iff (w := w)]
    by_cases hm : m = i <;> simp [hm, hready, Command.target]
  constructor
  · intro hno m hm hleft
    exact hno.state m (.inr hm) ((hstate m).mpr hleft)
  · intro hleft
    refine ⟨?_, ?_⟩
    · rintro m (rfl | hm)
      · simp [heq, setState_state, Command.target]
      · exact fun hfault => hleft m hm ((hstate m).mp hfault)
    · intro c hc ht
      rw [heq, setState_sensor]
      exact sensor_of_sensorOk hi hsensor hc ht

/-! ## Readiness -/

/-- What a guard asks of a part: an operator is ready, a sensor shows `normal`. -/
def InOrder (w : Wiring ι) (σ : Modules ι) (m : ι) : Prop :=
  (w.type m = .operator → (σ m).state = .ready) ∧ (w.type m = .sensor → (σ m).sensor = .normal)

/-- The module and all its parts are in order. -/
def AllReady (w : Wiring ι) (σ : Modules ι) (i : ι) : Prop :=
  ∀ m, m = i ∨ w.Below i m → InOrder w σ m

/-- `canReachReady` is a statement about the children. -/
theorem canReachReady_iff (hw : w.Composed) :
    (w.after calls).canReachReady i ↔
      ∀ c, some c ∈ w.children i → InOrder w (w.after calls) c := by
  have hchild : ∀ c, (if w.type c = .sensor then decide ((w.after calls c).sensor = .normal)
      else decide ((w.after calls c).state = .ready)) = true ↔ InOrder w (w.after calls) c := by
    intro c
    cases ht : w.type c <;> simp [InOrder, ht]
  rw [Modules.canReachReady, Wiring.after_children, List.all_eq_true]
  simp only [Wiring.after_type]
  constructor
  · intro h c hc
    exact (hchild c).mp (h (some c) hc)
  · intro h x hx
    cases x with
    | none => exact absurd hx (hw.nonNull i)
    | some c => exact (hchild c).mpr (h c hx)

/-! ## Readiness and the calls -/

/-- A call that is not refused. -/
def accepts (σ : Modules ι) : Call ι → Bool
  | .command i k => (execute σ i k).1.isOk
  | .input _ _ => true

def acceptedFrom : Modules ι → List (Call ι) → List (Call ι)
  | _, [] => []
  | σ, c :: calls =>
      if accepts σ c then c :: acceptedFrom (call σ c) calls else acceptedFrom (call σ c) calls

/-- The calls that were not refused. -/
def Wiring.accepted (w : Wiring ι) (calls : List (Call ι)) : List (Call ι) :=
  acceptedFrom w.create calls

theorem acceptedFrom_concat (σ : Modules ι) (calls : List (Call ι)) (c : Call ι) :
    acceptedFrom σ (calls ++ [c]) =
      acceptedFrom σ calls ++ if accepts (calls.foldl call σ) c then [c] else [] := by
  induction calls generalizing σ with
  | nil => rfl
  | cons d calls ih =>
      rw [List.cons_append, acceptedFrom, acceptedFrom, ih, List.foldl_cons]
      split <;> rfl

theorem Wiring.accepted_concat (w : Wiring ι) (calls : List (Call ι)) (c : Call ι) :
    w.accepted (calls ++ [c]) =
      w.accepted calls ++ if accepts (w.after calls) c then [c] else [] :=
  acceptedFrom_concat _ _ _

/-- The module became ready, and since the last time it did it was neither started nor did it
fail; `accepted` are the calls that were not refused. -/
def MadeReady (accepted : List (Call ι)) (m : ι) : Prop :=
  Standing (.command m .preheatDone) (.command m .startWork) accepted ∧
    Standing (.command m .preheatDone) (.command m .setFault) accepted

omit [DecidableEq ι] in
theorem madeReady_concat_iff (accepted : List (Call ι)) (c : Call ι) :
    MadeReady (accepted ++ [c]) m ↔
      c = .command m .preheatDone ∨
        MadeReady accepted m ∧ c ≠ .command m .startWork ∧ c ≠ .command m .setFault := by
  unfold MadeReady
  rw [standing_concat_iff, standing_concat_iff]
  tauto

/-- One call makes a module ready, leaves it so or takes it out of that state. -/
theorem call_state_eq_ready_iff (σ : Modules ι) (c : Call ι) (m : ι) :
    (call σ c m).state = .ready ↔
      if accepts σ c then
        c = .command m .preheatDone ∨
          (σ m).state = .ready ∧ c ≠ .command m .startWork ∧ c ≠ .command m .setFault
      else (σ m).state = .ready := by
  cases c with
  | input i v => simp [call, accepts]
  | command i k =>
      rcases execute_cases σ i k with ⟨hallowed, heq⟩ | ⟨hallowed, reason, heq⟩
      · have haccepts : accepts σ (.command i k) = true := by
          rw [accepts, heq]
          rfl
        rw [haccepts, if_pos rfl, call, heq, setState_state]
        by_cases him : m = i
        · subst him
          cases k <;> simp_all [Command.Allowed, Command.target]
        · simp [him, Ne.symm him]
      · have hrefused : accepts σ (.command i k) = false := by
          rw [accepts, heq]
          rfl
        rw [hrefused, if_neg Bool.false_ne_true, call, heq]

/-- **A module is ready exactly if it became ready and did not leave that state since.** -/
theorem state_eq_ready_iff (m : ι) :
    (w.after calls m).state = .ready ↔ MadeReady (w.accepted calls) m := by
  induction calls using List.reverseRecOn with
  | nil => simp [Wiring.create, Wiring.accepted, acceptedFrom, MadeReady, Standing]
  | append_singleton calls c ih =>
      rw [Wiring.after_concat, call_state_eq_ready_iff, Wiring.accepted_concat, ih]
      split
      · rw [madeReady_concat_iff]
      · rw [List.append_nil]

/-- The value of an input to a module. -/
def Call.inputTo (m : ι) : Call ι → Option SensorState
  | .input i v => if i = m then some v else none
  | .command _ _ => none

/-- The last input to a module; without one it shows `normal`. -/
def lastInput (calls : List (Call ι)) (m : ι) : SensorState :=
  (calls.filterMap (Call.inputTo m)).getLast?.getD .normal

theorem lastInput_concat (calls : List (Call ι)) (c : Call ι) :
    lastInput (calls ++ [c]) m = (c.inputTo m).getD (lastInput calls m) := by
  rw [lastInput, List.filterMap_append]
  cases h : c.inputTo m with
  | none => simp [h, lastInput]
  | some v => simp [h]

/-- **A module shows the last input to it.** -/
theorem sensor_eq_lastInput (m : ι) : (w.after calls m).sensor = lastInput calls m := by
  induction calls using List.reverseRecOn with
  | nil => rfl
  | append_singleton calls c ih =>
      rw [Wiring.after_concat, lastInput_concat, ← ih]
      cases c with
      | command i k => exact (execute_frame _ i k m).2.1
      | input i v =>
          rw [call, refreshSensor_apply]
          by_cases him : i = m
          · simp [Call.inputTo, him]
          · simp [Call.inputTo, him, Ne.symm him]

/-- What the calls ask of a part: an operator is made ready, the last input to a sensor is
`normal`. -/
def LeftInOrder (w : Wiring ι) (calls : List (Call ι)) (m : ι) : Prop :=
  (w.type m = .operator → MadeReady (w.accepted calls) m) ∧
    (w.type m = .sensor → lastInput calls m = .normal)

theorem inOrder_iff (m : ι) : InOrder w (w.after calls) m ↔ LeftInOrder w calls m := by
  rw [InOrder, LeftInOrder, state_eq_ready_iff, sensor_eq_lastInput]

/-! ## Readiness in depth -/

/-- A `preheatDone` that succeeds leaves everything ready exactly when the guard is met by
every part as well, and a sensor that is itself the module shows `normal`. -/
theorem allReady_iff_guards (hw : w.Composed)
    (h : ((w.after calls).preheatDone i).1 = .ok true) :
    AllReady w ((w.after calls).preheatDone i).2 i ↔
      (w.type i = .sensor → (w.after calls i).sensor = .normal) ∧
        ∀ m, w.Below i m → (w.after calls).canReachReady m := by
  obtain ⟨⟨-, hguard⟩, heq⟩ := execute_of_ok (c := .preheatDone) h
  change ((w.after calls).preheatDone i).2 = _ at heq
  have hne : ∀ m, w.Below i m → m ≠ i := by
    rintro m hm rfl
    exact hw.acyclic m hm
  have hpart : ∀ m, w.Below i m →
      (InOrder w ((w.after calls).preheatDone i).2 m ↔ InOrder w (w.after calls) m) := by
    intro m hm
    simp [InOrder, heq, setState_state, hne m hm]
  have hself : InOrder w ((w.after calls).preheatDone i).2 i ↔
      (w.type i = .sensor → (w.after calls i).sensor = .normal) := by
    simp [InOrder, heq, setState_state, Command.target]
  constructor
  · intro hall
    refine ⟨hself.mp (hall i (.inl rfl)), fun m hm => (canReachReady_iff hw).mpr fun c hc => ?_⟩
    have hbelow : w.Below i c := hm.tail hc
    exact (hpart c hbelow).mp (hall c (.inr hbelow))
  · rintro ⟨hsensor, hdeep⟩ m (rfl | hm)
    · exact hself.mpr hsensor
    · -- The guard that was met is the one of the module right above `m`.
      refine (hpart m hm).mpr ?_
      cases hm with
      | single hc => exact (canReachReady_iff hw).mp hguard m hc
      | tail hm hc => exact (canReachReady_iff hw).mp (hdeep _ hm) m hc

/-- **When readiness is recursive.**  After any calls, a `preheatDone` that succeeds
leaves everything ready exactly when the guard is met by every part as well, and a sensor
that is itself the module shows `normal`.  In terms of the calls: when every operator below
the children became ready and was neither started nor failed since, and the last input to
every sensor there, and to the module itself, was `normal`. -/
theorem allReady_iff (w : Wiring ι) (hw : w.Composed) (calls : List (Call ι)) (i : ι)
    (h : ((w.after calls).preheatDone i).1 = .ok true) :
    (AllReady w ((w.after calls).preheatDone i).2 i ↔
      (w.type i = .sensor → (w.after calls i).sensor = .normal) ∧
        ∀ m, w.Below i m → (w.after calls).canReachReady m) ∧
    (AllReady w ((w.after calls).preheatDone i).2 i ↔
      (w.type i = .sensor → lastInput calls i = .normal) ∧
        ∀ m c, w.Below i m → some c ∈ w.children m → LeftInOrder w calls c) := by
  refine ⟨allReady_iff_guards hw h, ?_⟩
  rw [allReady_iff_guards hw h, sensor_eq_lastInput]
  refine and_congr_right fun _ => ?_
  simp only [canReachReady_iff hw, inOrder_iff]
  exact ⟨fun hdeep m c hm hc => hdeep m hm c hc, fun hdeep m hm c hc => hdeep m c hm hc⟩

/-! ## A composite of three levels -/

/-- Three operators, each a part of the one before it. -/
def tower : Wiring (Fin 3) where
  type := fun _ => .operator
  children := fun i => if i = 0 then [some 1] else if i = 1 then [some 2] else []

theorem composed_tower : tower.Composed where
  nonNull := by decide
  acyclic := by
    intro i hi
    have hstep : ∀ a b : Fin 3, some b ∈ tower.children a → a < b := by decide
    have hlt : Relation.TransGen (fun a b : Fin 3 => a < b) i i :=
      Relation.TransGen.mono hstep i i hi
    rw [Relation.transGen_eq_self] at hlt
    exact lt_irrefl i hlt

/-- The inner modules are powered on and ready, and the outer one is powered on. -/
def preparation : List (Call (Fin 3)) :=
  [.command 2 .powerOn, .command 2 .preheatDone, .command 1 .powerOn, .command 1 .preheatDone,
    .command 0 .powerOn]

/-- Without a fault in between the tower becomes ready as a whole. -/
theorem allReady_tower : AllReady tower ((tower.after preparation).preheatDone 0).2 0 := by
  refine (allReady_iff tower composed_tower preparation 0 (by decide)).1.mpr ⟨by decide, ?_⟩
  have hall : ∀ m, (tower.after preparation).canReachReady m := by decide
  exact fun m _ => hall m

/-- The innermost module fails after the guard of the one around it was met: the outermost
one becomes ready all the same. -/
theorem not_allReady_tower :
    ((tower.after (preparation ++ [.command 2 .setFault])).preheatDone 0).1 = .ok true ∧
      ¬ AllReady tower
        ((tower.after (preparation ++ [.command 2 .setFault])).preheatDone 0).2 0 := by
  refine ⟨by decide, fun h => ?_⟩
  have houter : some 1 ∈ tower.children 0 := by decide
  have hinner : some 2 ∈ tower.children 1 := by decide
  have hbelow : tower.Below 0 2 := .tail (.single houter) hinner
  exact absurd ((h 2 (.inr hbelow)).1 rfl) (by decide)

/-- A tower without faults is started without faults. -/
theorem noFaultyPart_tower :
    NoFaultyPart tower
      ((tower.after (preparation ++ [.command 0 .preheatDone])).startWork 0).2 0 := by
  refine (noFaultyPart_iff tower (preparation ++ [Call.command 0 .preheatDone]) 0
    (by decide)).mpr fun m _ => ?_
  have hstate : ∀ m,
      (tower.after (preparation ++ [Call.command 0 .preheatDone]) m).state ≠ .fault := by
    decide
  exact fun hleft => hstate m ((state_eq_fault_iff m).mpr hleft)

/-- The child of a ready module fails, and the module is started. -/
theorem not_noFaultyPart_tower :
    ((tower.after (preparation ++ [.command 0 .preheatDone, .command 1 .setFault])).startWork
        0).1 = .ok true ∧
      ¬ NoFaultyPart tower ((tower.after
        (preparation ++ [.command 0 .preheatDone, .command 1 .setFault])).startWork 0).2 0 := by
  refine ⟨by decide, fun h => ?_⟩
  have houter : some 1 ∈ tower.children 0 := by decide
  exact absurd (h.state 1 (.inr (.single houter))) (by decide)

end Opencode.Device
