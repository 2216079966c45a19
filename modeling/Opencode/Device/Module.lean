import Mathlib

/-!
# Device modules

A `DeviceModule` is an operator or a sensor.  Commands move its state through a small
table of transitions, each with a guard that may look at the modules it is composed of;
an input from outside sets what a sensor shows.  A command that is not allowed returns a
reason and changes nothing.

Modules refer to each other by pointers, which may be null.  `Modules` is the store the
pointers go to.  `Wiring` is what the program sets up before the first command: types and
children, which nothing changes afterwards.

## Main definitions

* `DeviceModule`, `Modules` — the data.
* `powerOn`, `preheatDone`, `startWork`, `finishWork`, `setFault`, `reset`,
  `refreshSensor` — the operations, with `canReachReady` and `sensorOk`.
* `Allowed`, `Command.target`, `execute_eq` — what a command does.
* `Wiring.after` — the store after a sequence of calls.
-/

namespace Opencode.Device

universe u

inductive ModuleType
  | operator | sensor
  deriving DecidableEq

inductive ModuleState
  | inactive | preheating | ready | working | completed | fault
  deriving DecidableEq

inductive SensorState
  | normal | triggered | outOfRange
  deriving DecidableEq

/-- A module; `ι` are the addresses of modules. -/
structure DeviceModule (ι : Type u) where
  type : ModuleType
  state : ModuleState
  sensor : SensorState
  children : List (Option ι)

/-- The modules of the program. -/
abbrev Modules (ι : Type u) := ι → DeviceModule ι

/-- What a command returns, and the modules after it. -/
abbrev Outcome (ι : Type u) := Except String Bool × Modules ι

variable {ι : Type u} [DecidableEq ι]

namespace Modules

def setState (σ : Modules ι) (i : ι) (state : ModuleState) : Modules ι :=
  Function.update σ i { σ i with state := state }

/-- The common shape of the commands: the module moves on, or the command is refused. -/
def transition (σ : Modules ι) (i : ι) (allowed : Bool) (refusal : String)
    (next : ModuleState) : Outcome ι :=
  if allowed then (.ok true, σ.setState i next) else (.error refusal, σ)

omit [DecidableEq ι] in
/-- All children are in order: a sensor shows `normal`, any other module is ready. -/
def canReachReady (σ : Modules ι) (i : ι) : Bool :=
  (σ i).children.all fun
    | none => false
    | some c =>
        if (σ c).type = .sensor then (σ c).sensor = .normal else (σ c).state = .ready

omit [DecidableEq ι] in
/-- A sensor shows `normal` itself, any other module has no sensor that does not. -/
def sensorOk (σ : Modules ι) (i : ι) : Bool :=
  if (σ i).type = .sensor then (σ i).sensor = .normal
  else (σ i).children.all fun
    | none => true
    | some c => ¬ ((σ c).type = .sensor ∧ (σ c).sensor ≠ .normal)

def powerOn (σ : Modules ι) (i : ι) : Outcome ι :=
  σ.transition i ((σ i).state = .inactive) "非 INACTIVE 态不能上电" .preheating

def preheatDone (σ : Modules ι) (i : ι) : Outcome ι :=
  if (σ i).state ≠ .preheating then (.error "非 PREHEATING 态不能判定就绪", σ)
  else σ.transition i (σ.canReachReady i) "Guard 不满足: 子模块/传感尚未就绪" .ready

def startWork (σ : Modules ι) (i : ι) : Outcome ι :=
  if (σ i).type = .sensor then (.error "传感型模块不接受控制指令", σ)
  else if (σ i).state ≠ .ready then (.error "仅 READY 态可开工", σ)
  else σ.transition i (σ.sensorOk i) "传感条件不满足, 禁止启动" .working

def finishWork (σ : Modules ι) (i : ι) : Outcome ι :=
  σ.transition i ((σ i).state = .working) "仅 WORKING 态可完成" .completed

def setFault (σ : Modules ι) (i : ι) : Outcome ι :=
  σ.transition i ((σ i).state ≠ .fault) "已在 FAULT 态" .fault

def reset (σ : Modules ι) (i : ι) : Outcome ι :=
  σ.transition i ((σ i).state = .fault) "仅 FAULT 态需要/允许复位" .inactive

/-- The input is stored, whatever the type of the module. -/
def refreshSensor (σ : Modules ι) (i : ι) (input : SensorState) : Modules ι :=
  Function.update σ i { σ i with sensor := input }

end Modules

inductive Command
  | powerOn | preheatDone | startWork | finishWork | setFault | reset
  deriving DecidableEq

def execute (σ : Modules ι) (i : ι) : Command → Outcome ι
  | .powerOn => σ.powerOn i
  | .preheatDone => σ.preheatDone i
  | .startWork => σ.startWork i
  | .finishWork => σ.finishWork i
  | .setFault => σ.setFault i
  | .reset => σ.reset i

/-- One call from outside: a command to a module, or an input. -/
inductive Call (ι : Type u)
  | command (i : ι) (c : Command)
  | input (i : ι) (value : SensorState)
  deriving DecidableEq

/-- The modules after a call; the caller of a command may look at its result. -/
def call (σ : Modules ι) : Call ι → Modules ι
  | .command i c => (execute σ i c).2
  | .input i value => σ.refreshSensor i value

/-! ## What a command does -/

namespace Command

/-- Where a command moves a module. -/
def target : Command → ModuleState
  | powerOn => .preheating
  | preheatDone => .ready
  | startWork => .working
  | finishWork => .completed
  | setFault => .fault
  | reset => .inactive

omit [DecidableEq ι] in
/-- When a command is accepted. -/
def Allowed (σ : Modules ι) (i : ι) : Command → Prop
  | powerOn => (σ i).state = .inactive
  | preheatDone => (σ i).state = .preheating ∧ σ.canReachReady i
  | startWork => (σ i).type ≠ .sensor ∧ (σ i).state = .ready ∧ σ.sensorOk i
  | finishWork => (σ i).state = .working
  | setFault => (σ i).state ≠ .fault
  | reset => (σ i).state = .fault

end Command

variable {σ : Modules ι} {i j : ι} {c : Command}

/-- **Every command is a transition or a refusal.** -/
theorem execute_cases (σ : Modules ι) (i : ι) (c : Command) :
    (c.Allowed σ i ∧ execute σ i c = (.ok true, σ.setState i c.target)) ∨
      (¬ c.Allowed σ i ∧ ∃ reason, execute σ i c = (.error reason, σ)) := by
  cases c with
  | powerOn =>
      by_cases h : (σ i).state = .inactive <;>
        simp [execute, Modules.powerOn, Modules.transition, Command.Allowed, Command.target, h]
  | preheatDone =>
      by_cases h : (σ i).state = .preheating <;> by_cases hc : σ.canReachReady i <;>
        simp [execute, Modules.preheatDone, Modules.transition, Command.Allowed,
          Command.target, h, hc]
  | startWork =>
      by_cases ht : (σ i).type = .sensor <;> by_cases h : (σ i).state = .ready <;>
        by_cases hs : σ.sensorOk i <;>
          simp [execute, Modules.startWork, Modules.transition, Command.Allowed,
            Command.target, ht, h, hs]
  | finishWork =>
      by_cases h : (σ i).state = .working <;>
        simp [execute, Modules.finishWork, Modules.transition, Command.Allowed,
          Command.target, h]
  | setFault =>
      by_cases h : (σ i).state = .fault <;>
        simp [execute, Modules.setFault, Modules.transition, Command.Allowed, Command.target, h]
  | reset =>
      by_cases h : (σ i).state = .fault <;>
        simp [execute, Modules.reset, Modules.transition, Command.Allowed, Command.target, h]

theorem execute_of_ok (h : (execute σ i c).1 = .ok true) :
    c.Allowed σ i ∧ (execute σ i c).2 = σ.setState i c.target := by
  rcases execute_cases σ i c with ⟨hallowed, heq⟩ | ⟨-, reason, heq⟩
  · exact ⟨hallowed, by rw [heq]⟩
  · simp [heq] at h

/-- A refused command changes nothing. -/
theorem execute_of_not_allowed (h : ¬ c.Allowed σ i) :
    ∃ reason, execute σ i c = (.error reason, σ) := by
  rcases execute_cases σ i c with ⟨hallowed, -⟩ | ⟨-, hreason⟩
  · exact absurd hallowed h
  · exact hreason

section Fields

/-- A module after another one, or the module itself, moved. -/
theorem setState_apply (σ : Modules ι) (i j : ι) (s : ModuleState) :
    σ.setState i s j = { σ j with state := if j = i then s else (σ j).state } := by
  by_cases h : j = i
  · subst h
    simp [Modules.setState]
  · simp [Modules.setState, h]

/-- A module after an input to another one, or to the module itself. -/
theorem refreshSensor_apply (σ : Modules ι) (i j : ι) (v : SensorState) :
    σ.refreshSensor i v j = { σ j with sensor := if j = i then v else (σ j).sensor } := by
  by_cases h : j = i
  · subst h
    simp [Modules.refreshSensor]
  · simp [Modules.refreshSensor, h]

@[simp] theorem setState_type (σ : Modules ι) (i j : ι) (s : ModuleState) :
    (σ.setState i s j).type = (σ j).type := by
  rw [setState_apply]

@[simp] theorem setState_sensor (σ : Modules ι) (i j : ι) (s : ModuleState) :
    (σ.setState i s j).sensor = (σ j).sensor := by
  rw [setState_apply]

@[simp] theorem setState_children (σ : Modules ι) (i j : ι) (s : ModuleState) :
    (σ.setState i s j).children = (σ j).children := by
  rw [setState_apply]

theorem setState_state (σ : Modules ι) (i j : ι) (s : ModuleState) :
    (σ.setState i s j).state = if j = i then s else (σ j).state := by
  rw [setState_apply]

@[simp] theorem refreshSensor_type (σ : Modules ι) (i j : ι) (v : SensorState) :
    (σ.refreshSensor i v j).type = (σ j).type := by
  rw [refreshSensor_apply]

@[simp] theorem refreshSensor_state (σ : Modules ι) (i j : ι) (v : SensorState) :
    (σ.refreshSensor i v j).state = (σ j).state := by
  rw [refreshSensor_apply]

@[simp] theorem refreshSensor_children (σ : Modules ι) (i j : ι) (v : SensorState) :
    (σ.refreshSensor i v j).children = (σ j).children := by
  rw [refreshSensor_apply]

theorem refreshSensor_of_ne {v : SensorState} (h : j ≠ i) : σ.refreshSensor i v j = σ j :=
  Function.update_of_ne h _ _

end Fields

/-- The state of a module after a command to some module. -/
theorem execute_state (σ : Modules ι) (i : ι) (c : Command) (j : ι) :
    ((execute σ i c).2 j).state = (σ j).state ∨
      j = i ∧ c.Allowed σ i ∧ ((execute σ i c).2 j).state = c.target := by
  rcases execute_cases σ i c with ⟨hallowed, heq⟩ | ⟨-, reason, heq⟩
  · by_cases h : j = i
    · exact .inr ⟨h, hallowed, by simp [heq, setState_state, h]⟩
    · exact .inl (by simp [heq, setState_state, h])
  · exact .inl (by rw [heq])

/-- A command changes nothing but the state of its module. -/
theorem execute_frame (σ : Modules ι) (i : ι) (c : Command) (j : ι) :
    ((execute σ i c).2 j).type = (σ j).type ∧ ((execute σ i c).2 j).sensor = (σ j).sensor ∧
      ((execute σ i c).2 j).children = (σ j).children := by
  rcases execute_cases σ i c with ⟨-, heq⟩ | ⟨-, reason, heq⟩
  · simp [heq]
  · simp [heq]

/-! ## Runs -/

/-- What is set up before the first call. -/
structure Wiring (ι : Type u) where
  type : ι → ModuleType
  children : ι → List (Option ι)

namespace Wiring

variable (w : Wiring ι)

omit [DecidableEq ι] in
/-- The modules as they are constructed and composed. -/
def create : Modules ι := fun i => ⟨w.type i, .inactive, .normal, w.children i⟩

/-- The modules after a sequence of calls. -/
def after (calls : List (Call ι)) : Modules ι := calls.foldl call w.create

omit [DecidableEq ι] in
/-- `m` is a part of `i`, at any depth. -/
def Below (i m : ι) : Prop := Relation.TransGen (fun a b => some b ∈ w.children a) i m

omit [DecidableEq ι] in
/-- The modules are composed of each other as in a forest: no child is a null pointer and
no module is a part of itself. -/
structure Composed : Prop where
  nonNull : ∀ i, none ∉ w.children i
  acyclic : ∀ i, ¬ w.Below i i

variable {w} {calls : List (Call ι)}

@[simp] theorem after_nil : w.after [] = w.create := rfl

theorem after_concat (calls : List (Call ι)) (c : Call ι) :
    w.after (calls ++ [c]) = call (w.after calls) c := by
  simp [after]

/-- Types and children stay as they were wired. -/
theorem after_wired (calls : List (Call ι)) (i : ι) :
    (w.after calls i).type = w.type i ∧ (w.after calls i).children = w.children i := by
  induction calls using List.reverseRecOn with
  | nil => exact ⟨rfl, rfl⟩
  | append_singleton calls c ih =>
      rw [after_concat]
      cases c with
      | command j c =>
          obtain ⟨ht, -, hch⟩ := execute_frame (w.after calls) j c i
          exact ⟨ht.trans ih.1, hch.trans ih.2⟩
      | input j v =>
          exact ⟨(refreshSensor_type _ j i v).trans ih.1,
            (refreshSensor_children _ j i v).trans ih.2⟩

@[simp] theorem after_type (i : ι) : (w.after calls i).type = w.type i := (after_wired calls i).1

@[simp] theorem after_children (i : ι) : (w.after calls i).children = w.children i :=
  (after_wired calls i).2

end Wiring
end Opencode.Device
