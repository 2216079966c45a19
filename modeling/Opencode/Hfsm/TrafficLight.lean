import Opencode.Hfsm.Engine
import Opencode.Lib.History
import Opencode.Lib.Reactive

/-!
# The traffic light

The light of the example goes round with its timer, and an emergency of positive priority
makes it blink from whichever state it is in.  So how it shines depends on what happened
since the last such emergency or reset only, and from that on the timers alone.

## Main definitions

* `TrafficLightState`, `TrafficEvent` — the states and the events.
* `trafficLight`, `trafficPerform` — the engine, and the calls.
* `shining` — what the light shows after some calls.
* `trafficLight_shines` — the engine shows it.
-/

namespace Opencode.Hfsm

open Opencode.Lib

/-! ## The program -/

inductive TrafficLightState
  | red | green | yellow | blinkingRed
  deriving DecidableEq

/-- The value of the enumerator. -/
def TrafficLightState.id : TrafficLightState → StateId
  | red => 0
  | green => 1
  | yellow => 2
  | blinkingRed => 3

inductive TrafficEventType
  | pedestrianRequest | timerExpired | emergencyOverride
  deriving DecidableEq

inductive TrafficEvent
  | pedestrianRequest
  | timerExpired
  | emergencyOverride (priority : Int32)

def TrafficEvent.typeInfo : TrafficEvent → TrafficEventType
  | pedestrianRequest => .pedestrianRequest
  | timerExpired => .timerExpired
  | emergencyOverride _ => .emergencyOverride

/-- The one guard and the one action, which prints. -/
inductive TrafficGuard
  | priority

inductive TrafficAction
  | printOverride

abbrev TrafficEngine :=
  StateMachineEngine TrafficEventType TrafficEvent TrafficGuard TrafficAction

abbrev TrafficEnvelope := EventEnvelope TrafficEventType TrafficEvent

def trafficGuards : TrafficGuard → TrafficEnvelope → Bool
  | .priority, evt =>
      match evt.data with
      | .emergencyOverride priority => 0 < priority
      | _ => false

/-- A rule for the timer. -/
def timerRule (src dst : TrafficLightState) :
    RuntimeTransition TrafficEventType TrafficGuard TrafficAction where
  srcId := src.id
  eventType := .timerExpired
  dstId := dst.id

/-- The rule for an emergency, from any state. -/
def emergencyRule : RuntimeTransition TrafficEventType TrafficGuard TrafficAction where
  eventType := .emergencyOverride
  dstId := TrafficLightState.blinkingRed.id
  isAny := true
  guard := some .priority
  action := some .printOverride

open TrafficLightState in
/-- The constructor of the controller. -/
def trafficLight : TrafficEngine :=
  let e : TrafficEngine := {}
  let e := [red, green, yellow, blinkingRed].foldl (fun e s => e.registerState s.id) e
  let e := e.setInitial red.id
  let e := e.addRule (timerRule red green)
  let e := e.addRule (timerRule green yellow)
  let e := e.addRule (timerRule yellow red)
  let e := e.addRule emergencyRule
  e.addRule (timerRule blinkingRed red)

inductive TrafficCall
  | handle (raw : TrafficEvent)
  | reset

/-- The result of `handle` and the callbacks; `reset` has no result. -/
abbrev TrafficAnswer :=
  Option EventResult × List (Callback TrafficEventType TrafficEvent TrafficAction)

def trafficPerform (e : TrafficEngine) : TrafficCall → TrafficAnswer × TrafficEngine
  | .handle raw =>
      let (result, moments, e') := e.handleEnvelope trafficGuards ⟨raw.typeInfo, raw, 0⟩
      ((some result, moments.flatMap e.callbacks), e')
  | .reset =>
      let (moments, e') := e.reset
      ((none, moments.flatMap e.callbacks), e')

/-! ## From state to state -/

/-- The engine in a state. -/
def trafficLightAt (s : TrafficLightState) : TrafficEngine :=
  { trafficLight with activeState := { id := s.id } }

/-- An emergency that is heard, or a reset. -/
def TrafficCall.begins : TrafficCall → Bool
  | handle (.emergencyOverride priority) => 0 < priority
  | reset => true
  | _ => false

def TrafficCall.isTimer : TrafficCall → Bool
  | handle .timerExpired => true
  | _ => false

/-- The answer does not depend on the state. -/
def TrafficCall.answer : TrafficCall → TrafficAnswer
  | handle .timerExpired => (some .handled, [])
  | handle (.emergencyOverride priority) =>
      if 0 < priority then
        (some .handled, [.action .printOverride
          ⟨.emergencyOverride, .emergencyOverride priority, 0⟩])
      else (some .unhandled, [])
  | handle .pedestrianRequest => (some .unhandled, [])
  | reset => (none, [])

/-- The next light with the timer. -/
def TrafficLightState.next : TrafficLightState → TrafficLightState
  | red => green
  | green => yellow
  | yellow | blinkingRed => red

def TrafficCall.target (s : TrafficLightState) : TrafficCall → TrafficLightState
  | handle .timerExpired => s.next
  | handle (.emergencyOverride priority) => if 0 < priority then .blinkingRed else s
  | handle .pedestrianRequest => s
  | reset => .red

/-- The guard looks at the priority, and no other rule is for an emergency. -/
theorem selectRule_emergency (s : TrafficLightState) (priority : Int32) :
    (trafficLightAt s).selectRule trafficGuards
        ⟨.emergencyOverride, .emergencyOverride priority, 0⟩ =
      if 0 < priority then some emergencyRule else none := by
  have hrules : (trafficLightAt s).rules =
      [timerRule .red .green, timerRule .green .yellow, timerRule .yellow .red, emergencyRule,
        timerRule .blinkingRed .red] := rfl
  by_cases h : 0 < priority <;>
    simp [StateMachineEngine.selectRule, hrules, StateMachineEngine.matchesRule, timerRule,
      trafficGuards, emergencyRule, h]

/-- **A call** in a state. -/
theorem trafficPerform_eq (s : TrafficLightState) (call : TrafficCall) :
    trafficPerform (trafficLightAt s) call = (call.answer, trafficLightAt (call.target s)) := by
  cases call with
  | reset => cases s <;> rfl
  | handle raw =>
      cases raw with
      | pedestrianRequest => cases s <;> rfl
      | timerExpired => cases s <;> rfl
      | emergencyOverride priority =>
          have hselect := selectRule_emergency s priority
          by_cases h : 0 < priority
          · rw [if_pos h] at hselect
            have hcalls := StateMachineEngine.callbacks_handleEnvelope hselect
            rw [StateMachineEngine.callbacks_executeTransition] at hcalls
            simp only [trafficPerform, TrafficEvent.typeInfo, hcalls, TrafficCall.answer,
              TrafficCall.target, if_pos h]
            rw [StateMachineEngine.handleEnvelope_of_some hselect]
            cases s <;> rfl
          · rw [if_neg h] at hselect
            have hdefers : (trafficLightAt s).config.deferUnhandledEvents = false := rfl
            have hunhandled := StateMachineEngine.handleEnvelope_of_none hselect
            rw [hdefers, if_neg Bool.false_ne_true] at hunhandled
            simp only [trafficPerform, TrafficEvent.typeInfo, TrafficCall.answer,
              TrafficCall.target, if_neg h, hunhandled]
            rw [StateMachineEngine.callbacks_guards fun m hm =>
              (trafficLightAt s).mem_evaluatedGuards hm]

/-- Any calls. -/
theorem trafficPerform_calls (s : TrafficLightState) (calls : List TrafficCall) :
    answers trafficPerform (trafficLightAt s) calls = calls.map TrafficCall.answer ∧
      after trafficPerform (trafficLightAt s) calls =
        trafficLightAt (calls.foldl TrafficCall.target s) := by
  induction calls generalizing s with
  | nil => exact ⟨rfl, rfl⟩
  | cons call calls ih =>
      obtain ⟨hanswers, hafter⟩ := ih (call.target s)
      rw [answers_cons, after_cons, trafficPerform_eq, hanswers, hafter]
      exact ⟨rfl, rfl⟩

/-! ## What the light shows -/

/-- The round of the light, from red on. -/
def TrafficLightState.cycle (k : ℕ) : TrafficLightState :=
  match k % 3 with
  | 0 => red
  | 1 => green
  | _ => yellow

/-- The last reset or emergency that was heard, if there was one, was an emergency. -/
def blinks (calls : List TrafficCall) : Bool :=
  match calls.reverse.find? TrafficCall.begins with
  | some (.handle _) => true
  | _ => false

/-- The timers since then. -/
def timers (calls : List TrafficCall) : ℕ :=
  (sinceLast TrafficCall.begins calls).countP TrafficCall.isTimer

/-- What the light shows: after an emergency it blinks until the next timer, and it goes
round otherwise. -/
def shining (calls : List TrafficCall) : TrafficLightState :=
  if blinks calls then
    if timers calls = 0 then .blinkingRed else .cycle (timers calls - 1)
  else .cycle (timers calls)

theorem blinks_concat (calls : List TrafficCall) (call : TrafficCall) :
    blinks (calls ++ [call]) =
      if call.begins then (match call with | .handle _ => true | .reset => false)
      else blinks calls := by
  rw [blinks, List.reverse_concat, List.find?_cons]
  cases h : call.begins with
  | false => rfl
  | true => cases call <;> rfl

theorem timers_concat (calls : List TrafficCall) (call : TrafficCall) :
    timers (calls ++ [call]) =
      if call.begins then 0 else timers calls + (if call.isTimer then 1 else 0) := by
  rw [timers, sinceLast_concat]
  split
  · rfl
  · rw [List.countP_append, List.countP_singleton]
    rfl

theorem next_cycle (k : ℕ) : (TrafficLightState.cycle k).next = .cycle (k + 1) := by
  have hk : k % 3 < 3 := Nat.mod_lt k (by decide)
  have hsucc : (k + 1) % 3 = (k % 3 + 1) % 3 := by omega
  simp only [TrafficLightState.cycle, hsucc]
  interval_cases k % 3 <;> rfl

/-- One more call. -/
theorem shining_concat (calls : List TrafficCall) (call : TrafficCall) :
    shining (calls ++ [call]) = call.target (shining calls) := by
  rw [shining, blinks_concat, timers_concat]
  cases call with
  | reset => rfl
  | handle raw =>
      cases raw with
      | pedestrianRequest => rfl
      | timerExpired =>
          simp only [TrafficCall.begins, TrafficCall.isTimer, TrafficCall.target, shining,
            Bool.false_eq_true, if_false, if_true]
          cases hblinks : blinks calls with
          | false => simp [next_cycle]
          | true =>
              by_cases hzero : timers calls = 0
              · simp [hzero]
                rfl
              · have hpred : timers calls - 1 + 1 = timers calls := by omega
                simp [hzero, next_cycle, hpred]
      | emergencyOverride priority =>
          by_cases h : 0 < priority
          · simp [TrafficCall.begins, TrafficCall.target, h]
          · simp [TrafficCall.begins, TrafficCall.isTimer, TrafficCall.target, shining, h]

/-- **What the light shows** after any calls, and what they answer. -/
theorem trafficLight_shines (calls : List TrafficCall) :
    answers trafficPerform trafficLight calls = calls.map TrafficCall.answer ∧
      (after trafficPerform trafficLight calls).currentState = (shining calls).id := by
  have hfold : calls.foldl TrafficCall.target .red = shining calls := by
    induction calls using List.reverseRecOn with
    | nil => rfl
    | append_singleton calls call ih => rw [List.foldl_concat, ih, shining_concat]
  have hstart : trafficLight = trafficLightAt .red := rfl
  obtain ⟨hanswers, hafter⟩ := trafficPerform_calls .red calls
  rw [hstart, hanswers, hafter, hfold]
  exact ⟨rfl, rfl⟩

end Opencode.Hfsm
