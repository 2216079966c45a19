import Opencode.Hfsm.Landing
import Opencode.Lib.Reactive

/-!
# Programs around an engine

A program of the library enumerates its states, registers them all, and adds callbacks
and rules between them; the callbacks work on data of its own, and the guards look at
the event.  Around such an engine the ids do not show: it goes from state to state by
the first rule of the list that applies.

What holds of the program is shown by assertions on the states.  An assertion may speak
of the data, of the events handled since the engine was last in its initial state, the
session, of the sessions that came back to the initial state by an event, and of all events
handled so far.

## Main definitions

* `Setup`, `Setup.engine` — what a program sets up, and the engine it gets.
* `Program` — with the types of its events and what its guards and callbacks do.
* `Client`, `Client.perform` — the engine and the data, and the calls.
* `Program.Keeps`, `Program.Asserts` — assertions that the rules keep, and that hold.
* `Program.invariant` — what one rule after the other keeps holds after any calls.
-/

namespace Opencode.Hfsm

open Opencode.Lib

/-- A rule between enumerated states. -/
structure Rule (S T G A : Type) where
  src : S
  eventType : T
  dst : S
  guard : Option G := none
  action : Option A := none

def Rule.runtime {S T G A : Type} (id : S → StateId) (r : Rule S T G A) :
    RuntimeTransition T G A where
  srcId := id r.src
  eventType := r.eventType
  dstId := id r.dst
  guard := r.guard
  action := r.action

/-- What a program sets up: its states with their ids and callbacks, and its rules. -/
structure Setup (S T G A : Type) where
  id : S → StateId
  states : List S
  initial : S
  onEntry : S → Option A := fun _ => none
  onExit : S → Option A := fun _ => none
  rules : List (Rule S T G A)

namespace Setup

variable {S T D G A : Type}

/-- The states are all there, under ids of their own. -/
structure Proper (m : Setup S T G A) : Prop where
  complete : ∀ s, s ∈ m.states
  injective : Function.Injective m.id
  valid : ∀ s, m.id s ≠ invalidState

/-- The callback of each state that has one is set. -/
def setCallbacks (id : S → StateId) (callback : S → Option A) (states : List S)
    (table : AList fun _ : StateId => A) : AList fun _ : StateId => A :=
  states.foldl (fun table s => (callback s).elim table fun a => table.insert (id s) a) table

/-- The engine after the constructor of the program. -/
def engine (m : Setup S T G A) : StateMachineEngine T D G A :=
  let e := m.states.foldl (fun e s => StateMachineEngine.registerState e (m.id s)) {}
  let e := e.setInitial (m.id m.initial)
  let e := { e with
    entryActions := setCallbacks m.id m.onEntry m.states e.entryActions
    exitActions := setCallbacks m.id m.onExit m.states e.exitActions }
  m.rules.foldl (fun e r => e.addRule (r.runtime m.id)) e

/-- The engine in a state. -/
def engineAt (m : Setup S T G A) (s : S) : StateMachineEngine T D G A :=
  { m.engine with activeState := { id := m.id s } }

/-! ## The tables of the engine -/

theorem setCallbacks_lookup {id : S → StateId} (hid : Function.Injective id)
    (callback : S → Option A) (states : List S) (table : AList fun _ : StateId => A) (s : S) :
    (s ∈ states → (setCallbacks id callback states table).lookup (id s) =
        (callback s).or (table.lookup (id s))) ∧
      (s ∉ states → (setCallbacks id callback states table).lookup (id s) =
        table.lookup (id s)) := by
  induction states generalizing table with
  | nil => simp [setCallbacks]
  | cons t states ih =>
      obtain ⟨hin, hout⟩ := ih ((callback t).elim table fun a => table.insert (id t) a)
      rw [setCallbacks, List.foldl_cons, ← setCallbacks]
      by_cases hst : s = t
      · subst hst
        have hlookup : ((callback s).elim table fun a => table.insert (id s) a).lookup (id s) =
            (callback s).or (table.lookup (id s)) := by
          cases callback s <;> simp
        refine ⟨fun _ => ?_, fun h => absurd List.mem_cons_self h⟩
        by_cases hs : s ∈ states
        · refine (hin hs).trans ?_
          rw [hlookup]
          cases callback s <;> simp
        · exact (hout hs).trans hlookup
      · have hlookup : ((callback t).elim table fun a => table.insert (id t) a).lookup (id s) =
            table.lookup (id s) := by
          cases callback t with
          | none => rfl
          | some a => exact AList.lookup_insert_ne fun h => hst (hid h)
        rw [hlookup] at hin hout
        simpa [hst] using And.intro hin hout

theorem foldl_addRule (id : S → StateId) (rules : List (Rule S T G A))
    (e : StateMachineEngine T D G A) :
    rules.foldl (fun e r => e.addRule (r.runtime id)) e =
      { e with rules := e.rules ++ rules.map (Rule.runtime id) } := by
  induction rules generalizing e with
  | nil => simp
  | cons r rules ih =>
      rw [List.foldl_cons, ih]
      simp [StateMachineEngine.addRule]

/-- What registering states leaves as it is, and what it adds. -/
theorem foldl_registerState (id : S → StateId) (states : List S)
    (e : StateMachineEngine T D G A) (hkeyed : e.Keyed) :
    ∃ table, states.foldl (fun e s => e.registerState (id s)) e = { e with states := table } ∧
      (∀ i ∈ e.states, i ∈ table) ∧ (∀ s ∈ states, id s ∈ table) ∧
      StateMachineEngine.Keyed { e with states := table } := by
  induction states generalizing e with
  | nil => exact ⟨e.states, rfl, fun _ h => h, by simp, hkeyed⟩
  | cons t states ih =>
      obtain ⟨table, heq, hold, hnew, hk⟩ := ih (e.registerState (id t)) (hkeyed.registerState _)
      have hfields : ∃ table', e.registerState (id t) = { e with states := table' } ∧
          ∀ i ∈ e.states, i ∈ table' := by
        unfold StateMachineEngine.registerState
        split
        · exact ⟨e.states, rfl, fun _ h => h⟩
        · exact ⟨_, rfl, fun i hi => by simp [hi]⟩
      obtain ⟨table', heq', hold'⟩ := hfields
      have hmem := e.mem_registerState (id t)
      rw [heq'] at heq hold hk hmem
      refine ⟨table, by rw [List.foldl_cons, heq', heq], fun i hi => hold i (hold' i hi), ?_, hk⟩
      intro s hs
      rcases List.mem_cons.mp hs with rfl | hs
      · exact hold _ hmem
      · exact hnew s hs

/-- What the engine of a program is made of. -/
structure Built (m : Setup S T G A) (e : StateMachineEngine T D G A) : Prop where
  config : e.config = {}
  initial : e.initialState = m.id m.initial
  states : ∀ s, e.states.lookup (m.id s) = some { id := m.id s }
  rules : e.rules = m.rules.map (Rule.runtime m.id)
  deferred : e.deferredEvents = []
  onEntry : ∀ s, e.entryActions.lookup (m.id s) = m.onEntry s
  onExit : ∀ s, e.exitActions.lookup (m.id s) = m.onExit s

theorem Proper.built {m : Setup S T G A} (h : m.Proper) :
    m.Built (m.engine : StateMachineEngine T D G A) ∧
      (m.engine : StateMachineEngine T D G A) = m.engineAt m.initial := by
  have hkeyed : ({} : StateMachineEngine T D G A).Keyed := by
    intro id a ha
    simp at ha
  obtain ⟨table, hreg, -, hmem, hkeyed'⟩ := foldl_registerState m.id m.states _ hkeyed
  have hlookup : ∀ s, table.lookup (m.id s) = some { id := m.id s } := by
    intro s
    obtain ⟨a, ha⟩ := Option.isSome_iff_exists.mp (AList.lookup_isSome.mpr (hmem s (h.complete s)))
    rw [ha, Option.some.injEq]
    obtain ⟨id⟩ := a
    exact congrArg _ (hkeyed' _ _ ha)
  have hinit : ({ states := table } : StateMachineEngine T D G A).setInitial (m.id m.initial) =
      { states := table
        initialState := m.id m.initial
        activeState := { id := m.id m.initial } } := by
    simp [StateMachineEngine.setInitial, StateMachineEngine.registerState,
      StateMachineEngine.currentState, StateMachineEngine.activate, StateMachineEngine.stateAt,
      hlookup m.initial, hmem m.initial (h.complete m.initial)]
  have hengine : (m.engine : StateMachineEngine T D G A) =
      { states := table
        initialState := m.id m.initial
        activeState := { id := m.id m.initial }
        entryActions := setCallbacks m.id m.onEntry m.states ∅
        exitActions := setCallbacks m.id m.onExit m.states ∅
        rules := m.rules.map (Rule.runtime m.id) } := by
    rw [engine, hreg, foldl_addRule]
    simp [hinit]
  refine ⟨?_, ?_⟩
  · rw [hengine]
    refine ⟨rfl, rfl, hlookup, rfl, rfl, fun s => ?_, fun s => ?_⟩
    · simpa using (setCallbacks_lookup h.injective m.onEntry m.states ∅ s).1 (h.complete s)
    · simpa using (setCallbacks_lookup h.injective m.onExit m.states ∅ s).1 (h.complete s)
  · rw [engineAt, hengine]

/-! ## From state to state -/

/-- The first rule that applies. -/
def select [DecidableEq T] [DecidableEq S] (m : Setup S T G A)
    (guards : G → EventEnvelope T D → Bool) (evt : EventEnvelope T D) (s : S) :
    Option (Rule S T G A) :=
  m.rules.find? fun r => r.eventType = evt.typeInfo && r.src = s && r.guard.all (guards · evt)

/-- The rule the engine selects is the one of the enumerated states. -/
theorem Proper.selectRule_engineAt [DecidableEq T] [DecidableEq S] {m : Setup S T G A}
    (h : m.Proper) (guards : G → EventEnvelope T D → Bool) (evt : EventEnvelope T D) (s : S) :
    (m.engineAt s).selectRule guards evt = (m.select guards evt s).map (Rule.runtime m.id) := by
  have hrules : (m.engineAt s : StateMachineEngine T D G A).rules =
      m.rules.map (Rule.runtime m.id) := h.built.1.rules
  have hpred : ((fun rule => (m.engineAt s).matchesRule rule evt && rule.guard.all (guards · evt)) ∘
        Rule.runtime m.id) =
      fun r : Rule S T G A =>
        (r.eventType = evt.typeInfo && r.src = s && r.guard.all (guards · evt)) := by
    funext r
    rw [Bool.eq_iff_iff]
    simp only [Function.comp_apply, StateMachineEngine.matchesRule, Rule.runtime, engineAt,
      StateMachineEngine.currentState, h.injective.eq_iff, Bool.false_or, Bool.and_eq_true,
      decide_eq_true_iff]
    exact and_congr_left fun _ => and_congr_left fun _ => decide_eq_true_iff
  rw [StateMachineEngine.selectRule, hrules, List.find?_map, hpred, select]

theorem Proper.activate_engineAt {m : Setup S T G A} (h : m.Proper) (s t : S) :
    (m.engineAt s : StateMachineEngine T D G A).activate (m.id t) = m.engineAt t := by
  have hlookup : (m.engineAt s : StateMachineEngine T D G A).states.lookup (m.id t) =
      some { id := m.id t } := h.built.1.states t
  simp only [StateMachineEngine.activate, StateMachineEngine.stateAt, hlookup]
  rfl

/-- An event without a rule runs no callback and changes nothing. -/
theorem Proper.handleEnvelope_of_none [DecidableEq T] [DecidableEq S] {m : Setup S T G A}
    (h : m.Proper) {guards : G → EventEnvelope T D → Bool} {evt : EventEnvelope T D} {s : S}
    (hrule : m.select guards evt s = none) :
    ∃ run, (m.engineAt s).handleEnvelope guards evt = (.unhandled, run, m.engineAt s) ∧
      run.flatMap (m.engineAt s : StateMachineEngine T D G A).callbacks = [] := by
  have hselect := h.selectRule_engineAt guards evt s
  rw [hrule, Option.map_none] at hselect
  have hconfig : (m.engineAt s : StateMachineEngine T D G A).config = {} := h.built.1.config
  refine ⟨(m.engineAt s).evaluatedGuards guards evt, ?_, ?_⟩
  · rw [StateMachineEngine.handleEnvelope_of_none hselect, hconfig]
    rfl
  · exact StateMachineEngine.callbacks_guards fun _ hm =>
      (m.engineAt s).mem_evaluatedGuards hm

/-- The rule that applies leads to its target, past the exit of the state, the action and the
entry of the target. -/
theorem Proper.handleEnvelope_of_some [DecidableEq T] [DecidableEq S] {m : Setup S T G A}
    (h : m.Proper) {guards : G → EventEnvelope T D → Bool} {evt : EventEnvelope T D} {s : S}
    {r : Rule S T G A} (hrule : m.select guards evt s = some r) :
    ∃ run, (m.engineAt s).handleEnvelope guards evt = (.handled, run, m.engineAt r.dst) ∧
      run.flatMap (m.engineAt s : StateMachineEngine T D G A).callbacks =
        (m.onExit s).toList.map .exit ++ r.action.toList.map (.action · evt) ++
          (m.onEntry r.dst).toList.map .entry := by
  have hselect := h.selectRule_engineAt guards evt s
  rw [hrule, Option.map_some] at hselect
  refine ⟨((m.engineAt s).handleEnvelope guards evt).2.1, ?_, ?_⟩
  · rw [StateMachineEngine.handleEnvelope_of_some hselect,
      StateMachineEngine.executeTransition_snd, Rule.runtime, h.activate_engineAt]
    rfl
  · have hexit : (m.engineAt s : StateMachineEngine T D G A).exitActions.lookup
        (m.engineAt s : StateMachineEngine T D G A).currentState = m.onExit s :=
      h.built.1.onExit s
    have hentry : (m.engineAt s : StateMachineEngine T D G A).entryActions.lookup (m.id r.dst) =
        m.onEntry r.dst := h.built.1.onEntry r.dst
    rw [StateMachineEngine.callbacks_handleEnvelope hselect,
      StateMachineEngine.callbacks_executeTransition]
    simp only [StateMachineEngine.runExit, StateMachineEngine.runEntry, Rule.runtime, hexit,
      hentry, Bool.false_eq_true, if_false]

end Setup

/-! ## Programs and their calls -/

/-- A program: the types of its events, what a guard says of an event, and what a callback
does to the data, as the action of a rule or at the entry or the exit of a state. -/
structure Program (S T D G A X : Type) extends Setup S T G A where
  typeInfo : D → T
  guards : G → D → Bool
  act : A → D → X → X
  observe : A → X → X

/-- The engine with the data of the program.  Beside it, the events handled since it was
last in its initial state, those of every way back to that state by events, and all events
handled. -/
structure Client (T D G A X : Type) where
  engine : StateMachineEngine T D G A
  data : X
  session : List D := []
  sessions : List (List D) := []
  handled : List D := []

/-- The calls. -/
inductive Client.Call (D : Type)
  | handle (raw : D)
  | reset

namespace Program

variable {S T D G A X : Type} [DecidableEq T]

def runCallback (p : Program S T D G A X) (x : X) : Callback T D A → X
  | .exit cb => p.observe cb x
  | .action cb evt => p.act cb evt.data x
  | .entry cb => p.observe cb x

def handle (p : Program S T D G A X) (c : Client T D G A X) (raw : D) :
    EventResult × Client T D G A X :=
  let (result, moments, engine) :=
    c.engine.handleEnvelope (fun g evt => p.guards g evt.data) ⟨p.typeInfo raw, raw, 0⟩
  let data := (moments.flatMap c.engine.callbacks).foldl p.runCallback c.data
  if result ≠ .handled then (result, { c with engine := engine, data := data })
  else if engine.currentState = engine.initialState then
    (result, ⟨engine, data, [], c.sessions ++ [c.session ++ [raw]], c.handled ++ [raw]⟩)
  else (result, ⟨engine, data, c.session ++ [raw], c.sessions, c.handled ++ [raw]⟩)

def reset (p : Program S T D G A X) (c : Client T D G A X) : Client T D G A X :=
  let (moments, engine) := c.engine.reset
  ⟨engine, (moments.flatMap c.engine.callbacks).foldl p.runCallback c.data, [], c.sessions,
    c.handled⟩

/-- The result of `handle`; `reset` has none. -/
def perform (p : Program S T D G A X) (c : Client T D G A X) :
    Client.Call D → Option EventResult × Client T D G A X
  | .handle raw =>
      let (result, c') := p.handle c raw
      (some result, c')
  | .reset => (none, p.reset c)

omit [DecidableEq T] in
/-- The program after its constructor. -/
def start (p : Program S T D G A X) (data : X) : Client T D G A X := { engine := p.engine, data }

/-! ## Assertions on the states -/

/-- The callback of a state, if it has one. -/
def observeAt (p : Program S T D G A X) (cb : Option A) (x : X) : X :=
  cb.elim x fun a => p.observe a x

/-- What a rule does to the data. -/
def fire (p : Program S T D G A X) (r : Rule S T G A) (raw : D) (x : X) : X :=
  p.observeAt (p.onEntry r.dst)
    (r.action.elim (p.observeAt (p.onExit r.src) x) fun a =>
      p.act a raw (p.observeAt (p.onExit r.src) x))

/-- What `reset` does to the data in a state. -/
def restart [DecidableEq S] (p : Program S T D G A X) (s : S) (x : X) : X :=
  p.observeAt (p.onEntry p.initial) (if s = p.initial then x else p.observeAt (p.onExit s) x)

/-- The rule applies to the event. -/
def Applies (p : Program S T D G A X) (r : Rule S T G A) (raw : D) : Prop :=
  r.eventType = p.typeInfo raw ∧ ∀ g ∈ r.guard, p.guards g raw = true

section
omit [DecidableEq T]

theorem foldl_exit (p : Program S T D G A X) (cb : Option A) (x : X) :
    ((cb.toList.map .exit : List (Callback T D A))).foldl p.runCallback x = p.observeAt cb x := by
  cases cb <;> rfl

theorem foldl_entry (p : Program S T D G A X) (cb : Option A) (x : X) :
    ((cb.toList.map .entry : List (Callback T D A))).foldl p.runCallback x = p.observeAt cb x := by
  cases cb <;> rfl

end

variable {p : Program S T D G A X}

/-- In a state, an event is handled by a rule from that state or changes nothing. -/
theorem handle_cases [DecidableEq S] (hp : p.Proper) (c : Client T D G A X) {s : S}
    (hc : c.engine = p.engineAt s) (raw : D) :
    p.handle c raw = (.unhandled, c) ∨
      ∃ r ∈ p.rules, r.src = s ∧ p.Applies r raw ∧
        p.handle c raw =
          (.handled,
            if r.dst = p.initial then
              ⟨p.engineAt r.dst, p.fire r raw c.data, [], c.sessions ++ [c.session ++ [raw]],
                c.handled ++ [raw]⟩
            else ⟨p.engineAt r.dst, p.fire r raw c.data, c.session ++ [raw], c.sessions,
              c.handled ++ [raw]⟩) := by
  obtain ⟨engine, data, session, sessions, handled⟩ := c
  obtain rfl : engine = p.engineAt s := hc
  let guards : G → EventEnvelope T D → Bool := fun g evt => p.guards g evt.data
  let evt : EventEnvelope T D := ⟨p.typeInfo raw, raw, 0⟩
  cases hrule : p.select guards evt s with
  | none =>
      obtain ⟨run, hstep, hcalls⟩ := hp.handleEnvelope_of_none hrule
      left
      simp only [handle, guards, evt] at hstep ⊢
      rw [hstep]
      simp [hcalls]
  | some r =>
      obtain ⟨run, hstep, hcalls⟩ := hp.handleEnvelope_of_some hrule
      have hmem : r ∈ p.rules := List.mem_of_find?_eq_some hrule
      have hr := List.find?_some hrule
      simp only [Bool.and_eq_true, decide_eq_true_eq] at hr
      obtain ⟨⟨htype, hsrc⟩, hguard⟩ := hr
      have happlies : p.Applies r raw := by
        refine ⟨htype, fun g hg => ?_⟩
        rw [Option.mem_def.mp hg] at hguard
        exact hguard
      refine .inr ⟨r, hmem, hsrc, happlies, ?_⟩
      have hcurrent : ∀ t, (p.engineAt t : StateMachineEngine T D G A).currentState = p.id t :=
        fun _ => rfl
      have hinitial : ∀ t, (p.engineAt t : StateMachineEngine T D G A).initialState =
        p.id p.initial := fun _ => hp.built.1.initial
      have hdata : (run.flatMap (p.engineAt s : StateMachineEngine T D G A).callbacks).foldl
          p.runCallback data = p.fire r raw data := by
        rw [hcalls, List.foldl_append, List.foldl_append, foldl_exit, foldl_entry, fire, ← hsrc]
        cases r.action <;> rfl
      simp only [handle, guards, evt] at hstep ⊢
      rw [hstep]
      simp only [hdata, hcurrent, hinitial, hp.injective.eq_iff, ne_eq, not_true_eq_false,
        if_false]
      split <;> rfl

omit [DecidableEq T] in
theorem reset_eq [DecidableEq S] (hp : p.Proper) (c : Client T D G A X) {s : S}
    (hc : c.engine = p.engineAt s) :
    p.reset c = ⟨p.engineAt p.initial, p.restart s c.data, [], c.sessions, c.handled⟩ := by
  obtain ⟨engine, data, session, sessions, handled⟩ := c
  obtain rfl : engine = p.engineAt s := hc
  have hcurrent : ∀ t, (p.engineAt t : StateMachineEngine T D G A).currentState = p.id t :=
    fun _ => rfl
  have hinitial : (p.engineAt s : StateMachineEngine T D G A).initialState = p.id p.initial :=
    hp.built.1.initial
  have hexits : (p.engineAt s : StateMachineEngine T D G A).runExit (p.id s) =
      (p.onExit s).toList.map .exit :=
    congrArg (fun cb : Option A => cb.toList.map Callback.exit) (hp.built.1.onExit s)
  have hentries : (p.engineAt s : StateMachineEngine T D G A).runEntry (p.id p.initial) =
      (p.onEntry p.initial).toList.map .entry :=
    congrArg (fun cb : Option A => cb.toList.map Callback.entry) (hp.built.1.onEntry p.initial)
  have hdropped : ({ (p.engineAt p.initial : StateMachineEngine T D G A) with
      deferredEvents := [] } : StateMachineEngine T D G A) = p.engineAt p.initial := by
    have hdeferred : (p.engineAt p.initial : StateMachineEngine T D G A).deferredEvents = [] :=
      hp.built.1.deferred
    rw [← hdeferred]
  have hengine : (p.engineAt s : StateMachineEngine T D G A).reset.2 = p.engineAt p.initial := by
    simp only [StateMachineEngine.reset, hinitial, hp.activate_engineAt, hdropped]
  have hcalls := StateMachineEngine.callbacks_reset (e := (p.engineAt s : StateMachineEngine T D G A))
  simp only [hinitial, hp.activate_engineAt, hcurrent, hexits, hentries, ne_eq, hp.valid,
    not_false_eq_true, true_and, if_true, hp.injective.eq_iff, ite_not] at hcalls
  simp only [reset, hengine, hcalls, List.foldl_append, foldl_entry, restart]
  by_cases hs : s = p.initial
  · simp [hs]
  · simp only [hs, if_false, foldl_exit]

/-! ## What calls keep -/

section Assertions

variable [DecidableEq S]

/-- The rules and `reset` keep an assertion on the state, the data, the session, the
sessions and the events handled. -/
structure Keeps (p : Program S T D G A X)
    (I : S → X → List D → List (List D) → List D → Prop) : Prop where
  rule : ∀ r ∈ p.rules, ∀ x w ws h raw, I r.src x w ws h → p.Applies r raw →
    if r.dst = p.initial then
      I r.dst (p.fire r raw x) [] (ws ++ [w ++ [raw]]) (h ++ [raw])
    else I r.dst (p.fire r raw x) (w ++ [raw]) ws (h ++ [raw])
  reset : ∀ s x w ws h, I s x w ws h → I p.initial (p.restart s x) [] ws h

/-- The engine is in a state, and the assertion holds there. -/
def Asserts (p : Program S T D G A X) (I : S → X → List D → List (List D) → List D → Prop)
    (c : Client T D G A X) : Prop :=
  ∃ s, c.engine = p.engineAt s ∧ I s c.data c.session c.sessions c.handled

variable {I : S → X → List D → List (List D) → List D → Prop}

omit [DecidableEq T] [DecidableEq S] in
theorem asserts_start (hp : p.Proper) {x : X} (h : I p.initial x [] [] []) :
    p.Asserts I (p.start x) :=
  ⟨p.initial, hp.built.2, h⟩

omit [DecidableEq T] [DecidableEq S] in
/-- The program writes the data itself. -/
theorem Asserts.write {c : Client T D G A X} (h : p.Asserts I c) {x : X}
    {J : S → X → List D → List (List D) → List D → Prop}
    (hx : ∀ s, I s c.data c.session c.sessions c.handled →
      J s x c.session c.sessions c.handled) :
    p.Asserts J { c with data := x } := by
  obtain ⟨s, hc, hI⟩ := h
  exact ⟨s, hc, hx s hI⟩

/-- A call keeps what the rules keep. -/
theorem Asserts.perform (hp : p.Proper) (hkeeps : p.Keeps I) {c : Client T D G A X}
    (h : p.Asserts I c) (call : Client.Call D) : p.Asserts I (p.perform c call).2 := by
  obtain ⟨s, hc, hI⟩ := h
  cases call with
  | reset =>
      refine ⟨p.initial, ?_⟩
      rw [Program.perform, reset_eq hp c hc]
      exact ⟨rfl, hkeeps.reset s _ _ _ _ hI⟩
  | handle raw =>
      obtain hnone | ⟨r, hr, rfl, happlies, hsome⟩ := handle_cases hp c hc raw
      · exact ⟨s, by rw [Program.perform, hnone]; exact ⟨hc, hI⟩⟩
      · refine ⟨r.dst, ?_⟩
        have hkept := hkeeps.rule r hr _ _ _ _ raw hI happlies
        rw [Program.perform, hsome]
        by_cases hdst : r.dst = p.initial
        · rw [if_pos hdst] at hkept
          simp only [hdst, if_true] at hkept ⊢
          exact ⟨trivial, hkept⟩
        · rw [if_neg hdst] at hkept
          simp only [hdst, if_false]
          exact ⟨trivial, hkept⟩

omit [DecidableEq T] [DecidableEq S] in
theorem Asserts.currentState {c : Client T D G A X} (h : p.Asserts I c) :
    ∃ s, c.engine.currentState = p.id s ∧ I s c.data c.session c.sessions c.handled := by
  obtain ⟨s, hc, hI⟩ := h
  exact ⟨s, by rw [hc]; rfl, hI⟩

/-- **Assertions.**  What holds at the start and is kept by every rule and by `reset` holds
after any calls, and the engine is then in one of the states. -/
theorem invariant (hp : p.Proper) (x₀ : X) (hstart : I p.initial x₀ [] [] [])
    (hkeeps : p.Keeps I) (calls : List (Client.Call D)) :
    let c := after p.perform (p.start x₀) calls
    ∃ s, c.engine.currentState = p.id s ∧ I s c.data c.session c.sessions c.handled := by
  have hasserts : p.Asserts I (after p.perform (p.start x₀) calls) :=
    after_invariant (Q := p.Asserts I) (fun _ call h => h.perform hp hkeeps call)
      (asserts_start hp hstart) calls
  exact hasserts.currentState

omit [DecidableEq T] in
/-- Assertions by words: with each state come the types of the events that lead to it from
the initial one, and every rule carries a word of its source to one of its target or, back
to the initial state, to a complete one. -/
theorem keeps_of_words (words : S → List (List T)) (complete : List (List T))
    (hnil : [] ∈ words p.initial)
    (hwords : ∀ r ∈ p.rules, ∀ w ∈ words r.src,
      if r.dst = p.initial then w ++ [r.eventType] ∈ complete
      else w ++ [r.eventType] ∈ words r.dst)
    (hrule : ∀ r ∈ p.rules, ∀ x w ws h raw, w.map p.typeInfo ∈ words r.src → I r.src x w ws h →
      p.Applies r raw →
      if r.dst = p.initial then I r.dst (p.fire r raw x) [] (ws ++ [w ++ [raw]]) (h ++ [raw])
      else I r.dst (p.fire r raw x) (w ++ [raw]) ws (h ++ [raw]))
    (hreset : ∀ s x w ws h, I s x w ws h → I p.initial (p.restart s x) [] ws h) :
    p.Keeps fun s x w ws h => w.map p.typeInfo ∈ words s ∧
      (∀ v ∈ ws, v.map p.typeInfo ∈ complete) ∧ I s x w ws h where
  rule := by
    rintro r hr x w ws h raw ⟨hw, hws, hI⟩ happlies
    have hword := hwords r hr _ hw
    have hkept := hrule r hr x w ws h raw hw hI happlies
    have htype : (w ++ [raw]).map p.typeInfo = w.map p.typeInfo ++ [r.eventType] := by
      rw [List.map_append, happlies.1]
      rfl
    by_cases hdst : r.dst = p.initial
    · rw [if_pos hdst] at hword hkept
      refine (if_pos hdst).mpr ⟨by rw [hdst]; exact hnil, ?_, hkept⟩
      intro v hv
      cases List.mem_append.mp hv with
      | inl hv => exact hws v hv
      | inr hv =>
          rw [List.mem_singleton.mp hv, htype]
          exact hword
    · rw [if_neg hdst] at hword hkept
      exact (if_neg hdst).mpr ⟨by rw [htype]; exact hword, hws, hkept⟩
  reset := by
    intro s x w ws h hkept
    obtain ⟨-, hws, hI⟩ := hkept
    exact ⟨hnil, hws, hreset s x w ws h hI⟩

end Assertions

end Program
end Opencode.Hfsm
