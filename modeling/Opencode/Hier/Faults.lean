import Opencode.Lib.Alternation
import Opencode.Hier.StepLog

/-!
# The events about faults

A node publishes an alarm when it gets a fault and an event when the fault is cleared.
Who subscribes should learn from them when a node is at fault, and how badly.

The alarm is published whenever the node had no fault before, also if it has none after;
and the event of a fault that is cleared names the level `BLOCKING` as the one before,
whatever the fault was.

## Main definitions

* `faultEdge` — a fault that came or went in a command.
* `Watched` — a plant with the edges so far; `FaultsTold` — the events are those edges.
* `Misstates` — a command whose event is not an edge, or another one.
* `faultsTold_iff_not_misstates` — any run.
-/

namespace Opencode.Hier

open Opencode.Lib

variable {L : Layout} {height : CoreId → ℕ} {limit : ℕ} {i k m : CoreId} {c : NodeConfig}
  {σ τ : Plant} {cmd : Plant.Command}

/-! ## What is told and what happened -/

/-- What an event tells of the faults of the node, if it is about one. -/
def DomainEvent.faultOf (m : CoreId) (e : DomainEvent) : Option (EventKind × ℕ × ℕ) :=
  if (e.kind = .alarm ∨ e.kind = .faultCleared) ∧ e.moduleId = m then
    some (e.kind, e.old, e.new)
  else none

/-- What was told of the faults of the node. -/
def faultsTold (log : List Effect) (m : CoreId) : List (EventKind × ℕ × ℕ) :=
  (log.filterMap Effect.event?).filterMap (DomainEvent.faultOf m)

/-- A fault came, or went. -/
def faultEdge (a b : FaultLevel) : List (FaultLevel × FaultLevel) :=
  if a = .none ↔ b = .none then [] else [(a, b)]

/-- How an edge is to be told. -/
def tell (edge : FaultLevel × FaultLevel) : EventKind × ℕ × ℕ :=
  (if edge.1 = .none then .alarm else .faultCleared, edge.1.code, edge.2.code)

/-- The edge of a node between two plants. -/
def faultEdges (σ τ : Plant) (m : CoreId) : List (FaultLevel × FaultLevel) :=
  match σ.nodes m, τ.nodes m with
  | some n, some n' => faultEdge n.ownFault n'.ownFault
  | _, _ => []

/-- A plant with the edges of every node so far. -/
structure Watched where
  plant : Plant
  edges : CoreId → List (FaultLevel × FaultLevel) := fun _ => []

/-- A command, with the edges it makes. -/
def Watched.exec (limit : ℕ) (s : Watched) (cmd : Plant.Command) : Option Watched :=
  (Plant.exec limit s.plant cmd).map fun τ =>
    ⟨τ, fun m => s.edges m ++ faultEdges s.plant τ m⟩

/-- The events tell exactly when a fault of each severity came and when it went, and alarms
and events of cleared faults alternate, beginning with an alarm. -/
structure FaultsTold (s : Watched) : Prop where
  edges : ∀ m, faultsTold s.plant.log m = (s.edges m).map tell
  alternate : ∀ m, Turns ((faultsTold s.plant.log m).map fun e => decide (e.1 = .alarm))

/-- The command publishes an event that does not say what happens: an alarm for a fault
that is none, or a cleared warning. -/
def Misstates (σ : Plant) : Plant.Command → Prop
  | .fail id sev => sev = .none ∧ ∃ n, σ.nodes id = some n ∧ n.ownFault = .none
  | .clearFault id => ∃ n, σ.nodes id = some n ∧ n.ownFault = .alarm
  | _ => False

/-! ## One visit -/

/-- What goes wrong at a node that a command comes to. -/
def Plant.Command.misstates : Plant.Command → Progress → Prop
  | .fail _ sev, p => sev = .none ∧ p.ownFault = .none
  | .clearFault _, p => p.ownFault = .alarm
  | _, _ => False

@[simp] theorem faultEdge_self (a : FaultLevel) : faultEdge a a = [] := by simp [faultEdge]

theorem walk_ownFault (c : NodeConfig) (p : Progress) : (c.walk p).1.ownFault = p.ownFault := by
  have hsame : (p.promoteSelf c.plan).ownFault = p.ownFault := by
    unfold Progress.promoteSelf
    split <;> rfl
  rw [NodeConfig.walk_fst]
  split <;> exact hsame

/-- Walking the plan tells nothing about faults. -/
theorem faultOf_walk (c : NodeConfig) (p : Progress) :
    (c.walk p).2.filterMap (DomainEvent.faultOf m) = [] := by
  have hemit : ∀ kind old new msg, kind ≠ .alarm → kind ≠ .faultCleared →
      (c.emit kind old new msg).filterMap (DomainEvent.faultOf m) = [] := by
    intro kind old new msg halarm hcleared
    simp only [NodeConfig.emit]
    split <;> simp [DomainEvent.faultOf, halarm, hcleared]
  simp only [NodeConfig.walk]
  split <;> split <;> simp [hemit]

/-- **What a visit tells is what happens, unless it misstates it.** -/
theorem tells_iff (hsink : c.sink = true) (cmd : Plant.Command) {p : Progress}
    (hclear : ∀ id, cmd = .clearFault id → p.ownFault ≠ .none) :
    (cmd.act c p).2.filterMap (DomainEvent.faultOf c.id) =
        (faultEdge p.ownFault (cmd.act c p).1.ownFault).map tell ↔ ¬ cmd.misstates p := by
  cases cmd with
  | advance id =>
      simp [Plant.Command.act, Plant.Command.misstates, faultOf_walk, walk_ownFault]
  | startWork id => simp [Plant.Command.act, Plant.Command.misstates, Line.started]
  | finishWork id => simp [Plant.Command.act, Plant.Command.misstates, Line.finished]
  | fail id sev =>
      cases hp : p.ownFault <;> cases sev <;>
        simp [Plant.Command.act, Plant.Command.misstates, NodeConfig.fail, NodeConfig.emit, hsink,
          Progress.inFault, hp, worstOf, FaultLevel.code, faultEdge, tell, DomainEvent.faultOf]
  | clearFault id =>
      have hfault := hclear id rfl
      cases hp : p.ownFault <;>
        simp_all [Plant.Command.act, Plant.Command.misstates, NodeConfig.clearFault,
          NodeConfig.emit, FaultLevel.code, faultEdge, tell, DomainEvent.faultOf]

/-! ## One command -/

/-- A command misstates a fault if it comes to a node of which it does. -/
theorem misstates_iff (hσ : σ.layout = L) :
    Misstates σ cmd ↔ ∃ m c, L m = some c ∧ Line.Visited L σ.line.progress cmd m ∧
      cmd.misstates (σ.line.progress m) := by
  have hnode : ∀ id (P : FaultLevel → Prop), (∃ n, σ.nodes id = some n ∧ P n.ownFault) ↔
      ∃ c, L id = some c ∧ P (σ.line.progress id).ownFault := by
    intro id P
    constructor
    · rintro ⟨n, hn, hP⟩
      exact ⟨_, layout_eq_of_nodes hσ hn, by rwa [progress_of_nodes hn]⟩
    · rintro ⟨c, hc, hP⟩
      obtain ⟨n, hn, -⟩ := exists_node_of_layout hσ hc
      exact ⟨n, hn, by rwa [progress_of_nodes hn] at hP⟩
  cases cmd with
  | advance id | startWork id | finishWork id =>
      simp [Misstates, Plant.Command.misstates]
  | fail id sev =>
      simp only [Misstates, Plant.Command.misstates, Line.Visited, hnode id fun f => f = .none]
      constructor
      · rintro ⟨hsev, c, hc, hfault⟩
        exact ⟨id, c, hc, rfl, hsev, hfault⟩
      · rintro ⟨m, c, hc, rfl, hsev, hfault⟩
        exact ⟨hsev, c, hc, hfault⟩
  | clearFault id =>
      simp only [Misstates, Plant.Command.misstates, Line.Visited, hnode id fun f => f = .alarm]
      constructor
      · rintro ⟨c, hc, hfault⟩
        exact ⟨id, c, hc, ⟨rfl, by simp [hfault]⟩, hfault⟩
      · rintro ⟨m, c, hc, ⟨rfl, -⟩, hfault⟩
        exact ⟨c, hc, hfault⟩

/-- **One command tells its edges exactly when it does not misstate a fault.** -/
theorem told_step (hw : Wired L height limit) (hsink : ∀ i c, L i = some c → c.sink = true)
    (hσ : σ.layout = L) (hτ : τ.layout = L) (hline : τ.line = Line.exec L limit σ.line cmd)
    {edges : CoreId → List (FaultLevel × FaultLevel)}
    (hs : ∀ m, faultsTold σ.log m = (edges m).map tell) :
    (∀ m, faultsTold τ.log m = (edges m ++ faultEdges σ τ m).map tell) ↔ ¬ Misstates σ cmd := by
  rw [misstates_iff hσ]
  refine tells_exec_iff (fun _ p p' => faultEdge p.ownFault p'.ownFault)
    (fun _ p => faultEdge_self p.ownFault) hw hσ hτ hline
    (fun m e he => by simp [DomainEvent.faultOf, he]) (fun m c hm hvisit => ?_) hs
  have hclear : ∀ id, cmd = .clearFault id → (σ.line.progress m).ownFault ≠ .none := by
    rintro id rfl
    rw [hvisit.1]
    exact hvisit.2
  have htells := tells_iff (hsink m c hm) cmd hclear
  rwa [hw.id_eq m c hm] at htells

/-! ## Any run -/

namespace Watched

/-- The edges of a node, as fault coming (`true`) and going. -/
def rises (s : Watched) (m : CoreId) : List Bool := (s.edges m).map fun e => decide (e.1 = .none)

/-- What holds of a deployed plant with its edges after any commands: the edges of every
node alternate, and the last one says whether it is at fault. -/
structure Ok (L : Layout) (s : Watched) : Prop where
  good : Good L ∅ s.plant
  turns : ∀ m, Turns (s.rises m)
  last : ∀ m n, s.plant.nodes m = some n →
    ((s.rises m).getLast?.getD false = true ↔ n.ownFault ≠ .none)

/-- One more edge, if there is one, fits the ones before. -/
theorem turns_faultEdge {l : List Bool} {a b : FaultLevel} (hl : Turns l)
    (hlast : l.getLast?.getD false = true ↔ a ≠ .none) :
    Turns (l ++ (faultEdge a b).map fun e => decide (e.1 = .none)) ∧
      ((l ++ (faultEdge a b).map fun e => decide (e.1 = .none)).getLast?.getD false = true ↔
        b ≠ .none) := by
  unfold faultEdge
  split
  · rename_i hsame
    simpa [← hsame] using ⟨hl, hlast⟩
  · rename_i hedge
    simp only [List.map_cons, List.map_nil, turns_concat_iff, hl, hlast, true_and,
      List.getLast?_concat, Option.getD_some]
    by_cases ha : a = .none <;> by_cases hb : b = .none <;> simp_all

theorem Ok.step (hw : Wired L height limit) (hlimit : 0 < limit) {s : Watched} (h : Ok L s)
    (cmd : Plant.Command) :
    ∃ τ, s.exec limit cmd = some ⟨τ, fun m => s.edges m ++ faultEdges s.plant τ m⟩ ∧
      Ok L ⟨τ, fun m => s.edges m ++ faultEdges s.plant τ m⟩ ∧
      τ.line = Line.exec L limit s.plant.line cmd := by
  obtain ⟨τ, hτ, hgood, hline⟩ := exec_refines hw hlimit h.good cmd
  have hrises : ∀ m, Watched.rises ⟨τ, fun m => s.edges m ++ faultEdges s.plant τ m⟩ m =
      s.rises m ++ (faultEdges s.plant τ m).map fun e => decide (e.1 = .none) :=
    fun m => List.map_append
  refine ⟨τ, by simp [exec, hτ], ⟨hgood, ?_, ?_⟩, hline⟩
  · intro m
    rw [hrises]
    cases hm : L m with
    | none => simpa [faultEdges, nodes_none_of_layout h.good.layout hm] using h.turns m
    | some c =>
        obtain ⟨n, hn, -⟩ := exists_node_of_layout h.good.layout hm
        obtain ⟨n', hn', -⟩ := exists_node_of_layout hgood.layout hm
        simp only [faultEdges, hn, hn']
        exact (turns_faultEdge (h.turns m) (h.last m n hn)).1
  · intro m n' hn'
    rw [hrises]
    obtain ⟨n, hn, -⟩ := exists_node_of_layout h.good.layout (layout_eq_of_nodes hgood.layout hn')
    have hn'' : τ.nodes m = some n' := hn'
    simp only [faultEdges, hn, hn'']
    exact (turns_faultEdge (h.turns m) (h.last m n hn)).2

/-- With the edges in turn, telling them is all there is to it. -/
theorem Ok.faultsTold_iff {s : Watched} (h : Ok L s) :
    FaultsTold s ↔ ∀ m, faultsTold s.plant.log m = (s.edges m).map tell := by
  refine ⟨fun hs => hs.edges, fun hs => ⟨hs, fun m => ?_⟩⟩
  have hmap : ((s.edges m).map tell).map (fun e => decide (e.1 = .alarm)) = s.rises m := by
    rw [List.map_map]
    refine List.map_congr_left fun e _ => ?_
    by_cases he : e.1 = .none <;> simp [tell, he]
  rw [hs m, hmap]
  exact h.turns m

/-- A plant as it is set up, every node with a sink. -/
def deploy (host trace : Bool) (t : NodeTree) : Watched where
  plant := Plant.deploy host true trace t

theorem ok_deploy (host trace : Bool) (t : NodeTree) :
    Ok (Plant.deploy host true trace t).layout (deploy host trace t) := by
  refine ⟨good_deploy host true trace t, fun _ => turns_nil, ?_⟩
  intro m n hn
  simp only [deploy, Plant.deploy, Option.map_eq_some_iff] at hn
  obtain ⟨x, -, rfl⟩ := hn
  simp [rises, deploy]

end Watched

/-- **When the events describe the faults.**  In every run of commands on a deployed tree,
each node with a sink, the events tell exactly which faults came and went, in turn, as long
as no command misstates a fault, and no longer. -/
theorem faultsTold_iff_not_misstates (host trace : Bool) {t : NodeTree} (hids : t.ids.Nodup)
    {limit : ℕ} (hlimit : t.height < limit) (cmds : List Plant.Command) :
    (∃ s, run (Watched.exec limit) (Watched.deploy host trace t) cmds = some s) ∧
      (Throughout (Watched.exec limit) FaultsTold (Watched.deploy host trace t) cmds ↔
        Along (Watched.exec limit) (fun s cmd => ¬ Misstates s.plant cmd)
          (Watched.deploy host trace t) cmds) := by
  have hw := wired_deploy host true trace hids hlimit
  have hpos := Nat.zero_lt_of_lt hlimit
  have hok := Watched.ok_deploy host trace t
  refine ⟨?_, ?_⟩
  · obtain ⟨s, hrun, -⟩ := run_total (fun s cmd h => by
      obtain ⟨τ, hτ, hok', -⟩ := Watched.Ok.step hw hpos h cmd
      exact ⟨_, hτ, hok'⟩) cmds hok
    exact ⟨s, hrun⟩
  · refine throughout_iff_along (I := Watched.Ok (Plant.deploy host true trace t).layout) ?_ ?_
      hok (hok.faultsTold_iff.mpr fun _ => rfl)
    · intro s cmd s' h hs'
      obtain ⟨τ, hτ, hok', -⟩ := h.step hw hpos cmd
      obtain rfl := Option.some.inj (hτ.symm.trans hs')
      exact hok'
    · intro s cmd s' h htold hs'
      obtain ⟨τ, hτ, hok', hline⟩ := h.step hw hpos cmd
      obtain rfl := Option.some.inj (hτ.symm.trans hs')
      rw [hok'.faultsTold_iff]
      exact told_step hw (fun i c hc => sink_deploy hc) h.good.layout hok'.good.layout hline
        htold.edges

/-- On the demonstration line, with a hard fault of the heater that is cleared. -/
theorem faultsTold_iff_not_misstates_demoLine :
    (∃ s, run (Watched.exec 3) (Watched.deploy true true demoLine)
        [.fail ⟨111⟩ .blocking, .advance ⟨1⟩, .clearFault ⟨111⟩] = some s) ∧
      (Throughout (Watched.exec 3) FaultsTold (Watched.deploy true true demoLine)
          [.fail ⟨111⟩ .blocking, .advance ⟨1⟩, .clearFault ⟨111⟩] ↔
        Along (Watched.exec 3) (fun s cmd => ¬ Misstates s.plant cmd)
          (Watched.deploy true true demoLine)
          [.fail ⟨111⟩ .blocking, .advance ⟨1⟩, .clearFault ⟨111⟩]) :=
  faultsTold_iff_not_misstates true true (by decide) (by decide) _

/-- A warning from the temperature sensor is cleared, and the event says that a hard fault
was. -/
theorem not_faultsTold_sensor :
    ¬ Throughout (Watched.exec 1) FaultsTold (Watched.deploy true true sensor)
      [.fail ⟨112⟩ .alarm, .clearFault ⟨112⟩] := by
  refine not_throughout_of_end
    (R := fun s => faultsTold s.plant.log ⟨112⟩ = [(.alarm, 0, 1), (.faultCleared, 2, 0)] ∧
      s.edges ⟨112⟩ = [(.none, .alarm), (.alarm, .none)])
    (by decide +kernel) ?_
  rintro s ⟨htold, hedges⟩ h
  have hexact := h.edges ⟨112⟩
  rw [htold, hedges] at hexact
  exact absurd hexact (by decide)

end Opencode.Hier
