import Opencode.Lib.Run
import Opencode.Hier.Node

/-!
# The plant: a store of nodes that call each other

`NodeStore` owns the nodes, `RpcRouter` carries commands down to a child by its id, and
a node's upstream carries its reports up.  Both are calls: a command returns after the
commands to the children, and all the reports they cause, have returned.

A command is therefore a recursion through the pointers of the store, down along
`childIds` and up along `up`.  Nothing in the source bounds it, so the functions here take
the number of nested calls they may make; `none` means that a call does not return, which
happens when the pointers run in a circle or dangle.

The log collects what leaves the nodes: trace calls, delivered reports and domain events.

## Main definitions

* `Plant` — the store and the log.
* `Plant.deliver`, `Plant.recomputeAndReport` — a report on its way up.
* `Plant.advance`, `Plant.startWork`, `Plant.finishWork`, `Plant.fail`,
  `Plant.clearFault` — the commands.
* `Plant.exec` — one command on any node; `Plant.runToReady` — the host's loop.
* `NodeTree`, `Plant.deploy` — the composition root.
-/

namespace Opencode.Hier

open Opencode.Lib

/-- What leaves a node. -/
inductive Effect
  | trace (r : ProcessReport)
  /-- The node delivered the report to its upstream. -/
  | report (r : ProcessReport)
  | event (e : DomainEvent)
  deriving DecidableEq

/-- The node store, and what left the nodes so far. -/
structure Plant where
  nodes : CoreId → Option HierNode
  log : List Effect

namespace Plant

def set (σ : Plant) (id : CoreId) (n : HierNode) : Plant :=
  { σ with nodes := Function.update σ.nodes id (some n) }

def record (σ : Plant) (es : List Effect) : Plant := { σ with log := σ.log ++ es }

/-! ## Reports -/

/-- Nothing happens unless a field of the signature changed. -/
def publish (deliver : Upstream → ProcessReport → Plant → Option Plant) (id : CoreId)
    (n : HierNode) (σ : Plant) : Option Plant :=
  let r := n.buildReport
  if signature r = n.lastSig then some σ
  else
    let σ := (σ.set id { n with lastSig := signature r }).record
      (if n.trace then [.trace r] else [])
    match n.up with
    | none => some σ
    | some up => deliver up r (σ.record [.report r])

def recomputeAndReport (deliver : Upstream → ProcessReport → Plant → Option Plant)
    (id : CoreId) (σ : Plant) : Option Plant :=
  match σ.nodes id with
  | none => none
  | some n => publish deliver id n.recompute (σ.set id n.recompute)

/-- `IUpstream::report`.  The host only prints; a node takes the report in and reports
itself. -/
def deliver : ℕ → Upstream → ProcessReport → Plant → Option Plant
  | _, .host, _, σ => some σ
  | 0, .node _, _, _ => none
  | calls + 1, .node id, r, σ =>
      match σ.nodes id with
      | none => none
      | some n => recomputeAndReport (deliver calls) id (σ.set id (n.receive r))

/-- Change a node's own progress, publish the events, and report. -/
def apply (calls : ℕ) (id : CoreId) (n : HierNode) (p : Progress × List DomainEvent)
    (σ : Plant) : Option Plant :=
  recomputeAndReport (deliver calls) id
    ((σ.set id { n with toProgress := p.1 }).record (p.2.map .event))

/-! ## Commands

`limit` bounds the reports on their way up, the other number the commands on their way
down.  A command to an id that is not in the store is dropped by the router. -/

def advance (limit : ℕ) : ℕ → CoreId → Plant → Option Plant
  | 0, _, _ => none
  | calls + 1, id, σ =>
      match σ.nodes id with
      | none => some σ
      | some n =>
          if n.inFault || n.blocking then some σ
          else if n.composite && !n.allChildrenReady then
            if n.rpc then run (fun σ c => advance limit calls c σ) σ n.childIds else some σ
          else apply limit id n (n.walk n.toProgress) σ

def startWork (limit : ℕ) : ℕ → CoreId → Plant → Option Plant
  | 0, _, _ => none
  | calls + 1, id, σ =>
      match σ.nodes id with
      | none => some σ
      | some n =>
          if !n.ready || n.blocking then some σ
          else do
            let σ := σ.set id { n with working := true, curState := .work }
            let σ ← if n.rpc then run (fun σ c => startWork limit calls c σ) σ n.childIds
              else some σ
            recomputeAndReport (deliver limit) id σ

def finishWork (limit : ℕ) : ℕ → CoreId → Plant → Option Plant
  | 0, _, _ => none
  | calls + 1, id, σ =>
      match σ.nodes id with
      | none => some σ
      | some n =>
          if !n.working then some σ
          else do
            let σ := σ.set id { n with working := false, curState := .done }
            let σ ← if n.rpc then run (fun σ c => finishWork limit calls c σ) σ n.childIds
              else some σ
            recomputeAndReport (deliver limit) id σ

def fail (limit : ℕ) (id : CoreId) (sev : FaultLevel) (σ : Plant) : Option Plant :=
  match σ.nodes id with
  | none => some σ
  | some n => apply limit id n (n.toNodeConfig.fail n.toProgress sev) σ

def clearFault (limit : ℕ) (id : CoreId) (σ : Plant) : Option Plant :=
  match σ.nodes id with
  | none => some σ
  | some n =>
      if n.ownFault = .none then some σ
      else apply limit id n (n.toNodeConfig.clearFault n.toProgress) σ

/-- A command on any node. -/
inductive Command
  | advance (id : CoreId)
  | startWork (id : CoreId)
  | finishWork (id : CoreId)
  | fail (id : CoreId) (sev : FaultLevel)
  | clearFault (id : CoreId)

def exec (limit : ℕ) (σ : Plant) : Command → Option Plant
  | .advance id => advance limit limit id σ
  | .startWork id => startWork limit limit id σ
  | .finishWork id => finishWork limit limit id σ
  | .fail id sev => fail limit id sev σ
  | .clearFault id => clearFault limit id σ

/-- Advance the node until it is ready, at most `guard` times. -/
def driveToReady (limit : ℕ) (root : CoreId) : ℕ → Plant → Option Plant
  | 0, σ => some σ
  | guard + 1, σ =>
      match σ.nodes root with
      | none => some σ
      | some n =>
          if n.ready then some σ
          else (advance limit limit root σ).bind (driveToReady limit root guard)

/-- `PlantController::runToReady`. -/
def runToReady (limit : ℕ) (root : CoreId) (σ : Plant) : Option Plant :=
  driveToReady limit root 100 σ

end Plant

/-! ## The composition root -/

/-- A hierarchy as it is drawn: every node with the nodes below it. -/
inductive NodeTree
  | node (id : CoreId) (name : String) (layer : ℤ) (plan : List Step) (criticalToJob : Bool)
      (children : List NodeTree)

namespace NodeTree

def id : NodeTree → CoreId
  | node id _ _ _ _ _ => id

def children : NodeTree → List NodeTree
  | node _ _ _ _ _ children => children

/-- The configuration of the top node of the tree under the given upstream: every node
gets the router, its children by id, and the chosen observers. -/
def config (sink trace : Bool) (up : Option Upstream) : NodeTree → NodeConfig
  | node id name layer plan criticalToJob children =>
      { id, name, layer, criticalToJob, plan, childIds := children.map NodeTree.id,
        rpc := true, up, sink, trace }

mutual

/-- All nodes of the tree with their upstreams. -/
def placed (up : Option Upstream) : NodeTree → List (Option Upstream × NodeTree)
  | node id name layer plan criticalToJob children =>
      (up, node id name layer plan criticalToJob children) ::
        placedAll (some (.node id)) children

def placedAll (up : Option Upstream) : List NodeTree → List (Option Upstream × NodeTree)
  | [] => []
  | t :: ts => t.placed up ++ placedAll up ts

end

mutual

/-- The number of layers below the top node. -/
def height : NodeTree → ℕ
  | node _ _ _ _ _ children => heightAll children

/-- The number of layers of the trees. -/
def heightAll : List NodeTree → ℕ
  | [] => 0
  | t :: ts => max (t.height + 1) (heightAll ts)

end

/-- The ids of all nodes. -/
def ids (t : NodeTree) : List CoreId := (t.placed none).map fun x => x.2.id

end NodeTree

/-- The upstream of the top node: the host, if there is one. -/
def topUpstream (host : Bool) : Option Upstream := if host then some .host else none

/-- Build and wire every node of the tree. -/
def Plant.deploy (host sink trace : Bool) (t : NodeTree) : Plant where
  nodes id := ((t.placed (topUpstream host)).find? fun x => decide (x.2.id = id)).map fun x =>
    { toNodeConfig := x.2.config sink trace x.1, toProgress := {} }
  log := []

/-- The line of the demonstration: three stations over four devices. -/
def demoLine : NodeTree :=
  .node ⟨1⟩ "产线" 0 [.power] true [
    .node ⟨11⟩ "预热工位" 1 [.power] true [
      .node ⟨111⟩ "加热器Heater" 2 [.power, .preheat, .selfcheck, .home] true [],
      .node ⟨112⟩ "温度传感(pre-hot)" 2 [.power] false []],
    .node ⟨12⟩ "加工工位" 1 [.power, .preheat] true [
      .node ⟨121⟩ "精密定位DP-200" 2 [.power, .home, .selfcheck] true []],
    .node ⟨13⟩ "品检工位" 1 [.power] true [
      .node ⟨131⟩ "质检相机QCcam" 2 [.power, .selfcheck, .home] false []]]

end Opencode.Hier
