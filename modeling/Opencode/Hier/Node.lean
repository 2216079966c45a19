import Mathlib

/-!
# One node of the device hierarchy

A `HierNode` walks through its plan of preparation steps, starts and finishes work, and
may fail.  It knows the nodes below it only by their ids: what they reported last is kept
in `childReady` and `childBlock`, and from it and from the node's own fault the node
decides whether it blocks production.

The fields of the class are grouped: `NodeConfig` is what the composition root sets up
and nothing changes later, `Progress` is what commands on the node itself change, and the
rest is derived from reports.  Everything in this module concerns one node; messages
between nodes are in `Plant`.

## Main definitions

* `Step`, `FaultLevel`, `decideProductionImpact` — the domain values.
* `ProcessReport`, `DomainEvent` — what a node tells the others.
* `HierNode` — the node.
* `NodeConfig.walk` — one step of a node's own plan.
* `HierNode.recompute`, `HierNode.buildReport`, `signature` — reporting.
-/

namespace Opencode.Hier

/-- `core::Id`. -/
structure CoreId where
  value : UInt64
  deriving DecidableEq

/-- The steps of a node's life, in the order of the enumeration. -/
inductive Step
  | unknown | power | preheat | clean | selfcheck | home | ready | work | done
  deriving DecidableEq

namespace Step

/-- The value of the enumerator. -/
def code : Step → ℕ
  | unknown => 0
  | power => 1
  | preheat => 2
  | clean => 3
  | selfcheck => 4
  | home => 5
  | ready => 6
  | work => 7
  | done => 8

end Step

inductive FaultLevel
  | none | alarm | blocking
  deriving DecidableEq

namespace FaultLevel

/-- The value of the enumerator. -/
def code : FaultLevel → ℕ
  | none => 0
  | alarm => 1
  | blocking => 2

end FaultLevel

def worstOf (a b : FaultLevel) : FaultLevel := if b.code < a.code then a else b

/-- Whether a fault stops production on a node, and why. -/
structure Impact where
  affectsProduction : Bool := false
  severity : FaultLevel := .none
  reason : String := ""

/-- A hard fault always stops production, a warning only on the critical path. -/
def decideProductionImpact (sev : FaultLevel) (criticalToJob : Bool) : Impact :=
  match sev with
  | .blocking =>
      { affectsProduction := true, severity := sev, reason := "硬故障(BLOCKING)，影响生产" }
  | .alarm =>
      { affectsProduction := criticalToJob
        severity := sev
        reason := if criticalToJob then "安全/质量关键节点告警，影响生产" else "非关键告警，可继续生产" }
  | .none => { severity := sev, reason := "正常" }

/-- What a node tells its upstream. -/
structure ProcessReport where
  origin : CoreId
  layer : ℤ
  name : String
  step : Step
  fault : FaultLevel
  ready : Bool
  blocking : Bool
  affectsProduction : Bool
  reason : String
  deriving DecidableEq

inductive EventKind
  | moduleStateChanged | moduleReady | lineStateChanged | alarm | faultCleared
  deriving DecidableEq

/-- A published domain event; `old` and `new` are the numbers of steps or of fault
levels. -/
structure DomainEvent where
  kind : EventKind
  moduleId : CoreId
  old : ℕ
  new : ℕ
  line : Bool
  message : String
  deriving DecidableEq

/-- Where a node reports to: the host at the top, or the node above. -/
inductive Upstream
  | host
  | node (id : CoreId)
  deriving DecidableEq

/-- What the composition root sets up.  `rpc`, `sink` and `trace` say whether the port is
connected. -/
structure NodeConfig where
  id : CoreId
  name : String
  layer : ℤ
  criticalToJob : Bool
  plan : List Step
  childIds : List CoreId
  rpc : Bool
  up : Option Upstream
  sink : Bool
  trace : Bool
  deriving DecidableEq

/-- What commands on the node itself change. -/
structure Progress where
  pos : ℕ := 0
  curState : Step := .unknown
  ready : Bool := false
  working : Bool := false
  ownFault : FaultLevel := .none
  deriving DecidableEq, Inhabited

/-- The signature no report has. -/
def noSig : UInt64 := 0xFFFFFFFFFFFFFFFF

structure HierNode extends NodeConfig, Progress where
  childReady : AList fun _ : CoreId => Bool := ∅
  childBlock : AList fun _ : CoreId => Bool := ∅
  childBlocked : Bool := false
  blocking : Bool := false
  lastSig : UInt64 := noSig

/-! ## A node's own steps -/

namespace Progress

variable (p : Progress)

def inFault : Bool := p.ownFault ≠ .none

/-- Take the next step of the plan, if there is one. -/
def promoteSelf (plan : List Step) : Progress :=
  match plan[p.pos]? with
  | some s => { p with curState := s, pos := p.pos + 1 }
  | none => p

end Progress

namespace NodeConfig

variable (c : NodeConfig)

def composite : Bool := !c.childIds.isEmpty

/-- The event, if the node has a sink for it. -/
def emit (kind : EventKind) (old new : ℕ) (msg : String) : List DomainEvent :=
  if c.sink then [⟨kind, c.id, old, new, c.layer = 0, msg⟩] else []

/-- The last two parts of `advance`: walk the plan, and become ready at its end. -/
def walk (p : Progress) : Progress × List DomainEvent :=
  let old := p.curState
  let p := p.promoteSelf c.plan
  let moved :=
    if p.curState ≠ old then c.emit .moduleStateChanged old.code p.curState.code "步进" else []
  if c.plan.length ≤ p.pos ∧ !p.ready then
    ({ p with ready := true, curState := .ready },
      moved ++ c.emit .moduleReady old.code Step.ready.code "计划完成")
  else (p, moved)

/-- The progress after one step of the plan. -/
theorem walk_fst (p : Progress) :
    (c.walk p).1 =
      if c.plan.length ≤ (p.promoteSelf c.plan).pos ∧ !(p.promoteSelf c.plan).ready then
        { p.promoteSelf c.plan with ready := true, curState := .ready }
      else p.promoteSelf c.plan := by
  simp only [walk]
  split <;> rfl

theorem le_pos_walk (p : Progress) : p.pos ≤ (c.walk p).1.pos := by
  have hle : p.pos ≤ (p.promoteSelf c.plan).pos := by
    unfold Progress.promoteSelf
    split <;> simp
  rw [walk_fst]
  split <;> exact hle

theorem ready_walk (p : Progress) :
    (c.walk p).1.ready = true ↔ p.ready = true ∨ c.plan.length ≤ (c.walk p).1.pos := by
  have hsame : (p.promoteSelf c.plan).ready = p.ready := by
    unfold Progress.promoteSelf
    split <;> rfl
  rw [walk_fst]
  split
  · rename_i h
    simp [h.1]
  · rename_i h
    rw [hsame] at h ⊢
    cases hr : p.ready <;> simp_all

/-- The worst fault so far stays; the alarm is for the first one. -/
def fail (p : Progress) (sev : FaultLevel) : Progress × List DomainEvent :=
  let p' := { p with ownFault := worstOf p.ownFault sev }
  (p', if p.inFault then []
    else c.emit .alarm FaultLevel.none.code p'.ownFault.code "节点故障(逐级上报)")

def clearFault (p : Progress) : Progress × List DomainEvent :=
  ({ p with ownFault := .none },
    c.emit .faultCleared FaultLevel.blocking.code FaultLevel.none.code "故障清除")

/-- Whether the node's own fault stops production. -/
def impact (p : Progress) : Bool :=
  (decideProductionImpact p.ownFault c.criticalToJob).affectsProduction

end NodeConfig

/-- A ready node has nothing left to walk. -/
theorem walk_of_ready (c : NodeConfig) {p : Progress} (hr : p.ready = true)
    (hplan : c.plan.length ≤ p.pos) : c.walk p = (p, []) := by
  have hsame : p.promoteSelf c.plan = p := by
    simp only [Progress.promoteSelf, List.getElem?_eq_none hplan]
  simp [NodeConfig.walk, hsame, hr]

/-! ## Reporting -/

namespace HierNode

variable (n : HierNode)

def affectsProduction : Bool := n.blocking

/-- A missing entry counts as not ready. -/
def allChildrenReady : Bool := n.childIds.all fun id => (n.childReady.lookup id).getD false

def anyChildBlock : Bool := n.childBlock.entries.any fun kv => kv.2

/-- The first half of `recomputeAndReport`. -/
def recompute : HierNode :=
  { n with
    childBlocked := n.anyChildBlock
    blocking := n.impact n.toProgress || n.anyChildBlock }

def buildReport : ProcessReport where
  origin := n.id
  layer := n.layer
  name := n.name
  step := n.curState
  fault := n.ownFault
  ready := n.ready
  blocking := n.blocking
  affectsProduction := n.blocking
  reason :=
    if n.ownFault ≠ .none then (decideProductionImpact n.ownFault n.criticalToJob).reason
    else if n.childBlocked then "由子节点故障逐级上报，影响生产"
    else "正常"

/-- The first lines of `report`: remember what the child says. -/
def receive (r : ProcessReport) : HierNode :=
  { n with
    childReady := n.childReady.insert r.origin r.ready
    childBlock := n.childBlock.insert r.origin r.blocking }

end HierNode

/-- The packed fields that a report is compared by. -/
def signature (r : ProcessReport) : UInt64 :=
  UInt64.ofNat r.step.code <<< 24 ||| UInt64.ofNat r.fault.code <<< 16 |||
    UInt64.ofNat r.ready.toNat <<< 8 ||| UInt64.ofNat r.affectsProduction.toNat <<< 4 |||
    UInt64.ofNat r.blocking.toNat

/-! ## The signature tells reports apart -/

/-- The four fields a report is about. -/
structure Status where
  step : Step
  fault : FaultLevel
  ready : Bool
  blocking : Bool
  deriving DecidableEq

def ProcessReport.status (r : ProcessReport) : Status := ⟨r.step, r.fault, r.ready, r.blocking⟩

def HierNode.status (n : HierNode) : Status := ⟨n.curState, n.ownFault, n.ready, n.blocking⟩

/-- The status every node starts with. -/
def Status.initial : Status := ⟨.unknown, .none, false, false⟩

namespace Status

/-- The signature of a report with this status, as every node builds it. -/
def sig (s : Status) : UInt64 :=
  signature ⟨⟨0⟩, 0, "", s.step, s.fault, s.ready, s.blocking, s.blocking, ""⟩

/-- The fields of a signature, read back. -/
private def unpack (sig : UInt64) : Option Step × Option FaultLevel × Bool × Bool :=
  ([Step.unknown, .power, .preheat, .clean, .selfcheck, .home, .ready, .work,
      .done][(sig >>> 24).toNat]?,
    [FaultLevel.none, .alarm, .blocking][((sig >>> 16) &&& 255).toNat]?,
    (sig >>> 8) &&& 1 = 1, sig &&& 1 = 1)

private theorem unpack_sig (s : Status) :
    unpack s.sig = (some s.step, some s.fault, s.ready, s.blocking) := by
  obtain ⟨step, fault, ready, blocking⟩ := s
  cases step <;> cases fault <;> cases ready <;> cases blocking <;> rfl

/-- **Different statuses have different signatures.** -/
theorem sig_injective {s t : Status} (h : s.sig = t.sig) : s = t := by
  have h' := (unpack_sig s).symm.trans ((congrArg unpack h).trans (unpack_sig t))
  cases s
  cases t
  simpa using h'

theorem sig_ne_noSig (s : Status) : s.sig ≠ noSig := by
  intro h
  have h' := (unpack_sig s).symm.trans (congrArg unpack h)
  exact absurd (congrArg Prod.fst h') (by simp [unpack, noSig])

end Status

theorem HierNode.signature_buildReport (n : HierNode) :
    signature n.buildReport = n.status.sig := rfl

@[simp] theorem HierNode.status_buildReport (n : HierNode) : n.buildReport.status = n.status := rfl

end Opencode.Hier
