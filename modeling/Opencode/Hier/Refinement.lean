import Opencode.Hier.Reports

/-!
# The nodes do what the line does

With every node settled, the flags a node decides from are facts about the tree: it blocks
production exactly when a fault below it does, and its children are ready exactly when it
believes so.  So every command on the nodes is the command on the abstract line, and leaves
the nodes settled again.

## Main results

* `blocking_iff`, `allChildrenReady_iff` — the flags are true.
* `advance_refines`, `startWork_refines`, `finishWork_refines` — by induction on the way
  down.
* `exec_refines`, `run_refines_line` — any command, and any sequence of commands.
-/

namespace Opencode.Hier

open Opencode.Lib

variable {L : Layout} {height : CoreId → ℕ} {limit : ℕ} {σ : Plant} {i k : CoreId}
  {n : HierNode} {D : Set CoreId}

/-! ## The flags are true -/

/-- A settled node's last report is about what is the case. -/
theorem Mirrored.lastReport_cases (h : Mirrored σ) (hk : σ.nodes k = some n) {u : Upstream}
    (hu : n.up = some u) (hs : Settled n) :
    lastReport σ.log k = none ∧ n.status = Status.initial ∨
      ∃ r, lastReport σ.log k = some r ∧ r.status = n.status := by
  have hsent := h.sent k n u hk hu
  cases hr : lastReport σ.log k with
  | none =>
      left
      rw [hr] at hsent
      rcases hs.reported with hsig | ⟨-, hinit⟩
      · exact absurd (hsig.symm.trans hsent) (Status.sig_ne_noSig _)
      · exact ⟨rfl, hinit⟩
  | some r =>
      right
      rw [hr] at hsent
      refine ⟨r, rfl, ?_⟩
      rcases hs.reported with hsig | ⟨hno, -⟩
      · exact Status.sig_injective (hsent.symm.trans hsig)
      · exact absurd (hsent.symm.trans hno) (Status.sig_ne_noSig _)

/-- What a parent knows of a settled child: a missing entry stands for `false`. -/
theorem Mirrored.entries (hw : Wired L height limit) (hL : σ.layout = L) (h : Mirrored σ)
    (hi : σ.nodes i = some n) {nk : HierNode} (hmem : k ∈ n.childIds)
    (hk : σ.nodes k = some nk) (hs : Settled nk) :
    (n.childReady.lookup k).getD false = nk.ready ∧
      (n.childBlock.lookup k).getD false = nk.blocking := by
  obtain ⟨d, hd, hup⟩ := hw.child i _ (layout_eq_of_nodes hL hi) k hmem
  obtain rfl := Option.some.inj ((layout_eq_of_nodes hL hk).symm.trans hd)
  rw [h.ready i n hi k, h.block i n hi k, if_pos hmem, if_pos hmem]
  rcases h.lastReport_cases hk hup hs with ⟨hr, hinit⟩ | ⟨r, hr, hstatus⟩
  · rw [hr]
    exact ⟨(congrArg Status.ready hinit).symm, (congrArg Status.blocking hinit).symm⟩
  · rw [hr]
    exact ⟨congrArg Status.ready hstatus, congrArg Status.blocking hstatus⟩

theorem HierNode.anyChildBlock_iff (n : HierNode) :
    n.anyChildBlock = true ↔ ∃ k, n.childBlock.lookup k = some true := by
  simp only [anyChildBlock, List.any_eq_true]
  constructor
  · rintro ⟨⟨k, b⟩, hmem, hb⟩
    obtain rfl : b = true := hb
    exact ⟨k, AList.mem_lookup_iff.mpr hmem⟩
  · rintro ⟨k, hk⟩
    exact ⟨⟨k, true⟩, AList.mem_lookup_iff.mp hk, rfl⟩

/-- A settled node blocks when its own fault or a child does. -/
theorem blocking_step (hw : Wired L height limit) (hL : σ.layout = L) (h : Mirrored σ)
    (hi : σ.nodes i = some n) (hs : Settled n)
    (hchild : ∀ k ∈ n.childIds, ∀ nk, σ.nodes k = some nk → Settled nk) :
    n.blocking = true ↔
      n.impact n.toProgress = true ∨
        ∃ k ∈ n.childIds, ∃ nk, σ.nodes k = some nk ∧ nk.blocking = true := by
  have hblocking : n.blocking = (n.impact n.toProgress || n.anyChildBlock) :=
    (congrArg HierNode.blocking hs.recomputed).symm
  rw [hblocking, Bool.or_eq_true, HierNode.anyChildBlock_iff]
  refine or_congr_right ?_
  constructor
  · rintro ⟨k, hk⟩
    have hmem : k ∈ n.childIds := by
      by_contra hnot
      rw [h.block i n hi k, if_neg hnot] at hk
      cases hk
    obtain ⟨d, hd, -⟩ := hw.child i _ (layout_eq_of_nodes hL hi) k hmem
    obtain ⟨nk, hnk, -⟩ := exists_node_of_layout hL hd
    have hentry := (h.entries hw hL hi hmem hnk (hchild k hmem nk hnk)).2
    rw [hk] at hentry
    exact ⟨k, hmem, nk, hnk, hentry.symm⟩
  · rintro ⟨k, hmem, nk, hnk, hb⟩
    have hentry := (h.entries hw hL hi hmem hnk (hchild k hmem nk hnk)).2
    rw [hb] at hentry
    refine ⟨k, ?_⟩
    cases hl : n.childBlock.lookup k with
    | none => simp [hl] at hentry
    | some b => simpa [hl] using hentry

/-- **A node blocks production exactly when a fault of its subtree affects it.** -/
theorem blocking_iff (hw : Wired L height limit) (hL : σ.layout = L) (h : Mirrored σ)
    (hi : σ.nodes i = some n)
    (hsettled : ∀ m nm, Below L i m → σ.nodes m = some nm → Settled nm) :
    n.blocking = true ↔ Affects L σ.line.progress i := by
  induction hk : height i using Nat.strong_induction_on generalizing i n with
  | _ d ih =>
      have hLi := layout_eq_of_nodes hL hi
      have hchild : ∀ k ∈ n.childIds, Child L i k := fun k hmem => ⟨_, hLi, hmem⟩
      rw [blocking_step hw hL h hi (hsettled i n .refl hi) fun k hmem nk hnk =>
        hsettled k nk (.single (hchild k hmem)) hnk]
      have hrec : ∀ k ∈ n.childIds, ∀ nk, σ.nodes k = some nk →
          (nk.blocking = true ↔ Affects L σ.line.progress k) := by
        intro k hmem nk hnk
        refine ih (height k) (hk ▸ hw.lower i _ hLi k hmem) hnk ?_ rfl
        intro m nm hb hnm
        exact hsettled m nm (.head (hchild k hmem) hb) hnm
      rw [affects_iff hLi, progress_of_nodes hi]
      refine or_congr_right (exists_congr fun k => and_congr_right fun hmem => ?_)
      constructor
      · rintro ⟨nk, hnk, hb⟩
        exact (hrec k hmem nk hnk).mp hb
      · intro ha
        obtain ⟨d, hd, -⟩ := hw.child i _ hLi k hmem
        obtain ⟨nk, hnk, -⟩ := exists_node_of_layout hL hd
        exact ⟨nk, hnk, (hrec k hmem nk hnk).mpr ha⟩

/-- Some node of the subtree of `i` has a fault that affects production. -/
def FaultBelow (σ : Plant) (i : CoreId) : Prop :=
  ∃ m nm, Below σ.layout i m ∧ σ.nodes m = some nm ∧
    (decideProductionImpact nm.ownFault nm.criticalToJob).affectsProduction = true

/-- The faults of the nodes are the faults of the line. -/
theorem faultBelow_iff (hL : σ.layout = L) : FaultBelow σ i ↔ Affects L σ.line.progress i := by
  rw [FaultBelow, hL]
  constructor
  · rintro ⟨m, nm, hb, hm, himpact⟩
    refine ⟨m, nm.toNodeConfig, hb, layout_eq_of_nodes hL hm, ?_⟩
    rw [progress_of_nodes hm]
    exact himpact
  · rintro ⟨m, c, hb, hc, himpact⟩
    obtain ⟨nm, hm, rfl⟩ := exists_node_of_layout hL hc
    rw [progress_of_nodes hm] at himpact
    exact ⟨m, nm, hb, hm, himpact⟩

/-- **A node knows whether its children are ready.** -/
theorem allChildrenReady_iff (hw : Wired L height limit) (hL : σ.layout = L) (h : Mirrored σ)
    (hi : σ.nodes i = some n)
    (hchild : ∀ k ∈ n.childIds, ∀ nk, σ.nodes k = some nk → Settled nk) :
    n.allChildrenReady = true ↔ ∀ k ∈ n.childIds, (σ.line.progress k).ready = true := by
  rw [HierNode.allChildrenReady, List.all_eq_true]
  refine forall₂_congr fun k hmem => ?_
  obtain ⟨d, hd, -⟩ := hw.child i _ (layout_eq_of_nodes hL hi) k hmem
  obtain ⟨nk, hnk, -⟩ := exists_node_of_layout hL hd
  rw [(h.entries hw hL hi hmem hnk (hchild k hmem nk hnk)).1, progress_of_nodes hnk]

/-! ## One node -/

/-- Changing the progress of a node leaves only that node unsettled. -/
theorem Good.set_progress (h : Good L D σ) (hi : σ.nodes i = some n) (p : Progress) :
    Good L (insert i D) (σ.set i { n with toProgress := p }) := by
  refine ⟨(layout_set { n with toProgress := p } hi rfl).trans h.layout, ?_, ?_⟩
  · refine h.mirrored.congr (fun _ => rfl) ?_
    intro m k hk
    by_cases hm : m = i
    · subst hm
      obtain rfl : { n with toProgress := p } = k := by simpa using hk
      exact ⟨n, hi, rfl, rfl, rfl, fun _ => rfl⟩
    · exact ⟨k, by simpa [hm] using hk, rfl, rfl, rfl, fun _ => rfl⟩
  · intro m k hk hm
    have hmi : m ≠ i := fun heq => hm (.inl heq)
    exact h.settled m k (by simpa [hmi] using hk) fun hD => hm (.inr hD)

theorem Good.record_events (h : Good L D σ) (es : List DomainEvent) :
    Good L D (σ.record (es.map .event)) := by
  refine ⟨h.layout, h.mirrored.congr (fun k => ?_) ?_, h.settled⟩
  · refine reports_append_of_none σ.log k ?_
    intro e he
    obtain ⟨e', -, rfl⟩ := List.mem_map.mp he
    rfl
  · intro m k hk
    exact ⟨k, hk, rfl, rfl, rfl, fun _ => rfl⟩

/-- A node that was changed recomputes and reports, and all is settled again. -/
theorem recompute_refines (hw : Wired L height limit) (h : Good L (insert i D) σ)
    (hi : σ.nodes i = some n) :
    ∃ τ, Plant.recomputeAndReport (Plant.deliver limit) i σ = some τ ∧
      Good L D τ ∧ τ.line = σ.line := by
  have hcalls : limit ≤ limit + height i + 1 := by omega
  obtain ⟨τ, hτ, hgood, hline⟩ := recompute_spec hw h hi hcalls
  refine ⟨τ, hτ, hgood.mono ?_, hline⟩
  rintro m ⟨rfl | hm, hmi⟩
  · exact absurd rfl hmi
  · exact hm

theorem apply_refines (hw : Wired L height limit) (h : Good L D σ) (hi : σ.nodes i = some n)
    (p : Progress × List DomainEvent) :
    ∃ τ, Plant.apply limit i n p σ = some τ ∧ Good L D τ ∧ τ.line = σ.line.update i p := by
  have hgood := (h.set_progress hi p.1).record_events p.2
  obtain ⟨τ, hτ, hgoodτ, hline⟩ := recompute_refines hw hgood (nodes_set_self _ _ _)
  refine ⟨τ, hτ, hgoodτ, ?_⟩
  rw [hline, line_record_events, line_set]
  simp [Line.update]

/-! ## The way down -/

/-- The nodes below `i` are not among those a command is at work on. -/
theorem Good.settled_below (hw : Wired L height limit) (h : Good L D σ)
    (hD : ∀ m ∈ D, height i < height m) {m : CoreId} {nm : HierNode} (hb : Below L i m)
    (hm : σ.nodes m = some nm) : Settled nm := by
  refine h.settled m nm hm fun hmem => ?_
  exact absurd (hD m hmem) (not_lt.mpr (hw.height_le hb))

/-- The flag a command looks at first. -/
theorem Good.blocking_iff (hw : Wired L height limit) (h : Good L D σ)
    (hi : σ.nodes i = some n) (hD : ∀ m ∈ D, height i < height m) :
    n.blocking = true ↔ Affects L σ.line.progress i :=
  Hier.blocking_iff hw h.layout h.mirrored hi fun _ _ hb hm => h.settled_below hw hD hb hm

/-- Fewer calls are enough for the children. -/
theorem calls_of_child (hw : Wired L height limit) {calls : ℕ} {c : NodeConfig}
    (hL : L i = some c) (hcalls : height i < calls + 1) (hk : k ∈ c.childIds) :
    0 < calls ∧ ∀ d, L k = some d → height k < calls := by
  have hlower := hw.lower i c hL k hk
  exact ⟨by omega, fun _ _ => by omega⟩

theorem advance_refines (hw : Wired L height limit) {calls : ℕ} (h : Good L ∅ σ)
    (hpos : 0 < calls) (hcalls : ∀ c, L i = some c → height i < calls) :
    ∃ τ, Plant.advance limit calls i σ = some τ ∧ Good L ∅ τ ∧
      τ.line = Line.advance L calls σ.line i := by
  induction calls generalizing i σ with
  | zero => exact absurd hpos (lt_irrefl 0)
  | succ calls ih =>
      cases hL : L i with
      | none =>
          have hi := nodes_none_of_layout h.layout hL
          exact ⟨σ, by simp [Plant.advance, hi], h, by simp [Line.advance, hL]⟩
      | some c =>
          obtain ⟨n, hi, rfl⟩ := exists_node_of_layout h.layout hL
          have hp := progress_of_nodes hi
          have hstop : (n.inFault || n.blocking) = true ↔
              (σ.line.progress i).inFault = true ∨ Affects L σ.line.progress i := by
            rw [Bool.or_eq_true, h.blocking_iff hw hi (by simp), hp]
          have hwait : (n.composite && !n.allChildrenReady) = true ↔
              ∃ k ∈ n.childIds, ¬ (σ.line.progress k).ready = true := by
            have hready := allChildrenReady_iff hw h.layout h.mirrored hi fun k _ nk hk =>
              h.settled k nk hk (by simp)
            rw [← not_iff_not]
            push Not
            rw [← hready]
            cases hc : n.childIds <;>
              simp [NodeConfig.composite, HierNode.allChildrenReady, hc]
          simp only [Plant.advance, hi, Line.advance, hL]
          by_cases hs : (σ.line.progress i).inFault = true ∨ Affects L σ.line.progress i
          · exact ⟨σ, by rw [if_pos (hstop.mpr hs)], h, by rw [if_pos hs]⟩
          · rw [if_neg (mt hstop.mp hs), if_neg hs]
            by_cases hw' : ∃ k ∈ n.childIds, ¬ (σ.line.progress k).ready = true
            · rw [if_pos (hwait.mpr hw'), if_pos hw', if_pos (hw.rpc i _ hL)]
              refine run_refines (fun k hk τ hτ => ?_) h
              obtain ⟨hpos', hcalls'⟩ := calls_of_child hw hL (hcalls _ hL) hk
              exact ih hτ hpos' hcalls'
            · rw [if_neg (mt hwait.mp hw'), if_neg hw', hp]
              exact apply_refines hw h hi _

/-- A node changes, sends a command to its children, and reports: the shape of
`startWork` and `finishWork`. -/
theorem descend_refines (hw : Wired L height limit) (h : Good L D σ)
    (hi : σ.nodes i = some n) (p : Progress) {f : Plant → CoreId → Option Plant}
    {g : Line → CoreId → Line}
    (hf : ∀ k ∈ n.childIds, ∀ τ, Good L (insert i D) τ →
      ∃ τ', f τ k = some τ' ∧ Good L (insert i D) τ' ∧ τ'.line = g τ.line k) :
    ∃ τ, ((run f (σ.set i { n with toProgress := p }) n.childIds).bind
          (Plant.recomputeAndReport (Plant.deliver limit) i)) = some τ ∧
      Good L D τ ∧ τ.line = n.childIds.foldl g (σ.line.update i (p, [])) := by
  have hL := layout_eq_of_nodes h.layout hi
  obtain ⟨τ, hτ, hgood, hline⟩ := run_refines hf (h.set_progress hi p)
  obtain ⟨n', hi', -⟩ := exists_node_of_layout hgood.layout hL
  obtain ⟨τ', hτ', hgood', hline'⟩ := recompute_refines hw hgood hi'
  refine ⟨τ', ?_, hgood', ?_⟩
  · rw [hτ]
    exact hτ'
  · rw [hline', hline, line_set]

/-- The nodes above `i` that a command is at work on, with `i` itself, are above the
children of `i`. -/
theorem above_child (hw : Wired L height limit) {c : NodeConfig} (hL : L i = some c)
    (hD : ∀ m ∈ D, height i < height m) (hk : k ∈ c.childIds) :
    ∀ m ∈ insert i D, height k < height m := by
  have hlower := hw.lower i c hL k hk
  rintro m (rfl | hm)
  · exact hlower
  · exact hlower.trans (hD m hm)

theorem startWork_refines (hw : Wired L height limit) {calls : ℕ} (h : Good L D σ)
    (hpos : 0 < calls) (hcalls : ∀ c, L i = some c → height i < calls)
    (hD : ∀ m ∈ D, height i < height m) :
    ∃ τ, Plant.startWork limit calls i σ = some τ ∧ Good L D τ ∧
      τ.line = Line.startWork L calls σ.line i := by
  induction calls generalizing i σ D with
  | zero => exact absurd hpos (lt_irrefl 0)
  | succ calls ih =>
      cases hL : L i with
      | none =>
          have hi := nodes_none_of_layout h.layout hL
          exact ⟨σ, by simp [Plant.startWork, hi], h, by simp [Line.startWork, hL]⟩
      | some c =>
          obtain ⟨n, hi, rfl⟩ := exists_node_of_layout h.layout hL
          have hp := progress_of_nodes hi
          have hstop : (!n.ready || n.blocking) = true ↔
              ¬ (σ.line.progress i).ready = true ∨ Affects L σ.line.progress i := by
            rw [Bool.or_eq_true, h.blocking_iff hw hi hD, hp]
            simp
          simp only [Plant.startWork, hi, Line.startWork, hL]
          by_cases hs : ¬ (σ.line.progress i).ready = true ∨ Affects L σ.line.progress i
          · exact ⟨σ, by rw [if_pos (hstop.mpr hs)], h, by rw [if_pos hs]⟩
          · rw [if_neg (mt hstop.mp hs), if_neg hs, hp, if_pos (hw.rpc i _ hL)]
            refine descend_refines hw h hi (Line.started n.toProgress) ?_
            intro k hk τ hτ
            obtain ⟨hpos', hcalls'⟩ := calls_of_child hw hL (hcalls _ hL) hk
            exact ih hτ hpos' hcalls' (above_child hw hL hD hk)

theorem finishWork_refines (hw : Wired L height limit) {calls : ℕ} (h : Good L D σ)
    (hpos : 0 < calls) (hcalls : ∀ c, L i = some c → height i < calls)
    (hD : ∀ m ∈ D, height i < height m) :
    ∃ τ, Plant.finishWork limit calls i σ = some τ ∧ Good L D τ ∧
      τ.line = Line.finishWork L calls σ.line i := by
  induction calls generalizing i σ D with
  | zero => exact absurd hpos (lt_irrefl 0)
  | succ calls ih =>
      cases hL : L i with
      | none =>
          have hi := nodes_none_of_layout h.layout hL
          exact ⟨σ, by simp [Plant.finishWork, hi], h, by simp [Line.finishWork, hL]⟩
      | some c =>
          obtain ⟨n, hi, rfl⟩ := exists_node_of_layout h.layout hL
          have hp := progress_of_nodes hi
          have hstop : (!n.working) = true ↔ ¬ (σ.line.progress i).working = true := by
            rw [hp]
            simp
          simp only [Plant.finishWork, hi, Line.finishWork, hL]
          by_cases hs : ¬ (σ.line.progress i).working = true
          · exact ⟨σ, by rw [if_pos (hstop.mpr hs)], h, by rw [if_pos hs]⟩
          · rw [if_neg (mt hstop.mp hs), if_neg hs, hp, if_pos (hw.rpc i _ hL)]
            refine descend_refines hw h hi (Line.finished n.toProgress) ?_
            intro k hk τ hτ
            obtain ⟨hpos', hcalls'⟩ := calls_of_child hw hL (hcalls _ hL) hk
            exact ih hτ hpos' hcalls' (above_child hw hL hD hk)

/-! ## Any command -/

/-- **Every command returns, does what it does on the line, and leaves all nodes
settled.** -/
theorem exec_refines (hw : Wired L height limit) (hlimit : 0 < limit) (h : Good L ∅ σ)
    (cmd : Plant.Command) :
    ∃ τ, Plant.exec limit σ cmd = some τ ∧ Good L ∅ τ ∧
      τ.line = Line.exec L limit σ.line cmd := by
  cases cmd with
  | advance id => exact advance_refines hw h hlimit fun c hc => hw.bounded id c hc
  | startWork id =>
      exact startWork_refines hw h hlimit (fun c hc => hw.bounded id c hc) (by simp)
  | finishWork id =>
      exact finishWork_refines hw h hlimit (fun c hc => hw.bounded id c hc) (by simp)
  | fail id sev =>
      cases hL : L id with
      | none =>
          have hi := nodes_none_of_layout h.layout hL
          exact ⟨σ, by simp [Plant.exec, Plant.fail, hi], h, by simp [Line.exec, Line.fail, hL]⟩
      | some c =>
          obtain ⟨n, hi, rfl⟩ := exists_node_of_layout h.layout hL
          simp only [Plant.exec, Plant.fail, hi, Line.exec, Line.fail, hL, progress_of_nodes hi]
          exact apply_refines hw h hi _
  | clearFault id =>
      cases hL : L id with
      | none =>
          have hi := nodes_none_of_layout h.layout hL
          exact ⟨σ, by simp [Plant.exec, Plant.clearFault, hi], h,
            by simp [Line.exec, Line.clearFault, hL]⟩
      | some c =>
          obtain ⟨n, hi, rfl⟩ := exists_node_of_layout h.layout hL
          simp only [Plant.exec, Plant.clearFault, hi, Line.exec, Line.clearFault, hL,
            progress_of_nodes hi]
          by_cases hf : n.ownFault = .none
          · exact ⟨σ, by rw [if_pos hf], h, by rw [if_pos hf]⟩
          · rw [if_neg hf, if_neg hf]
            exact apply_refines hw h hi _

/-- The plant as it is set up is good: nothing was reported and there was nothing to
report. -/
theorem good_deploy (host sink trace : Bool) (t : NodeTree) :
    Good (Plant.deploy host sink trace t).layout ∅ (Plant.deploy host sink trace t) := by
  have hfresh : ∀ m n, (Plant.deploy host sink trace t).nodes m = some n →
      ∃ c : NodeConfig, n = { toNodeConfig := c, toProgress := {} } := by
    intro m n hn
    simp only [Plant.deploy, Option.map_eq_some_iff] at hn
    obtain ⟨x, -, rfl⟩ := hn
    exact ⟨_, rfl⟩
  refine ⟨rfl, ⟨?_, ?_, ?_, ?_⟩, ?_⟩
  · intro k n u hk _
    obtain ⟨c, rfl⟩ := hfresh k n hk
    rfl
  · intro k n hk m
    obtain ⟨c, rfl⟩ := hfresh k n hk
    simp [lastReport, reports, Plant.deploy]
  · intro k n hk m
    obtain ⟨c, rfl⟩ := hfresh k n hk
    simp [lastReport, reports, Plant.deploy]
  · intro k
    simp [reports, Plant.deploy]
  · intro k n hk _
    obtain ⟨c, rfl⟩ := hfresh k n hk
    exact ⟨rfl, .inr ⟨rfl, rfl⟩⟩

/-- **Any sequence of commands on a deployed tree returns**, and leaves all nodes
settled. -/
theorem run_deploy (host sink trace : Bool) {t : NodeTree} (hids : t.ids.Nodup)
    (hlimit : t.height < limit) (cmds : List Plant.Command) :
    ∃ τ, run (Plant.exec limit) (Plant.deploy host sink trace t) cmds = some τ ∧
      Good (Plant.deploy host sink trace t).layout ∅ τ ∧
      τ.line = cmds.foldl (Line.exec (Plant.deploy host sink trace t).layout limit)
        (Plant.deploy host sink trace t).line :=
  run_refines (fun cmd _ _ hσ => exec_refines (wired_deploy host sink trace hids hlimit)
    (Nat.zero_lt_of_lt hlimit) hσ cmd) (good_deploy host sink trace t)

end Opencode.Hier
