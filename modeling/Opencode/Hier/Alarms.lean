import Opencode.Hier.Rounds
import Opencode.Hier.Visits

/-!
# Warnings that stop the line

A warning on a node that is not critical has no effect on production, so no node reports
one.  But `advance` also stops at a node with any fault of its own, and the nodes above
such a node wait for it.  A round makes progress exactly when some node whose turn it is
has no fault on the way down to it.

## Main definitions

* `Plant.attained` — the steps walked and the nodes ready.
* `Workable` — some node can take its next step.
* `score_walk` — what one visit adds.
* `advance_attains_iff` — a round makes progress exactly in workable states.
-/

namespace Opencode.Hier

open Opencode.Lib

variable {L : Layout} {height : CoreId → ℕ} {limit : ℕ} {i k m : CoreId} {c : NodeConfig}
  {σ : Plant}

/-- The steps a node has walked, and one when it is ready. -/
def Progress.score (p : Progress) : ℕ := p.pos + p.ready.toNat

/-- The plan positions of all nodes of the tree and the number of its ready nodes. -/
def Plant.attained (t : NodeTree) (σ : Plant) : ℕ :=
  (t.ids.map fun i => ((σ.nodes i).map fun n => n.score).getD 0).sum

/-- A node that is not ready has only ready children, and neither it nor a node between it
and `root` has a fault of its own. -/
def Workable (σ : Plant) (root : CoreId) : Prop :=
  ∃ m n, Below σ.layout root m ∧ σ.nodes m = some n ∧ n.ready = false ∧
    (∀ k ∈ n.childIds, ∀ nk, σ.nodes k = some nk → nk.ready = true) ∧
    ∀ a na, Line.Between σ.layout root a m → σ.nodes a = some na → na.ownFault = .none

/-! ## What a visit adds -/

theorem score_walk_of_not_ready (c : NodeConfig) {p : Progress} (h : p.ready = false) :
    p.score < (c.walk p).1.score := by
  have hle := c.le_pos_walk p
  rcases hle.lt_or_eq with hlt | heq
  · have hr : p.ready.toNat = 0 := by rw [h, Bool.toNat_false]
    simp only [Progress.score, hr]
    omega
  · -- no step was left, so the node becomes ready
    have hpos : c.plan.length ≤ p.pos := by
      by_contra hlt
      rw [not_le] at hlt
      have hstep : (p.promoteSelf c.plan).pos = p.pos + 1 := by
        simp [Progress.promoteSelf, List.getElem?_eq_getElem hlt]
      have hwalk : (c.walk p).1.pos = p.pos + 1 := by
        rw [c.walk_fst, ← hstep]
        split <;> rfl
      omega
    have hready := (c.ready_walk p).mpr (.inr (heq ▸ hpos))
    simp [Progress.score, h, hready, ← heq]

/-- A visit never takes back what was attained, and adds to it unless the node is ready. -/
theorem score_walk (c : NodeConfig) {p : Progress} (h : p.ready = true → c.plan.length ≤ p.pos) :
    p.score ≤ (c.walk p).1.score ∧ (p.score < (c.walk p).1.score ↔ p.ready = false) := by
  cases hr : p.ready with
  | false =>
      have hlt := score_walk_of_not_ready c hr
      exact ⟨hlt.le, iff_of_true hlt rfl⟩
  | true =>
      rw [walk_of_ready c hr (h hr)]
      exact ⟨le_rfl, iff_of_false (lt_irrefl _) (by simp)⟩

/-! ## What a round adds -/

/-- A sum grows when some term does, if no term gets smaller. -/
theorem sum_map_lt_iff {α : Type*} {l : List α} {f g : α → ℕ} (hle : ∀ a ∈ l, f a ≤ g a) :
    (l.map f).sum < (l.map g).sum ↔ ∃ a ∈ l, f a < g a := by
  constructor
  · intro hlt
    by_contra hno
    push Not at hno
    have heq : l.map f = l.map g := List.map_congr_left fun a ha => (hle a ha).antisymm (hno a ha)
    exact absurd (heq ▸ hlt) (lt_irrefl _)
  · exact List.sum_lt_sum f g hle

theorem attained_eq (t : NodeTree) (σ : Plant) :
    σ.attained t = (t.ids.map fun i => (σ.line.progress i).score).sum := by
  refine congrArg List.sum (List.map_congr_left fun i _ => ?_)
  cases hi : σ.nodes i with
  | none => simp [Plant.line, hi, Progress.score, default, instInhabitedProgress.default]
  | some n => simp [progress_of_nodes hi]

/-- **A round adds to what was attained exactly when it visits a node that is not
ready.** -/
theorem attained_lt_iff (hw : Wired L height limit) (hclosed : ReadyClosed L σ.line)
    {τ : Plant} {root : CoreId} {t : NodeTree} (hids : ∀ i, i ∈ t.ids ↔ ∃ c, L i = some c)
    (hline : τ.line = Line.exec L limit σ.line (.advance root)) :
    σ.attained t < τ.attained t ↔
      ∃ m c, L m = some c ∧ Line.Visited L σ.line.progress (.advance root) m ∧
        (σ.line.progress m).ready = false := by
  classical
  have hscore : ∀ m c, L m = some c →
      (σ.line.progress m).score ≤ (τ.line.progress m).score ∧
        ((σ.line.progress m).score < (τ.line.progress m).score ↔
          Line.Visited L σ.line.progress (.advance root) m ∧
            (σ.line.progress m).ready = false) := by
    intro m c hm
    rw [hline, Line.progress_exec hw _ _ hm]
    split
    · rename_i hvisited
      obtain ⟨hle, hlt⟩ := score_walk c (hclosed.plan m c hm)
      exact ⟨hle, hlt.trans (and_iff_right hvisited).symm⟩
    · rename_i hvisited
      exact ⟨le_rfl, iff_of_false (lt_irrefl _) fun h => hvisited h.1⟩
  rw [attained_eq, attained_eq, sum_map_lt_iff]
  · constructor
    · rintro ⟨m, hm, hlt⟩
      obtain ⟨c, hc⟩ := (hids m).mp hm
      exact ⟨m, c, hc, (hscore m c hc).2.mp hlt⟩
    · rintro ⟨m, c, hc, hvisited⟩
      exact ⟨m, (hids m).mpr ⟨c, hc⟩, (hscore m c hc).2.mpr hvisited⟩
  · intro m hm
    obtain ⟨c, hc⟩ := (hids m).mp hm
    exact (hscore m c hc).1

/-! ## Whose turn it is -/

/-- Every node above one that is not ready waits for a child. -/
theorem ReadyClosed.exists_waiting {v : Line} (h : ReadyClosed L v) {a : CoreId}
    (hb : Below L a m) (hne : a ≠ m) (hready : (v.progress m).ready = false) :
    ∃ k, Child L a k ∧ (v.progress k).ready = false := by
  rcases Wired.below_iff.mp hb with rfl | ⟨k, hc, hkm⟩
  · exact absurd rfl hne
  · refine ⟨k, hc, ?_⟩
    by_contra hk
    rw [Bool.not_eq_false] at hk
    rw [h.below hkm hk] at hready
    cases hready

/-- The nodes that a round visits and that are not ready are those whose turn it is. -/
theorem visited_iff_workable (hw : Wired L height limit) (hL : σ.layout = L)
    (hclosed : ReadyClosed L σ.line) {root : CoreId} (hclear : ¬ Affects L σ.line.progress root) :
    (∃ m c, L m = some c ∧ Line.Visited L σ.line.progress (.advance root) m ∧
        (σ.line.progress m).ready = false) ↔ Workable σ root := by
  rw [Workable, hL]
  constructor
  · rintro ⟨m, c, hc, ⟨-, hb, hpath, -, hlast⟩, hready⟩
    obtain ⟨n, hn, rfl⟩ := exists_node_of_layout hL hc
    rw [progress_of_nodes hn] at hready
    refine ⟨m, n, hb, hn, hready, ?_, ?_⟩
    · intro k hk nk hnk
      have hkready := hlast k ⟨_, hc, hk⟩
      rw [progress_of_nodes hnk] at hkready
      exact hkready
    · intro a na ha hna
      have hown := hpath a ha
      rw [progress_of_nodes hna] at hown
      exact hown
  · rintro ⟨m, n, hb, hn, hready, hchildren, hpath⟩
    have hm := layout_eq_of_nodes hL hn
    have hp := progress_of_nodes hn
    refine ⟨m, _, hm, ⟨hclear, hb, ?_, ?_, ?_⟩, by rw [hp]; exact hready⟩
    · intro a ha
      obtain ⟨na, hna⟩ : ∃ na, σ.nodes a = some na := by
        rcases Relation.ReflTransGen.cases_head ha.2 with rfl | ⟨k, ⟨d, hd, -⟩, -⟩
        · exact ⟨n, hn⟩
        · obtain ⟨na, hna, -⟩ := exists_node_of_layout hL hd
          exact ⟨na, hna⟩
      rw [progress_of_nodes hna]
      exact hpath a na ha hna
    · exact fun a ha hne => hclosed.exists_waiting ha.2 hne (by rw [hp]; exact hready)
    · intro k hc
      have hk := (Wired.child_iff hm).mp hc
      obtain ⟨e, he, -⟩ := hw.child m _ hm k hk
      obtain ⟨nk, hnk, -⟩ := exists_node_of_layout hL he
      rw [progress_of_nodes hnk]
      exact hchildren k hk nk hnk

/-- **Without any fault the line is workable** as long as the root is not ready: somewhere
below it is a node that only waits for its turn. -/
theorem workable_of_no_fault (hw : Wired L height limit) (hL : σ.layout = L)
    {n : HierNode} (hi : σ.nodes i = some n) (hready : n.ready = false)
    (hclear : ∀ m nm, σ.nodes m = some nm → nm.ownFault = .none) : Workable σ i := by
  induction hk : height i using Nat.strong_induction_on generalizing i n with
  | _ d ih =>
      have hLi := layout_eq_of_nodes hL hi
      by_cases hall : ∀ k ∈ n.childIds, ∀ nk, σ.nodes k = some nk → nk.ready = true
      · exact ⟨i, n, .refl, hi, hready, hall, fun a na _ hna => hclear a na hna⟩
      · push Not at hall
        obtain ⟨k, hmem, nk, hnk, hkready⟩ := hall
        rw [ne_eq, Bool.not_eq_true] at hkready
        obtain ⟨m, nm, hb, hm, hmready, hchildren, -⟩ :=
          ih (height k) (hk ▸ hw.lower i _ hLi k hmem) hnk hkready rfl
        have hchild : Child σ.layout i k := ⟨_, by rw [hL]; exact hLi, hmem⟩
        exact ⟨m, nm, .head hchild hb, hm, hmready, hchildren, fun a na _ hna => hclear a na hna⟩

/-! ## The composition root -/

theorem mem_ids_iff (host sink trace : Bool) {t : NodeTree} (hids : t.ids.Nodup) (i : CoreId) :
    i ∈ t.ids ↔ ∃ c, (Plant.deploy host sink trace t).layout i = some c := by
  rw [← NodeTree.map_id_placed (topUpstream host) t]
  constructor
  · intro hi
    obtain ⟨⟨u, s⟩, hs, rfl⟩ := List.mem_map.mp hi
    exact ⟨_, layout_deploy host sink trace hids hs⟩
  · rintro ⟨c, hc⟩
    obtain ⟨u, s, hs, rfl, -⟩ := exists_placed hc
    exact List.mem_map.mpr ⟨(u, s), hs, rfl⟩

/-- **When a round makes progress.**  After any commands on a deployed tree, with the root
not ready and no fault that affects production anywhere: one `advance` of the root returns,
and adds to what was attained exactly when some node can take its next step. -/
theorem advance_attains_iff (host sink trace : Bool) {t : NodeTree} (hids : t.ids.Nodup)
    {limit : ℕ} (hlimit : t.height < limit) (cmds : List Plant.Command) :
    ∃ σ n, run (Plant.exec limit) (Plant.deploy host sink trace t) cmds = some σ ∧
      σ.nodes t.id = some n ∧
      (n.ready = false →
        (∀ m nm, σ.nodes m = some nm →
          (decideProductionImpact nm.ownFault nm.criticalToJob).affectsProduction = false) →
        ∃ τ, Plant.exec limit σ (.advance t.id) = some τ ∧
          (σ.attained t < τ.attained t ↔ Workable σ t.id)) := by
  obtain ⟨σ, hrun, hgood, hclosed⟩ := run_deploy_ready host sink trace hids hlimit cmds
  have hw := wired_deploy host sink trace hids hlimit
  have hL := layout_deploy host sink trace hids (NodeTree.mem_placed_self (topUpstream host) t)
  obtain ⟨n, hn, -⟩ := exists_node_of_layout hgood.layout hL
  refine ⟨σ, n, hrun, hn, ?_⟩
  intro _ hnone
  have hclear : ¬ Affects (Plant.deploy host sink trace t).layout σ.line.progress t.id := by
    rw [← faultBelow_iff hgood.layout]
    rintro ⟨m, nm, -, hm, himpact⟩
    rw [hnone m nm hm] at himpact
    cases himpact
  obtain ⟨τ, hτ, -, hline⟩ :=
    exec_refines hw (Nat.zero_lt_of_lt hlimit) hgood (.advance t.id)
  refine ⟨τ, hτ, ?_⟩
  rw [attained_lt_iff hw hclosed (mem_ids_iff host sink trace hids) hline,
    visited_iff_workable hw hgood.layout hclosed hclear]

/-- On the demonstration line with a warning from the camera. -/
theorem advance_attains_iff_demoLine :
    ∃ σ n, run (Plant.exec 3) (Plant.deploy true true true demoLine)
        [.advance ⟨1⟩, .fail ⟨131⟩ .alarm] = some σ ∧
      σ.nodes ⟨1⟩ = some n ∧
      (n.ready = false →
        (∀ m nm, σ.nodes m = some nm →
          (decideProductionImpact nm.ownFault nm.criticalToJob).affectsProduction = false) →
        ∃ τ, Plant.exec 3 σ (.advance ⟨1⟩) = some τ ∧
          (σ.attained demoLine < τ.attained demoLine ↔ Workable σ ⟨1⟩)) :=
  advance_attains_iff (t := demoLine) true true true (by decide) (by decide) _

/-- The inspection station of the demonstration line on its own. -/
def inspection : NodeTree :=
  .node ⟨13⟩ "品检工位" 0 [.power] true [
    .node ⟨131⟩ "质检相机QCcam" 1 [.power, .selfcheck, .home] false []]

/-- A warning from the camera, which is not critical, stops its station. -/
theorem not_advance_attains_camera :
    ¬ ∃ σ n, run (Plant.exec 2) (Plant.deploy true true true inspection)
        [.fail ⟨131⟩ .alarm] = some σ ∧
      σ.nodes ⟨13⟩ = some n ∧
      (n.ready = false →
        (∀ m nm, σ.nodes m = some nm →
          (decideProductionImpact nm.ownFault nm.criticalToJob).affectsProduction = false) →
        ∃ τ, Plant.exec 2 σ (.advance ⟨13⟩) = some τ ∧
          σ.attained inspection < τ.attained inspection) := by
  rintro ⟨σ, n, hrun, hn, h⟩
  have hids : inspection.ids.Nodup := by decide
  have hlimit : inspection.height < 2 := by decide
  obtain ⟨σ', hrun', hgood, -⟩ :=
    run_deploy_ready true true true hids hlimit [.fail ⟨131⟩ .alarm]
  obtain rfl := Option.some.inj (hrun.symm.trans hrun')
  have hend : ∀ σ ∈ run (Plant.exec 2) (Plant.deploy true true true inspection)
      [.fail ⟨131⟩ .alarm],
      ((σ.nodes ⟨13⟩).map fun n => n.ready) = some false ∧
        (∀ i ∈ inspection.ids, ∀ n ∈ σ.nodes i,
          (decideProductionImpact n.ownFault n.criticalToJob).affectsProduction = false) ∧
        ∀ τ ∈ Plant.exec 2 σ (.advance ⟨13⟩),
          τ.attained inspection = σ.attained inspection := by
    decide +kernel
  obtain ⟨hready, himpact, hround⟩ := hend σ hrun
  rw [hn, Option.map_some, Option.some.injEq] at hready
  obtain ⟨τ, hτ, hlt⟩ := h hready fun m nm hm =>
    himpact m ((mem_ids_iff true true true hids m).mpr ⟨_, layout_eq_of_nodes hgood.layout hm⟩) nm hm
  exact absurd (hround τ hτ) hlt.ne'

end Opencode.Hier
