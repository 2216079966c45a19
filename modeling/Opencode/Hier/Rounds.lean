import Opencode.Hier.Readiness

/-!
# How many rounds a line needs

One `advance` of the root is one round.  A node first waits for its slowest child, then
walks its own plan, one step a round, and needs one round even for an empty plan.  This
module has the progress of every node after every number of rounds in closed form, and
from it the exact number of rounds until the root is ready.

## Main definitions

* `NodeTree.rounds` — the number of rounds of a tree.
* `atRound` — a node's progress after `k` rounds.
* `Line.advance_atRound` — one round.
* `ready_after_rounds` — the root is ready exactly from its number of rounds on.
-/

namespace Opencode.Hier

open Opencode.Lib

namespace NodeTree

mutual

/-- The rounds until the top node is ready. -/
def rounds : NodeTree → ℕ
  | node _ _ _ plan _ children => max 1 plan.length + roundsAll children

/-- The rounds of the slowest of the trees. -/
def roundsAll : List NodeTree → ℕ
  | [] => 0
  | t :: ts => max t.rounds (roundsAll ts)

end

theorem roundsAll_le_iff (ts : List NodeTree) (k : ℕ) :
    roundsAll ts ≤ k ↔ ∀ t ∈ ts, t.rounds ≤ k := by
  induction ts with
  | nil => simp [roundsAll]
  | cons t ts ih => simp [roundsAll, ih]

end NodeTree

/-- The progress of a node that waits for `w` rounds, after `k` rounds. -/
def atRound (c : NodeConfig) (w k : ℕ) : Progress where
  pos := min c.plan.length (k - w)
  curState :=
    if max 1 c.plan.length + w ≤ k then .ready
    else (c.plan.take (k - w)).getLast?.getD .unknown
  ready := decide (max 1 c.plan.length + w ≤ k)

section AtRound

variable (c : NodeConfig) {w k : ℕ}

/-- A waiting node does not change. -/
theorem atRound_wait (h : k < w) : atRound c w (k + 1) = atRound c w k := by
  have h0 : k + 1 - w = 0 := by omega
  have h0' : k - w = 0 := by omega
  have hnot : ¬ max 1 c.plan.length + w ≤ k + 1 := by omega
  have hnot' : ¬ max 1 c.plan.length + w ≤ k := by omega
  simp only [atRound, h0, h0', hnot, hnot']

/-- A ready node does not change. -/
theorem atRound_ready (h : max 1 c.plan.length + w ≤ k) :
    atRound c w (k + 1) = atRound c w k := by
  have hpos : min c.plan.length (k + 1 - w) = c.plan.length := by omega
  have hpos' : min c.plan.length (k - w) = c.plan.length := by omega
  have hready : max 1 c.plan.length + w ≤ k + 1 := by omega
  simp [atRound, hpos, hpos', h, hready]

/-- A node whose children are ready walks its plan. -/
theorem walk_atRound (h : w ≤ k) : (c.walk (atRound c w k)).1 = atRound c w (k + 1) := by
  rw [NodeConfig.walk_fst]
  by_cases hr : max 1 c.plan.length + w ≤ k
  · rw [atRound_ready c hr]
    have hdone : c.plan[(atRound c w k).pos]? = none := by
      simp only [atRound, List.getElem?_eq_none_iff]
      omega
    have hsame : (atRound c w k).promoteSelf c.plan = atRound c w k := by
      simp only [Progress.promoteSelf, hdone]
    rw [hsame, if_neg]
    simp [atRound, hr]
  · obtain ⟨j, rfl⟩ : ∃ j, k = w + j := ⟨k - w, by omega⟩
    have hj : w + j - w = j := by omega
    have hj' : w + j + 1 - w = j + 1 := by omega
    rcases Nat.eq_zero_or_pos c.plan.length with hlen | hlen
    · -- An empty plan: the round only makes the node ready.
      have hplan : c.plan = [] := List.length_eq_zero_iff.mp hlen
      have hr' : 1 + w ≤ w + j + 1 := by omega
      have hr0 : ¬ 1 + w ≤ w + j := by simpa [hlen] using hr
      simp [atRound, Progress.promoteSelf, hplan, hr', hr0]
    · have hlt : j < c.plan.length := by omega
      have hmax : max 1 c.plan.length = c.plan.length := by omega
      have hpos : min c.plan.length j = j := by omega
      have hpos' : min c.plan.length (j + 1) = j + 1 := by omega
      have hr0 : ¬ c.plan.length + w ≤ w + j := by omega
      have hnext : c.plan[j]? = some c.plan[j] := List.getElem?_eq_getElem hlt
      have hpromote : (atRound c w (w + j)).promoteSelf c.plan =
          { atRound c w (w + j) with curState := c.plan[j], pos := j + 1 } := by
        have hp : (atRound c w (w + j)).pos = j := by simp [atRound, hpos]
        simp only [Progress.promoteSelf, hp, hnext]
      rw [hpromote]
      by_cases hend : c.plan.length ≤ j + 1
      · have hr' : c.plan.length + w ≤ w + j + 1 := by omega
        have hlast : j + 1 = c.plan.length := by omega
        simp [atRound, hmax, hj', hr0, hr', hlast]
      · have hr' : ¬ c.plan.length + w ≤ w + j + 1 := by omega
        simp [atRound, hmax, hend, hj', hpos', hr0, hr', List.getLast?_take, hnext]

end AtRound

/-- `W i` is the number of rounds node `i` waits for its children, `R i` the number of
rounds it needs. -/
structure Counted (L : Layout) (R W : CoreId → ℕ) : Prop where
  total : ∀ i c, L i = some c → R i = max 1 c.plan.length + W i
  wait : ∀ i c, L i = some c → ∀ k, W i ≤ k ↔ ∀ j ∈ c.childIds, R j ≤ k

variable {L : Layout} {height : CoreId → ℕ} {limit : ℕ} {R W : CoreId → ℕ} {i m : CoreId}
  {c : NodeConfig} {v : Line} {k : ℕ}

theorem Counted.le_wait (hc : Counted L R W) (hL : L i = some c) {j : CoreId}
    (hj : j ∈ c.childIds) : R j ≤ W i :=
  (hc.wait i c hL (W i)).mp le_rfl j hj

theorem Counted.le_of_below (hc : Counted L R W) (hb : Below L i m) : R m ≤ R i := by
  induction hb with
  | refl => exact le_rfl
  | tail _ hchild ih =>
      obtain ⟨c, hL, hk⟩ := hchild
      have htotal := hc.total _ c hL
      have hle := hc.le_wait hL hk
      omega

/-- The subtree of `i` is where it is after `k` rounds. -/
def AtRound (L : Layout) (W : CoreId → ℕ) (k : ℕ) (v : Line) (i : CoreId) : Prop :=
  ∀ m d, Below L i m → L m = some d → v.progress m = atRound d (W m) k

namespace AtRound

theorem child (h : AtRound L W k v i) {j : CoreId} (hj : Child L i j) : AtRound L W k v j :=
  fun m d hb hd => h m d (.head hj hb) hd

/-- No node has a fault. -/
theorem not_affects (h : AtRound L W k v i) : ¬ Affects L v.progress i := by
  rintro ⟨m, d, hb, hd, himpact⟩
  rw [h m d hb hd] at himpact
  cases himpact

end AtRound

open Classical in
/-- **One round.** -/
theorem Line.advance_atRound (hw : Wired L height limit) (hcount : Counted L R W) {calls : ℕ}
    (hL : L i = some c) (hcalls : height i < calls) (h : AtRound L W k v i) :
    AtRound L W (k + 1) (Line.advance L calls v i) i := by
  induction calls generalizing i c with
  | zero => exact absurd hcalls (Nat.not_lt_zero _)
  | succ calls ih =>
      have hi := h i c .refl hL
      have hgo : ¬ ((v.progress i).inFault = true ∨ Affects L v.progress i) := by
        rintro (hf | ha)
        · rw [hi] at hf
          cases hf
        · exact h.not_affects ha
      have hchild : ∀ j ∈ c.childIds, Child L i j := fun j hj => ⟨c, hL, hj⟩
      have hready : ∀ j ∈ c.childIds, (¬ (v.progress j).ready = true ↔ ¬ R j ≤ k) := by
        intro j hj
        obtain ⟨d, hd, -⟩ := hw.child i c hL j hj
        rw [h j d (.single (hchild j hj)) hd, hcount.total j d hd]
        simp [atRound]
      intro m d hb hd
      simp only [Line.advance, hL, if_neg hgo]
      by_cases hwait : W i ≤ k
      · -- All children are ready: the node walks its plan and nobody else moves.
        have hall := (hcount.wait i c hL k).mp hwait
        have hnone : ¬ ∃ j ∈ c.childIds, ¬ (v.progress j).ready = true := by
          rintro ⟨j, hj, hnot⟩
          exact (hready j hj).mp hnot (hall j hj)
        rw [if_neg hnone]
        rcases (Wired.below_iff_of_layout hL).mp hb with rfl | ⟨j, hj, hb'⟩
        · obtain rfl := Option.some.inj (hL.symm.trans hd)
          rw [Line.progress_update_self, hi, walk_atRound c hwait]
        · have hne : m ≠ i := fun heq => hw.not_below_child (hchild j hj) (heq ▸ hb')
          have hle : R m ≤ k := (hcount.le_of_below hb').trans (hall j hj)
          rw [Line.progress_update_ne _ _ hne, h m d hb hd,
            atRound_ready d (hcount.total m d hd ▸ hle)]
      · -- Some child is not ready: every child takes its round.
        have hsome : ∃ j ∈ c.childIds, ¬ (v.progress j).ready = true := by
          by_contra hno
          push Not at hno
          refine hwait ((hcount.wait i c hL k).mpr fun j hj => ?_)
          by_contra hle
          exact (hready j hj).mpr hle (hno j hj)
        have hlocal : ∀ j ∈ c.childIds, Local L j fun v => Line.advance L calls v j :=
          fun j _ => Line.advance_local hw calls j
        rw [if_pos hsome]
        rcases (Wired.below_iff_of_layout hL).mp hb with rfl | ⟨j, hj, hb'⟩
        · obtain rfl := Option.some.inj (hL.symm.trans hd)
          rw [foldl_frame hlocal _ fun j hj => hw.not_below_child (hchild j hj), hi,
            atRound_wait c (not_le.mp hwait)]
        · obtain ⟨dj, hdj, -⟩ := hw.child i c hL j hj
          have hlower := hw.lower i c hL j hj
          rw [foldl_inside (hw.children_disjoint hL) hlocal _ hj hb']
          exact ih hdj (by omega) (h.child (hchild j hj)) m d hb' hd

/-! ## Ready nodes do not move -/

section Ready

variable {σ : Plant} {n : HierNode}

theorem set_same (hi : σ.nodes i = some n) : σ.set i n = σ := by
  simp [Plant.set, ← hi]

/-- **Advancing a ready node changes nothing**, not even a log entry. -/
theorem advance_of_ready (hw : Wired L height limit) (hgood : Good L ∅ σ)
    (hclosed : ReadyClosed L σ.line) (hi : σ.nodes i = some n) (hr : n.ready = true)
    (calls : ℕ) : Plant.advance limit (calls + 1) i σ = some σ := by
  have hL := layout_eq_of_nodes hgood.layout hi
  have hp := progress_of_nodes hi
  have hs := hgood.settled i n hi (by simp)
  have hsig : n.recompute.status.sig = n.lastSig := by
    rcases hs.reported with hsig | ⟨-, hinit⟩
    · rw [hs.recomputed, hsig]
    · have hnot : n.ready = false := congrArg Status.ready hinit
      rw [hr] at hnot
      cases hnot
  have hchildren : n.allChildrenReady = true := by
    refine (allChildrenReady_iff hw hgood.layout hgood.mirrored hi fun k _ nk hk =>
      hgood.settled k nk hk (by simp)).mpr fun k hk => ?_
    exact hclosed.child i k ⟨_, hL, hk⟩ (hp ▸ hr)
  have hwalk : n.walk n.toProgress = (n.toProgress, []) :=
    walk_of_ready n.toNodeConfig hr (hp ▸ hclosed.plan i _ hL (hp ▸ hr))
  simp only [Plant.advance, hi, hchildren, hwalk, Bool.not_true, Bool.and_false]
  split
  · rfl
  · have hstart : (σ.set i { n with toProgress := n.toProgress }).record
        (List.map Effect.event []) = σ := by
      rw [set_same hi]
      simp [Plant.record]
    rw [if_neg (by simp), Plant.apply, hstart, recomputeAndReport_silent hi hsig,
      hs.recomputed, set_same hi]

end Ready

/-! ## Trees -/

section Trees

variable {host sink trace : Bool} {t : NodeTree} {σ : Plant}

/-- The rounds of the node with the given id. -/
def NodeTree.roundsAt (t : NodeTree) (i : CoreId) : ℕ := ((t.at? i).map rounds).getD 0

/-- The rounds the node with the given id waits for its children. -/
def NodeTree.waitsAt (t : NodeTree) (i : CoreId) : ℕ :=
  ((t.at? i).map fun s => roundsAll s.children).getD 0

theorem NodeTree.rounds_eq (s : NodeTree) (sink trace : Bool) (u : Option Upstream) :
    s.rounds = max 1 (s.config sink trace u).plan.length + roundsAll s.children := by
  cases s
  rfl

theorem counted_deploy (host sink trace : Bool) (hids : t.ids.Nodup) :
    Counted (Plant.deploy host sink trace t).layout t.roundsAt t.waitsAt where
  total := by
    intro i c hc
    obtain ⟨u, s, hs, rfl, rfl⟩ := exists_placed hc
    simp [NodeTree.roundsAt, NodeTree.waitsAt, NodeTree.at?_eq hids hs,
      NodeTree.rounds_eq s sink trace u]
  wait := by
    intro i c hc k
    obtain ⟨u, s, hs, rfl, rfl⟩ := exists_placed hc
    have hat : ∀ d ∈ s.children, t.roundsAt d.id = d.rounds := fun d hd => by
      simp [NodeTree.roundsAt, NodeTree.at?_eq hids (NodeTree.child_mem_placed hs hd)]
    have hwait : t.waitsAt s.id = NodeTree.roundsAll s.children := by
      simp [NodeTree.waitsAt, NodeTree.at?_eq hids hs]
    rw [hwait, NodeTree.roundsAll_le_iff, NodeTree.config_childIds, List.forall_mem_map]
    exact forall₂_congr fun d hd => by rw [hat d hd]

/-- Before the first round. -/
theorem atRound_deploy (host sink trace : Bool) (t : NodeTree) (W : CoreId → ℕ) (i : CoreId) :
    AtRound (Plant.deploy host sink trace t).layout W 0
      (Plant.deploy host sink trace t).line i := by
  intro m d _ hd
  obtain ⟨n, hn, rfl⟩ := exists_node_of_layout rfl hd
  rw [progress_of_nodes hn]
  simp only [Plant.deploy, Option.map_eq_some_iff] at hn
  obtain ⟨x, -, rfl⟩ := hn
  simp [atRound]

/-- One round of a plant. -/
theorem exec_atRound (hw : Wired L height limit) (hcount : Counted L R W) (hL : L i = some c)
    (hgood : Good L ∅ σ) (h : AtRound L W k σ.line i) :
    ∃ τ, Plant.exec limit σ (.advance i) = some τ ∧ Good L ∅ τ ∧
      AtRound L W (k + 1) τ.line i := by
  have hbound := hw.bounded i c hL
  obtain ⟨τ, hτ, hgoodτ, hline⟩ := exec_refines hw (Nat.zero_lt_of_lt hbound) hgood (.advance i)
  refine ⟨τ, hτ, hgoodτ, ?_⟩
  rw [hline]
  exact Line.advance_atRound hw hcount hL hbound h

/-- Any number of rounds. -/
theorem run_atRound (hw : Wired L height limit) (hcount : Counted L R W) (hL : L i = some c)
    (hgood : Good L ∅ σ) (h : AtRound L W k σ.line i) (j : ℕ) :
    ∃ τ, run (Plant.exec limit) σ (List.replicate j (.advance i)) = some τ ∧ Good L ∅ τ ∧
      AtRound L W (k + j) τ.line i := by
  induction j generalizing σ k with
  | zero => exact ⟨σ, rfl, hgood, h⟩
  | succ j ih =>
      obtain ⟨τ, hτ, hgoodτ, hround⟩ := exec_atRound hw hcount hL hgood h
      obtain ⟨ρ, hρ, hgoodρ, hround'⟩ := ih hgoodτ hround
      refine ⟨ρ, by simp [List.replicate_succ, hτ, hρ], hgoodρ, ?_⟩
      rwa [Nat.add_assoc, Nat.add_comm 1 j] at hround'

/-- The root after `k` rounds. -/
theorem AtRound.ready_iff (hcount : Counted L R W) (hgood : Good L ∅ σ) (hL : L i = some c)
    (h : AtRound L W k σ.line i) :
    ∃ n, σ.nodes i = some n ∧ (n.ready = true ↔ R i ≤ k) := by
  obtain ⟨n, hn, -⟩ := exists_node_of_layout hgood.layout hL
  refine ⟨n, hn, ?_⟩
  have hp := progress_of_nodes hn
  rw [h i c .refl hL] at hp
  have hready : n.ready = (atRound c (W i) k).ready := (congrArg Progress.ready hp).symm
  rw [hready, hcount.total i c hL]
  simp [atRound]

/-- The host's loop stops at the first round the root is ready, or after `guard` rounds. -/
theorem driveToReady_atRound (hw : Wired L height limit) (hcount : Counted L R W)
    (hL : L i = some c) (hgood : Good L ∅ σ) (h : AtRound L W k σ.line i) (guard : ℕ) :
    ∃ τ n, Plant.driveToReady limit i guard σ = some τ ∧ τ.nodes i = some n ∧
      (n.ready = true ↔ R i ≤ k + guard) := by
  induction guard generalizing σ k with
  | zero =>
      obtain ⟨n, hn, hready⟩ := h.ready_iff hcount hgood hL
      exact ⟨σ, n, rfl, hn, hready⟩
  | succ guard ih =>
      obtain ⟨n, hn, hready⟩ := h.ready_iff hcount hgood hL
      by_cases hr : n.ready = true
      · refine ⟨σ, n, by simp [Plant.driveToReady, hn, hr], hn, iff_of_true hr ?_⟩
        have := hready.mp hr
        omega
      · obtain ⟨τ, hτ, hgoodτ, hround⟩ := exec_atRound hw hcount hL hgood h
        obtain ⟨ρ, nρ, hρ, hnρ, hreadyρ⟩ := ih hgoodτ hround
        have hτ' : Plant.advance limit limit i σ = some τ := hτ
        refine ⟨ρ, nρ, by simp [Plant.driveToReady, hn, hr, hτ', hρ], hnρ, ?_⟩
        rw [hreadyρ]
        omega

/-- **The number of rounds.**  From its set-up on, the root of a deployed tree is ready
after `k` rounds exactly when `k` is at least the tree's number of rounds, and once it is
ready a round changes nothing.  So the host's loop, which gives up after a hundred rounds,
leaves the root ready exactly when the tree needs at most a hundred. -/
theorem ready_after_rounds (host sink trace : Bool) {t : NodeTree} (hids : t.ids.Nodup)
    {limit : ℕ} (hlimit : t.height < limit) :
    (∀ k, ∃ σ n, run (Plant.exec limit) (Plant.deploy host sink trace t)
        (List.replicate k (.advance t.id)) = some σ ∧ σ.nodes t.id = some n ∧
      (n.ready = true ↔ t.rounds ≤ k) ∧
      (n.ready = true → Plant.exec limit σ (.advance t.id) = some σ)) ∧
    ∃ σ n, Plant.runToReady limit t.id (Plant.deploy host sink trace t) = some σ ∧
      σ.nodes t.id = some n ∧ (n.ready = true ↔ t.rounds ≤ 100) := by
  have hw := wired_deploy host sink trace hids hlimit
  have hcount := counted_deploy host sink trace hids
  have hL := layout_deploy host sink trace hids (NodeTree.mem_placed_self (topUpstream host) t)
  have hgood := good_deploy host sink trace t
  have hstart := atRound_deploy host sink trace t t.waitsAt t.id
  have hR : t.roundsAt t.id = t.rounds := by
    simp [NodeTree.roundsAt, NodeTree.at?_eq hids (NodeTree.mem_placed_self none t)]
  refine ⟨?_, ?_⟩
  · intro k
    obtain ⟨σ, hrun, hgoodσ, hround⟩ := run_atRound hw hcount hL hgood hstart k
    obtain ⟨n, hn, hready⟩ := hround.ready_iff hcount hgoodσ hL
    refine ⟨σ, n, hrun, hn, by rw [hready, hR, Nat.zero_add], ?_⟩
    intro hr
    obtain ⟨σ', hrun', -, hclosed⟩ := run_deploy_ready host sink trace hids hlimit
      (List.replicate k (.advance t.id))
    obtain rfl := Option.some.inj (hrun.symm.trans hrun')
    obtain ⟨calls, rfl⟩ : ∃ d, limit = d + 1 := ⟨limit - 1, by omega⟩
    exact advance_of_ready hw hgoodσ hclosed hn hr calls
  · obtain ⟨σ, n, hrun, hn, hready⟩ := driveToReady_atRound hw hcount hL hgood hstart 100
    exact ⟨σ, n, hrun, hn, by rw [hready, hR, Nat.zero_add]⟩

/-- The demonstration line needs six rounds. -/
theorem ready_after_rounds_demoLine :
    (∀ k, ∃ σ n, run (Plant.exec 3) (Plant.deploy true true true demoLine)
        (List.replicate k (.advance ⟨1⟩)) = some σ ∧ σ.nodes ⟨1⟩ = some n ∧
      (n.ready = true ↔ 6 ≤ k) ∧
      (n.ready = true → Plant.exec 3 σ (.advance ⟨1⟩) = some σ)) ∧
    ∃ σ n, Plant.runToReady 3 ⟨1⟩ (Plant.deploy true true true demoLine) = some σ ∧
      σ.nodes ⟨1⟩ = some n ∧ (n.ready = true ↔ 6 ≤ 100) :=
  ready_after_rounds (t := demoLine) true true true (by decide) (by decide)

end Trees

end Opencode.Hier
