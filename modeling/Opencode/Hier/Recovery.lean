import Opencode.Hier.Alarms
import Opencode.Hier.Faults

/-!
# Getting ready again

A plant that has been driven, failed, repaired and driven on is somewhere on its way.  A
node that is not ready and has a fault of its own keeps all nodes above it from becoming
ready, and so does a fault that stops production.  Where there is neither, the number of
rounds that are left can be read off the positions in the plans: a round takes one from
every node of the tree at once.

## Main definitions

* `NodeTree.roundsLeft` — the rounds that are left to the top node.
* `Hindered` — something below keeps the node from becoming ready.
* `Line.roundsLeft_round` — what a round takes off.
* `ready_again_iff` — when rounds make a node ready, and how many.
-/

namespace Opencode.Hier

open Opencode.Lib

namespace NodeTree

mutual

/-- The rounds until the top node is ready, as far as the nodes have come. -/
def roundsLeft (π : CoreId → Progress) : NodeTree → ℕ
  | node id _ _ plan _ children =>
      if (π id).ready then 0 else max 1 (plan.length - (π id).pos) + roundsLeftAll π children

/-- The rounds left to the slowest of the trees. -/
def roundsLeftAll (π : CoreId → Progress) : List NodeTree → ℕ
  | [] => 0
  | t :: ts => max (t.roundsLeft π) (roundsLeftAll π ts)

end

variable {π π' : CoreId → Progress}

theorem roundsLeft_eq (s : NodeTree) (sink trace : Bool) (u : Option Upstream)
    (π : CoreId → Progress) :
    s.roundsLeft π =
      if (π s.id).ready then 0
      else max 1 ((s.config sink trace u).plan.length - (π s.id).pos) +
        roundsLeftAll π s.children := by
  cases s
  rfl

/-- No round is left to a ready node, and to no other. -/
theorem roundsLeft_eq_zero_iff (s : NodeTree) :
    s.roundsLeft π = 0 ↔ (π s.id).ready = true := by
  rw [roundsLeft_eq s false false none]
  split
  · simpa
  · rename_i h
    simp only [h, Bool.false_eq_true, iff_false]
    omega

theorem roundsLeftAll_eq_zero_iff (ts : List NodeTree) :
    roundsLeftAll π ts = 0 ↔ ∀ s ∈ ts, (π s.id).ready = true := by
  induction ts with
  | nil => simp [roundsLeftAll]
  | cons s ts ih => simp [roundsLeftAll, ih, roundsLeft_eq_zero_iff]

theorem roundsLeftAll_pred {ts : List NodeTree}
    (h : ∀ s ∈ ts, s.roundsLeft π' = s.roundsLeft π - 1) :
    roundsLeftAll π' ts = roundsLeftAll π ts - 1 := by
  induction ts with
  | nil => rfl
  | cons s ts ih =>
      have hs := h s List.mem_cons_self
      have hts := ih fun s hs => h s (List.mem_cons_of_mem _ hs)
      simp only [roundsLeftAll, hs, hts]
      omega

/-- The rounds of a tree are those left at the start. -/
theorem roundsLeft_le_rounds (s : NodeTree) (π : CoreId → Progress) :
    s.roundsLeft π ≤ s.rounds := by
  induction s using NodeTree.induction with
  | _ s ih =>
      have hall : ∀ ts : List NodeTree, (∀ c ∈ ts, c.roundsLeft π ≤ c.rounds) →
          roundsLeftAll π ts ≤ roundsAll ts := by
        intro ts hts
        induction ts with
        | nil => exact le_rfl
        | cons c ts ihts =>
            have hc := hts c List.mem_cons_self
            have hrest := ihts fun c hc => hts c (List.mem_cons_of_mem _ hc)
            simp only [roundsLeftAll, roundsAll]
            omega
      have hchildren := hall s.children ih
      rw [roundsLeft_eq s false false none, rounds_eq s false false none]
      split
      · exact Nat.zero_le _
      · omega

end NodeTree

/-! ## What is in the way -/

variable {L : Layout} {height : CoreId → ℕ} {limit : ℕ} {i k m : CoreId} {c : NodeConfig}
  {v : Line} {σ : Plant}

/-- Some node of the subtree has a fault that stops production, or has any fault and is not
ready. -/
def Hindered (σ : Plant) (i : CoreId) : Prop :=
  ∃ m n, Below σ.layout i m ∧ σ.nodes m = some n ∧
    ((decideProductionImpact n.ownFault n.criticalToJob).affectsProduction = true ∨
      n.ready = false ∧ n.ownFault ≠ .none)

namespace Line

/-- The same of the line. -/
def Hindered (L : Layout) (π : CoreId → Progress) (i : CoreId) : Prop :=
  ∃ m c, Below L i m ∧ L m = some c ∧
    (c.impact (π m) = true ∨ (π m).ready = false ∧ (π m).ownFault ≠ .none)

/-- A round changes no fault, and a ready node stays ready. -/
theorem round_keeps (hw : Wired L height limit) (v : Line) (i : CoreId) (hm : L m = some c) :
    ((exec L limit v (.advance i)).progress m).ownFault = (v.progress m).ownFault ∧
      ((v.progress m).ready = true →
        ((exec L limit v (.advance i)).progress m).ready = true) := by
  rw [progress_exec hw v _ hm]
  split
  · exact ⟨walk_ownFault c _, fun hr => (c.ready_walk _).mpr (.inl hr)⟩
  · exact ⟨rfl, id⟩

/-- A round takes nothing out of the way, and the node keeps waiting for it. -/
theorem Hindered.round (hw : Wired L height limit) (hclosed : ReadyClosed L v)
    (hi : L i = some c) (h : Hindered L v.progress i) :
    Hindered L (exec L limit v (.advance i)).progress i ∧
      (((exec L limit v (.advance i)).progress i).ready = true ↔
        (v.progress i).ready = true) := by
  by_cases haffects : Affects L v.progress i
  · -- the round is refused
    have hsame : ∀ m c, L m = some c →
        (exec L limit v (.advance i)).progress m = v.progress m := by
      intro m c hm
      rw [progress_exec hw v _ hm]
      exact if_neg fun hvisited => hvisited.1 haffects
    obtain ⟨m, d, hb, hm, hfault⟩ := h
    exact ⟨⟨m, d, hb, hm, by rwa [hsame m d hm]⟩, by rw [hsame i c hi]⟩
  · -- a node that is not ready stands still, and with it all nodes above
    obtain ⟨m, d, hb, hm, himpact | ⟨hready, hfault⟩⟩ := h
    · exact absurd ⟨m, d, hb, hm, himpact⟩ haffects
    · have hsame : (exec L limit v (.advance i)).progress m = v.progress m := by
        rw [progress_exec hw v _ hm]
        exact if_neg fun hvisited => hfault (hvisited.2.2.1 m ⟨hb, .refl⟩)
      have hnot : ∀ w : Line, ReadyClosed L w → (w.progress m).ready = false →
          (w.progress i).ready ≠ true := by
        intro w hw' hwm hwi
        rw [hw'.below hb hwi] at hwm
        cases hwm
      refine ⟨⟨m, d, hb, hm, .inr (by rw [hsame]; exact ⟨hready, hfault⟩)⟩, ?_⟩
      refine iff_of_false (hnot _ (readyClosed_exec hw hclosed _) (by rwa [hsame])) ?_
      exact hnot v hclosed hready

/-- A round puts nothing in the way. -/
theorem not_hindered_round (hw : Wired L height limit) (h : ¬ Hindered L v.progress i) :
    ¬ Hindered L (exec L limit v (.advance i)).progress i := by
  rintro ⟨m, d, hb, hm, hfault⟩
  obtain ⟨hown, hready⟩ := round_keeps hw v i hm
  refine h ⟨m, d, hb, hm, ?_⟩
  rw [NodeConfig.impact, hown] at hfault
  rcases hfault with himpact | ⟨hnot, hne⟩
  · exact .inl himpact
  · refine .inr ⟨?_, hne⟩
    by_contra hr
    rw [hready (by simpa using hr)] at hnot
    cases hnot

/-! ## What a round does -/

/-- With nothing in the way, a node that is not ready takes its step when its children are
ready. -/
theorem visited_iff (hclosed : ReadyClosed L v) (hclear : ¬ Hindered L v.progress i)
    (hlayout : ∀ a, Below L i a → ∃ d, L a = some d) (hb : Below L i m)
    (hready : (v.progress m).ready = false) :
    Visited L v.progress (.advance i) m ↔ ∀ k, Child L m k → (v.progress k).ready = true := by
  refine ⟨fun hvisited => hvisited.2.2.2.2, fun hchildren => ⟨?_, hb, ?_, ?_, hchildren⟩⟩
  · rintro ⟨a, d, ha, hd, himpact⟩
    exact hclear ⟨a, d, ha, hd, .inl himpact⟩
  · intro a ha
    obtain ⟨d, hd⟩ := hlayout a ha.1
    by_contra hne
    refine hclear ⟨a, d, ha.1, hd, .inr ⟨?_, hne⟩⟩
    by_contra hr
    rw [hclosed.below ha.2 (by simpa using hr)] at hready
    cases hready
  · exact fun a ha hne => hclosed.exists_waiting ha.2 hne hready

/-- One visit of a node whose children are ready takes a round off. -/
theorem roundsLeft_walk (c : NodeConfig) {p : Progress} (h : p.ready = false) :
    (if (c.walk p).1.ready then 0 else max 1 (c.plan.length - (c.walk p).1.pos)) =
      max 1 (c.plan.length - p.pos) - 1 := by
  have hpos : (c.walk p).1.pos = if p.pos < c.plan.length then p.pos + 1 else p.pos := by
    rw [c.walk_fst]
    by_cases hlt : p.pos < c.plan.length
    · simp only [Progress.promoteSelf, List.getElem?_eq_getElem hlt, hlt, if_true]
      split <;> rfl
    · simp only [Progress.promoteSelf, List.getElem?_eq_none (not_lt.mp hlt), hlt, if_false]
      split <;> rfl
  have hready : (c.walk p).1.ready = true ↔ c.plan.length ≤ (c.walk p).1.pos := by
    rw [c.ready_walk, h]
    simp
  split at hpos <;> simp only [hready, hpos] <;> split <;> omega

end Line

section Deployed

variable {host sink trace : Bool} {t s : NodeTree} {u : Option Upstream}

/-- **A round takes one round off everywhere**, with nothing in the way. -/
theorem Line.roundsLeft_round (hids : t.ids.Nodup) (hlimit : t.height < limit)
    {L : Layout} (hL : (Plant.deploy host sink trace t).layout = L) (hclosed : ReadyClosed L v)
    (hi : L i = some c) (hclear : ¬ Line.Hindered L v.progress i)
    (hs : (u, s) ∈ t.placed (topUpstream host)) (hb : Below L i s.id) :
    s.roundsLeft (Line.exec L limit v (.advance i)).progress = s.roundsLeft v.progress - 1 := by
  have hw : Wired L t.heightAt limit := hL ▸ wired_deploy host sink trace hids hlimit
  induction s using NodeTree.induction generalizing u with
  | _ s ih =>
      have hm : L s.id = some (s.config sink trace u) :=
        hL ▸ layout_deploy host sink trace hids hs
      have hchild : ∀ d ∈ s.children, Child L s.id d.id := fun d hd =>
        ⟨_, hm, by simpa using ⟨d, hd, rfl⟩⟩
      have hchildren : NodeTree.roundsLeftAll (Line.exec L limit v (.advance i)).progress
          s.children = NodeTree.roundsLeftAll v.progress s.children - 1 :=
        NodeTree.roundsLeftAll_pred fun d hd =>
          ih d hd (NodeTree.child_mem_placed hs hd) (hb.tail (hchild d hd))
      cases hr : (v.progress s.id).ready with
      | true =>
          rw [(NodeTree.roundsLeft_eq_zero_iff s).mpr ((Line.round_keeps hw v i hm).2 hr),
            (NodeTree.roundsLeft_eq_zero_iff s).mpr hr]
      | false =>
          have hvisited := Line.visited_iff hclosed hclear (fun a => hw.exists_below hi) hb hr
          have hall : (∀ k, Child L s.id k → (v.progress k).ready = true) ↔
              NodeTree.roundsLeftAll v.progress s.children = 0 := by
            rw [NodeTree.roundsLeftAll_eq_zero_iff]
            constructor
            · exact fun h d hd => h d.id (hchild d hd)
            · rintro h k hk
              have hmem := (Wired.child_iff hm).mp hk
              rw [NodeTree.config_childIds] at hmem
              obtain ⟨d, hd, rfl⟩ := List.mem_map.mp hmem
              exact h d hd
          rw [NodeTree.roundsLeft_eq s sink trace u, NodeTree.roundsLeft_eq s sink trace u,
            hchildren, Line.progress_exec hw v _ hm, hvisited, hall, hr]
          by_cases hzero : NodeTree.roundsLeftAll v.progress s.children = 0
          · simpa [hzero, Plant.Command.act] using Line.roundsLeft_walk (s.config sink trace u) hr
          · simp only [hzero, hr, if_false, Bool.false_eq_true]
            omega

/-- The node is ready after `k` rounds, as far as can be told now. -/
def Line.ReadyIn (L : Layout) (s : NodeTree) (k : ℕ) (v : Line) : Prop :=
  (v.progress s.id).ready = true ∨
    ¬ Line.Hindered L v.progress s.id ∧ s.roundsLeft v.progress ≤ k

theorem Line.readyIn_zero : Line.ReadyIn L s 0 v ↔ (v.progress s.id).ready = true := by
  rw [Line.ReadyIn, Nat.le_zero, s.roundsLeft_eq_zero_iff]
  exact or_iff_left_of_imp And.right

/-- After a round there is one less to wait for. -/
theorem Line.readyIn_succ (hids : t.ids.Nodup) (hlimit : t.height < limit)
    (hL : (Plant.deploy host sink trace t).layout = L) (hclosed : ReadyClosed L v)
    (hs : (u, s) ∈ t.placed (topUpstream host)) (k : ℕ) :
    Line.ReadyIn L s (k + 1) v ↔ Line.ReadyIn L s k (Line.exec L limit v (.advance s.id)) := by
  have hw : Wired L t.heightAt limit := hL ▸ wired_deploy host sink trace hids hlimit
  have hi : L s.id = some (s.config sink trace u) := hL ▸ layout_deploy host sink trace hids hs
  by_cases hind : Line.Hindered L v.progress s.id
  · obtain ⟨hind', hready⟩ := hind.round hw hclosed hi
    simp only [Line.ReadyIn, hind, hind', hready, not_true_eq_false, false_and]
  · have hind' := Line.not_hindered_round hw hind
    have hround := Line.roundsLeft_round hids hlimit hL hclosed hi hind hs .refl
    simp only [Line.ReadyIn, hind, hind', not_false_iff, true_and, ← s.roundsLeft_eq_zero_iff,
      hround]
    omega

theorem hindered_iff (hL : σ.layout = L) : Hindered σ i ↔ Line.Hindered L σ.line.progress i := by
  rw [Hindered, hL]
  constructor
  · rintro ⟨m, n, hb, hm, hfault⟩
    refine ⟨m, n.toNodeConfig, hb, layout_eq_of_nodes hL hm, ?_⟩
    rw [progress_of_nodes hm]
    exact hfault
  · rintro ⟨m, c, hb, hc, hfault⟩
    obtain ⟨n, hm, rfl⟩ := exists_node_of_layout hL hc
    rw [progress_of_nodes hm] at hfault
    exact ⟨m, n, hb, hm, hfault⟩

/-- A round of a plant. -/
theorem exec_round (hids : t.ids.Nodup) (hlimit : t.height < limit)
    (hL : (Plant.deploy host sink trace t).layout = L) (hgood : Good L ∅ σ)
    (hclosed : ReadyClosed L σ.line) (i : CoreId) :
    ∃ τ, Plant.exec limit σ (.advance i) = some τ ∧ Good L ∅ τ ∧ ReadyClosed L τ.line ∧
      τ.line = Line.exec L limit σ.line (.advance i) := by
  have hw : Wired L t.heightAt limit := hL ▸ wired_deploy host sink trace hids hlimit
  obtain ⟨τ, hτ, hgoodτ, hline⟩ := exec_refines hw (Nat.zero_lt_of_lt hlimit) hgood (.advance i)
  refine ⟨τ, hτ, hgoodτ, ?_, hline⟩
  rw [hline]
  exact Line.readyClosed_exec hw hclosed _

/-- Any number of rounds. -/
theorem run_readyIn (hids : t.ids.Nodup) (hlimit : t.height < limit)
    (hL : (Plant.deploy host sink trace t).layout = L)
    (hs : (u, s) ∈ t.placed (topUpstream host)) (hgood : Good L ∅ σ)
    (hclosed : ReadyClosed L σ.line) (k : ℕ) :
    ∃ τ, run (Plant.exec limit) σ (List.replicate k (.advance s.id)) = some τ ∧ Good L ∅ τ ∧
      ((τ.line.progress s.id).ready = true ↔ Line.ReadyIn L s k σ.line) := by
  induction k generalizing σ with
  | zero => exact ⟨σ, rfl, hgood, Line.readyIn_zero.symm⟩
  | succ k ih =>
      obtain ⟨τ, hτ, hgoodτ, hclosedτ, hline⟩ := exec_round hids hlimit hL hgood hclosed s.id
      obtain ⟨ρ, hρ, hgoodρ, hready⟩ := ih hgoodτ hclosedτ
      refine ⟨ρ, by simp [List.replicate_succ, hτ, hρ], hgoodρ, ?_⟩
      rw [hready, hline, Line.readyIn_succ hids hlimit hL hclosed hs]

/-- The host's loop. -/
theorem driveToReady_readyIn (hids : t.ids.Nodup) (hlimit : t.height < limit)
    (hL : (Plant.deploy host sink trace t).layout = L)
    (hs : (u, s) ∈ t.placed (topUpstream host)) (hgood : Good L ∅ σ)
    (hclosed : ReadyClosed L σ.line) (guard : ℕ) :
    ∃ τ, Plant.driveToReady limit s.id guard σ = some τ ∧ Good L ∅ τ ∧
      ((τ.line.progress s.id).ready = true ↔ Line.ReadyIn L s guard σ.line) := by
  have hi : L s.id = some (s.config sink trace u) := hL ▸ layout_deploy host sink trace hids hs
  induction guard generalizing σ with
  | zero => exact ⟨σ, rfl, hgood, Line.readyIn_zero.symm⟩
  | succ guard ih =>
      obtain ⟨n, hn, -⟩ := exists_node_of_layout hgood.layout hi
      have hp := progress_of_nodes hn
      cases hr : n.ready with
      | true =>
          have hready : (σ.line.progress s.id).ready = true := by rw [hp]; exact hr
          exact ⟨σ, by simp [Plant.driveToReady, hn, hr], hgood,
            iff_of_true hready (.inl hready)⟩
      | false =>
          obtain ⟨τ, hτ, hgoodτ, hclosedτ, hline⟩ := exec_round hids hlimit hL hgood hclosed s.id
          obtain ⟨ρ, hρ, hgoodρ, hready⟩ := ih hgoodτ hclosedτ
          have hτ' : Plant.advance limit limit s.id σ = some τ := hτ
          refine ⟨ρ, by simp [Plant.driveToReady, hn, hr, hτ', hρ], hgoodρ, ?_⟩
          rw [hready, hline, Line.readyIn_succ hids hlimit hL hclosed hs]

/-- **When rounds make a node ready, and how many.**  After any commands on a deployed tree,
rounds of a node leave it ready exactly if it was ready, or nothing below it stops
production, nothing that is not ready below it has a fault, and the rounds are as many as
are left.  They are never more than the tree needs from its set-up on, and the host's loop
makes a hundred of them. -/
theorem ready_again_iff (host sink trace : Bool) {t : NodeTree} (hids : t.ids.Nodup)
    {limit : ℕ} (hlimit : t.height < limit) (cmds : List Plant.Command) :
    ∃ σ, run (Plant.exec limit) (Plant.deploy host sink trace t) cmds = some σ ∧
      ∀ u s, (u, s) ∈ t.placed (topUpstream host) →
        ∃ n, σ.nodes s.id = some n ∧
          (∀ k, ∃ τ nτ, run (Plant.exec limit) σ (List.replicate k (.advance s.id)) = some τ ∧
            τ.nodes s.id = some nτ ∧
            (nτ.ready = true ↔
              n.ready = true ∨ ¬ Hindered σ s.id ∧ s.roundsLeft σ.line.progress ≤ k)) ∧
          (∃ τ nτ, Plant.runToReady limit s.id σ = some τ ∧ τ.nodes s.id = some nτ ∧
            (nτ.ready = true ↔
              n.ready = true ∨ ¬ Hindered σ s.id ∧ s.roundsLeft σ.line.progress ≤ 100)) ∧
          s.roundsLeft σ.line.progress ≤ s.rounds := by
  obtain ⟨σ, hrun, hgood, hclosed⟩ := run_deploy_ready host sink trace hids hlimit cmds
  refine ⟨σ, hrun, fun u s hs => ?_⟩
  have hi := layout_deploy host sink trace hids hs
  obtain ⟨n, hn, -⟩ := exists_node_of_layout hgood.layout hi
  have hreadyIn : ∀ k, Line.ReadyIn (Plant.deploy host sink trace t).layout s k σ.line ↔
      n.ready = true ∨ ¬ Hindered σ s.id ∧ s.roundsLeft σ.line.progress ≤ k := by
    intro k
    rw [Line.ReadyIn, ← hindered_iff hgood.layout, progress_of_nodes hn]
  have hend : ∀ (τ : Plant) (k : ℕ), Good (Plant.deploy host sink trace t).layout ∅ τ →
      ((τ.line.progress s.id).ready = true ↔
        Line.ReadyIn (Plant.deploy host sink trace t).layout s k σ.line) →
      ∃ nτ, τ.nodes s.id = some nτ ∧
        (nτ.ready = true ↔
          n.ready = true ∨ ¬ Hindered σ s.id ∧ s.roundsLeft σ.line.progress ≤ k) := by
    intro τ k hgoodτ hready
    obtain ⟨nτ, hnτ, -⟩ := exists_node_of_layout hgoodτ.layout hi
    rw [progress_of_nodes hnτ, hreadyIn] at hready
    exact ⟨nτ, hnτ, hready⟩
  refine ⟨n, hn, fun k => ?_, ?_, s.roundsLeft_le_rounds _⟩
  · obtain ⟨τ, hτ, hgoodτ, hready⟩ := run_readyIn hids hlimit rfl hs hgood hclosed k
    obtain ⟨nτ, hnτ, hiff⟩ := hend τ k hgoodτ hready
    exact ⟨τ, nτ, hτ, hnτ, hiff⟩
  · obtain ⟨τ, hτ, hgoodτ, hready⟩ := driveToReady_readyIn hids hlimit rfl hs hgood hclosed 100
    obtain ⟨nτ, hnτ, hiff⟩ := hend τ 100 hgoodτ hready
    exact ⟨τ, nτ, hτ, hnτ, hiff⟩

/-- On the demonstration line, with a fault that is repaired. -/
theorem ready_again_iff_demoLine :
    ∃ σ, run (Plant.exec 3) (Plant.deploy true true true demoLine)
        [.advance ⟨1⟩, .fail ⟨112⟩ .alarm, .advance ⟨1⟩, .clearFault ⟨112⟩] = some σ ∧
      ∀ u s, (u, s) ∈ demoLine.placed (topUpstream true) →
        ∃ n, σ.nodes s.id = some n ∧
          (∀ k, ∃ τ nτ, run (Plant.exec 3) σ (List.replicate k (.advance s.id)) = some τ ∧
            τ.nodes s.id = some nτ ∧
            (nτ.ready = true ↔
              n.ready = true ∨ ¬ Hindered σ s.id ∧ s.roundsLeft σ.line.progress ≤ k)) ∧
          (∃ τ nτ, Plant.runToReady 3 s.id σ = some τ ∧ τ.nodes s.id = some nτ ∧
            (nτ.ready = true ↔
              n.ready = true ∨ ¬ Hindered σ s.id ∧ s.roundsLeft σ.line.progress ≤ 100)) ∧
          s.roundsLeft σ.line.progress ≤ s.rounds :=
  ready_again_iff (t := demoLine) true true true (by decide) (by decide) _

end Deployed

end Opencode.Hier
