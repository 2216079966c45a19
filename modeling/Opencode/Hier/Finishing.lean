import Opencode.Hier.Refinement
import Opencode.Hier.Visits

/-!
# Finishing a subtree

`finishWork` stops a node that works and goes on to its children; at a node that does not
work it turns back.  Start and finish may be given at any level, so below a node that does
not work another one may: its parent was finished, and it was started again on its own.
`finishWork` does not come to it from above.

## Main definitions

* `Stopped` — no node of the subtree works.
* `Connected` — from the top of the subtree, the nodes that work are reached over nodes
  that work.
* `stopped_iff_connected` — finishing a subtree in any reachable state.
-/

namespace Opencode.Hier

open Opencode.Lib

variable {L : Layout} {height : CoreId → ℕ} {limit : ℕ} {i m : CoreId} {σ τ : Plant}

/-- No node of the subtree works. -/
def Stopped (σ : Plant) (i : CoreId) : Prop :=
  ∀ m n, Below σ.layout i m → σ.nodes m = some n → n.working = false

/-- Between `i` and a node of its subtree that works, `i` included, all nodes work. -/
def Connected (σ : Plant) (i : CoreId) : Prop :=
  ∀ m n, Below σ.layout i m → σ.nodes m = some n → n.working = true →
    ∀ a b, Line.Between σ.layout i a m → σ.nodes a = some b → b.working = true

/-- The nodes of the plant are the nodes of its layout with the progress of its line. -/
theorem forall_nodes_iff (hL : σ.layout = L) {P : Progress → Prop} :
    (∀ n, σ.nodes m = some n → P n.toProgress) ↔
      ((L m).isSome → P (σ.line.progress m)) := by
  constructor
  · intro h hm
    obtain ⟨c, hc⟩ := Option.isSome_iff_exists.mp hm
    obtain ⟨n, hn, -⟩ := exists_node_of_layout hL hc
    rw [progress_of_nodes hn]
    exact h n hn
  · intro h n hn
    have hm : (L m).isSome := by simp [layout_eq_of_nodes hL hn]
    have := h hm
    rwa [progress_of_nodes hn] at this

theorem stopped_iff (hL : σ.layout = L) :
    Stopped σ i ↔ ∀ m, Below L i m → (L m).isSome → (σ.line.progress m).working = false := by
  rw [Stopped, hL]
  constructor
  · intro h m hb
    exact (forall_nodes_iff hL (P := fun p => p.working = false)).mp fun n hn => h m n hb hn
  · intro h m n hb hn
    exact (forall_nodes_iff hL (P := fun p => p.working = false)).mpr (h m hb) n hn

theorem connected_iff (hL : σ.layout = L) :
    Connected σ i ↔ ∀ m, Below L i m → (L m).isSome → (σ.line.progress m).working = true →
      ∀ a, Line.Between L i a m → (L a).isSome → (σ.line.progress a).working = true := by
  rw [Connected, hL]
  constructor
  · intro h m hb hm hwork a ha
    obtain ⟨c, hc⟩ := Option.isSome_iff_exists.mp hm
    obtain ⟨n, hn, -⟩ := exists_node_of_layout hL hc
    rw [progress_of_nodes hn] at hwork
    exact (forall_nodes_iff hL (P := fun p => p.working = true)).mp fun b hb' =>
      h m n hb hn hwork a b ha hb'
  · intro h m n hb hn hwork a b ha hb'
    have hm : (L m).isSome := by simp [layout_eq_of_nodes hL hn]
    have hall := h m hb hm (by rw [progress_of_nodes hn]; exact hwork) a ha
    exact (forall_nodes_iff hL (P := fun p => p.working = true)).mpr hall b hb'

/-- A node on the way down to one that is there is there. -/
theorem isSome_between (hm : (L m).isSome) {a : CoreId}
    (ha : Line.Between L i a m) : (L a).isSome := by
  rcases Relation.ReflTransGen.cases_head ha.2 with rfl | ⟨k, ⟨c, hc, -⟩, -⟩
  · exact hm
  · simp [hc]

/-- **Finishing stops what it reaches over nodes that work.** -/
theorem stopped_exec_iff (hw : Wired L height limit) (hσ : σ.layout = L) (hτ : τ.layout = L)
    (hline : τ.line = Line.exec L limit σ.line (.finishWork i)) :
    Stopped τ i ↔ Connected σ i := by
  rw [stopped_iff hτ, connected_iff hσ, hline]
  refine forall₂_congr fun m hb => forall_congr' fun hm => ?_
  obtain ⟨c, hc⟩ := Option.isSome_iff_exists.mp hm
  rw [Line.progress_exec hw _ _ hc]
  by_cases hvisit : Line.Visited L σ.line.progress (.finishWork i) m
  · rw [if_pos hvisit]
    exact iff_of_true rfl fun _ a ha _ => hvisit.2 a ha
  · rw [if_neg hvisit, Bool.eq_false_iff]
    refine forall_congr' fun _ => iff_of_false not_false fun h => ?_
    exact hvisit ⟨hb, fun a ha => h a ha (isSome_between hm ha)⟩

/-- **When finishing stops the whole subtree.**  After any commands on a deployed tree,
`finishWork` returns, and no node of the subtree works any more exactly if every node of it
that worked was reached over nodes that worked. -/
theorem stopped_iff_connected (host sink trace : Bool) {t : NodeTree} (hids : t.ids.Nodup)
    {limit : ℕ} (hlimit : t.height < limit) (cmds : List Plant.Command) (id : CoreId) :
    ∃ σ τ, run (Plant.exec limit) (Plant.deploy host sink trace t) cmds = some σ ∧
      Plant.exec limit σ (.finishWork id) = some τ ∧ (Stopped τ id ↔ Connected σ id) := by
  have hw := wired_deploy host sink trace hids hlimit
  obtain ⟨σ, hrun, hgood, -⟩ := run_deploy host sink trace hids hlimit cmds
  obtain ⟨τ, hτ, hgood', hline⟩ :=
    exec_refines hw (Nat.zero_lt_of_lt hlimit) hgood (.finishWork id)
  exact ⟨σ, τ, hrun, hτ, stopped_exec_iff hw hgood.layout hgood'.layout hline⟩

/-- The machining station of the demonstration line, three layers high. -/
def machining : NodeTree :=
  .node ⟨1⟩ "产线" 0 [.power] true [
    .node ⟨12⟩ "加工工位" 1 [.power] true [
      .node ⟨121⟩ "精密定位DP-200" 2 [.power] true []]]

/-- All of it works when it is finished. -/
theorem stopped_iff_connected_machining :
    ∃ σ τ, run (Plant.exec 3) (Plant.deploy true true true machining)
        [.advance ⟨121⟩, .advance ⟨12⟩, .advance ⟨1⟩, .startWork ⟨1⟩] = some σ ∧
      Plant.exec 3 σ (.finishWork ⟨1⟩) = some τ ∧ (Stopped τ ⟨1⟩ ↔ Connected σ ⟨1⟩) :=
  stopped_iff_connected true true true (by decide) (by decide) _ _

/-- The station is finished on its own and its machine started again: finishing the line
does not come to the machine. -/
theorem not_stopped_machining :
    ∃ σ τ, run (Plant.exec 3) (Plant.deploy true true true machining)
        [.advance ⟨121⟩, .advance ⟨12⟩, .advance ⟨1⟩, .startWork ⟨1⟩, .finishWork ⟨12⟩,
          .startWork ⟨121⟩] = some σ ∧
      (∃ n, σ.nodes ⟨1⟩ = some n ∧ n.working = true) ∧
      Plant.exec 3 σ (.finishWork ⟨1⟩) = some τ ∧ ¬ Stopped τ ⟨1⟩ := by
  obtain ⟨σ, hrun, hwork, τ, hτ, htop, hstation, hmachine⟩ :
      ∃ σ ∈ run (Plant.exec 3) (Plant.deploy true true true machining)
          [.advance ⟨121⟩, .advance ⟨12⟩, .advance ⟨1⟩, .startWork ⟨1⟩, .finishWork ⟨12⟩,
            .startWork ⟨121⟩],
        (σ.nodes ⟨1⟩).map (fun n => n.working) = some true ∧
          ∃ τ ∈ Plant.exec 3 σ (.finishWork ⟨1⟩),
            (τ.layout ⟨1⟩).map (fun c => c.childIds) = some [⟨12⟩] ∧
              (τ.layout ⟨12⟩).map (fun c => c.childIds) = some [⟨121⟩] ∧
              (τ.nodes ⟨121⟩).map (fun n => n.working) = some true := by
    decide +kernel
  have hchild : ∀ i k, (τ.layout i).map (fun c => c.childIds) = some [k] → Child τ.layout i k := by
    intro i k h
    obtain ⟨c, hc, hk⟩ := Option.map_eq_some_iff.mp h
    exact ⟨c, hc, by simp [hk]⟩
  obtain ⟨n, hn, hworking⟩ := Option.map_eq_some_iff.mp hmachine
  refine ⟨σ, τ, hrun, Option.map_eq_some_iff.mp hwork, hτ, fun hstopped => ?_⟩
  have hbelow : Below τ.layout ⟨1⟩ ⟨121⟩ := .tail (.single (hchild _ _ htop)) (hchild _ _ hstation)
  exact absurd ((hstopped _ n hbelow hn).symm.trans hworking) (by decide)

end Opencode.Hier
