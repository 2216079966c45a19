import Opencode.Hier.Refinement

/-!
# What the layers know of each other

The two promises of the reporting channel, for every tree the composition root can wire
and after every sequence of commands on any of its nodes.  A node's view of production is
the view of its whole subtree, although it only ever heard from its children; and the
reports are exactly the changes, so that every layer above a node knows its state.

## Main results

* `affectsProduction_iff_subtree` — production impact is aggregated exactly.
* `reports_sound` — the last report is true, none repeats, and the parents' entries agree.
-/

namespace Opencode.Hier

open Opencode.Lib

/-- **Production impact is aggregated exactly.**  After any commands on a deployed tree a
node reports an effect on production if and only if some node of its subtree has a fault
that affects production. -/
theorem affectsProduction_iff_subtree (host sink trace : Bool) {t : NodeTree}
    (hids : t.ids.Nodup) {limit : ℕ} (hlimit : t.height < limit)
    (cmds : List Plant.Command) :
    ∃ σ, run (Plant.exec limit) (Plant.deploy host sink trace t) cmds = some σ ∧
      ∀ i n, σ.nodes i = some n → (n.affectsProduction = true ↔ FaultBelow σ i) := by
  obtain ⟨σ, hrun, hgood, -⟩ := run_deploy host sink trace hids hlimit cmds
  have hw := wired_deploy host sink trace hids hlimit
  refine ⟨σ, hrun, ?_⟩
  intro i n hi
  rw [HierNode.affectsProduction, hgood.blocking_iff hw hi (by simp),
    faultBelow_iff hgood.layout]

/-- On the demonstration line a hard fault of the heater reaches the line. -/
theorem affectsProduction_iff_subtree_demoLine :
    ∃ σ, run (Plant.exec 3) (Plant.deploy true true true demoLine)
        [.fail ⟨111⟩ .blocking, .advance ⟨1⟩] = some σ ∧
      ∀ i n, σ.nodes i = some n → (n.affectsProduction = true ↔ FaultBelow σ i) :=
  affectsProduction_iff_subtree true true true (by decide) (by decide) _

/-- **The reports are sound.**  After any commands on a deployed tree: the last report a
node delivered says what is the case, or it delivered none and is as it was set up; no
report repeats the one before it; and what a parent knows of a child is true, a missing
entry standing for `false`. -/
theorem reports_sound (host sink trace : Bool) {t : NodeTree} (hids : t.ids.Nodup)
    {limit : ℕ} (hlimit : t.height < limit) (cmds : List Plant.Command) :
    ∃ σ, run (Plant.exec limit) (Plant.deploy host sink trace t) cmds = some σ ∧
      (∀ i n, σ.nodes i = some n → n.up ≠ none →
        reports σ.log i = [] ∧ n.curState = .unknown ∧ n.ownFault = .none ∧
            n.ready = false ∧ n.affectsProduction = false ∨
          ∃ r, (reports σ.log i).getLast? = some r ∧ r.step = n.curState ∧
            r.fault = n.ownFault ∧ r.ready = n.ready ∧ r.blocking = n.affectsProduction) ∧
      (∀ i, (reports σ.log i).IsChain fun r r' =>
        (r.step, r.fault, r.ready, r.blocking) ≠ (r'.step, r'.fault, r'.ready, r'.blocking)) ∧
      ∀ i p, σ.nodes i = some p → ∀ k ∈ p.childIds, ∃ c, σ.nodes k = some c ∧
        (p.childReady.lookup k).getD false = c.ready ∧
        (p.childBlock.lookup k).getD false = c.affectsProduction := by
  obtain ⟨σ, hrun, hgood, -⟩ := run_deploy host sink trace hids hlimit cmds
  have hw := wired_deploy host sink trace hids hlimit
  refine ⟨σ, hrun, ?_, ?_, ?_⟩
  · intro i n hi hup
    obtain ⟨u, hu⟩ := Option.ne_none_iff_exists'.mp hup
    have hs := hgood.settled i n hi (by simp)
    rcases hgood.mirrored.lastReport_cases hi hu hs with ⟨hnone, hinit⟩ | ⟨r, hr, hstatus⟩
    · left
      have hfields : n.status = ⟨.unknown, .none, false, false⟩ := hinit
      simp only [HierNode.status, Status.mk.injEq] at hfields
      exact ⟨List.getLast?_eq_none_iff.mp hnone, hfields⟩
    · right
      simp only [ProcessReport.status, HierNode.status, Status.mk.injEq] at hstatus
      exact ⟨r, hr, hstatus⟩
  · intro i
    refine (hgood.mirrored.fresh i).imp fun r r' hne heq => hne ?_
    simp only [Prod.mk.injEq] at heq
    simp only [ProcessReport.status, Status.mk.injEq]
    exact heq
  · intro i p hi k hk
    obtain ⟨d, hd, -⟩ := hw.child i _ (layout_eq_of_nodes hgood.layout hi) k hk
    obtain ⟨c, hc, -⟩ := exists_node_of_layout hgood.layout hd
    exact ⟨c, hc, hgood.mirrored.entries hw hgood.layout hi hk hc (hgood.settled k c hc (by simp))⟩

/-- On the demonstration line with a warning from the camera. -/
theorem reports_sound_demoLine :
    ∃ σ, run (Plant.exec 3) (Plant.deploy true true true demoLine)
        [.advance ⟨1⟩, .fail ⟨131⟩ .alarm, .advance ⟨1⟩] = some σ ∧
      (∀ i n, σ.nodes i = some n → n.up ≠ none →
        reports σ.log i = [] ∧ n.curState = .unknown ∧ n.ownFault = .none ∧
            n.ready = false ∧ n.affectsProduction = false ∨
          ∃ r, (reports σ.log i).getLast? = some r ∧ r.step = n.curState ∧
            r.fault = n.ownFault ∧ r.ready = n.ready ∧ r.blocking = n.affectsProduction) ∧
      (∀ i, (reports σ.log i).IsChain fun r r' =>
        (r.step, r.fault, r.ready, r.blocking) ≠ (r'.step, r'.fault, r'.ready, r'.blocking)) ∧
      ∀ i p, σ.nodes i = some p → ∀ k ∈ p.childIds, ∃ c, σ.nodes k = some c ∧
        (p.childReady.lookup k).getD false = c.ready ∧
        (p.childBlock.lookup k).getD false = c.affectsProduction :=
  reports_sound true true true (by decide) (by decide) _

end Opencode.Hier
