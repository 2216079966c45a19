import Opencode.Hier.Locality
import Opencode.Hier.Refinement

/-!
# Readiness and starting

Readiness is closed downwards: a node becomes ready only when its children are, and never
stops being ready.  So a start that is accepted at the top of a subtree is accepted by
every node of it, and a start or a step is refused as a whole when the subtree is not fit
for it.

## Main results

* `ReadyClosed` — the invariant, kept by every command of the line.
* `Line.startWork_all` — an accepted start reaches every node.
* `ready_and_start` — the same of the nodes.
-/

namespace Opencode.Hier

open Opencode.Lib

variable {L : Layout} {height : CoreId → ℕ} {limit : ℕ} {i k m : CoreId} {c : NodeConfig}
  {v : Line}

/-- The children of a ready node are ready, and its plan is done. -/
structure ReadyClosed (L : Layout) (v : Line) : Prop where
  child : ∀ i k, Child L i k → (v.progress i).ready = true → (v.progress k).ready = true
  plan : ∀ i c, L i = some c → (v.progress i).ready = true → c.plan.length ≤ (v.progress i).pos

theorem ReadyClosed.below (h : ReadyClosed L v) (hb : Below L i m)
    (hi : (v.progress i).ready = true) : (v.progress m).ready = true := by
  induction hb with
  | refl => exact hi
  | tail _ hc ih => exact h.child _ _ hc ih

/-- A change of a node that does not touch readiness. -/
theorem ReadyClosed.update (h : ReadyClosed L v) {p : Progress × List DomainEvent}
    (hready : p.1.ready = (v.progress i).ready) (hpos : p.1.pos = (v.progress i).pos) :
    ReadyClosed L (v.update i p) := by
  have hr : ∀ j, ((v.update i p).progress j).ready = (v.progress j).ready := by
    intro j
    by_cases hj : j = i
    · subst hj
      simpa using hready
    · simp [hj]
  have hp : ∀ j, ((v.update i p).progress j).pos = (v.progress j).pos := by
    intro j
    by_cases hj : j = i
    · subst hj
      simpa using hpos
    · simp [hj]
  refine ⟨?_, ?_⟩
  · intro j k hc hj
    rw [hr] at hj ⊢
    exact h.child j k hc hj
  · intro j c hc hj
    rw [hr] at hj
    rw [hp]
    exact h.plan j c hc hj

/-- A node walks its plan only when all its children are ready. -/
theorem ReadyClosed.walk (hw : Wired L height limit) (h : ReadyClosed L v) (hL : L i = some c)
    (hchild : ∀ k ∈ c.childIds, (v.progress k).ready = true) :
    ReadyClosed L (v.update i (c.walk (v.progress i))) := by
  refine ⟨?_, ?_⟩
  · intro j k hc hj
    by_cases hki : k = i
    · subst hki
      have hjk : j ≠ k := fun heq => hw.not_below_child hc (heq ▸ .refl)
      rw [Line.progress_update_ne _ _ hjk] at hj
      rw [Line.progress_update_self]
      exact (c.ready_walk _).mpr (.inl (h.child j k hc hj))
    · rw [Line.progress_update_ne _ _ hki]
      by_cases hji : j = i
      · subst hji
        obtain ⟨c', hc', hk⟩ := hc
        obtain rfl := Option.some.inj (hL.symm.trans hc')
        exact hchild k hk
      · rw [Line.progress_update_ne _ _ hji] at hj
        exact h.child j k hc hj
  · intro j c' hc' hj
    by_cases hji : j = i
    · subst hji
      obtain rfl := Option.some.inj (hL.symm.trans hc')
      rw [Line.progress_update_self] at hj ⊢
      rcases (c.ready_walk _).mp hj with hr | hpos
      · exact (h.plan j c hL hr).trans (c.le_pos_walk _)
      · exact hpos
    · rw [Line.progress_update_ne _ _ hji] at hj ⊢
      exact h.plan j c' hc' hj

namespace Line

open Classical

theorem readyClosed_advance (hw : Wired L height limit) (calls : ℕ) (h : ReadyClosed L v)
    (i : CoreId) : ReadyClosed L (advance L calls v i) := by
  induction calls generalizing v i with
  | zero => exact h
  | succ calls ih =>
      cases hL : L i with
      | none => simpa [advance, hL] using h
      | some c =>
          simp only [advance, hL]
          split
          · exact h
          · split
            · exact List.foldlRecOn c.childIds (advance L calls) h fun v hv k _ => ih hv k
            · rename_i hwait
              push Not at hwait
              exact h.walk hw hL hwait

theorem readyClosed_startWork (calls : ℕ) (h : ReadyClosed L v) (i : CoreId) :
    ReadyClosed L (startWork L calls v i) := by
  induction calls generalizing v i with
  | zero => exact h
  | succ calls ih =>
      cases hL : L i with
      | none => simpa [startWork, hL] using h
      | some c =>
          simp only [startWork, hL]
          split
          · exact h
          · exact List.foldlRecOn c.childIds (startWork L calls) (h.update rfl rfl)
              fun v hv k _ => ih hv k

theorem readyClosed_finishWork (calls : ℕ) (h : ReadyClosed L v) (i : CoreId) :
    ReadyClosed L (finishWork L calls v i) := by
  induction calls generalizing v i with
  | zero => exact h
  | succ calls ih =>
      cases hL : L i with
      | none => simpa [finishWork, hL] using h
      | some c =>
          simp only [finishWork, hL]
          split
          · exact h
          · exact List.foldlRecOn c.childIds (finishWork L calls) (h.update rfl rfl)
              fun v hv k _ => ih hv k

/-- **Every command keeps readiness closed.** -/
theorem readyClosed_exec (hw : Wired L height limit) (h : ReadyClosed L v)
    (cmd : Plant.Command) : ReadyClosed L (exec L limit v cmd) := by
  cases cmd with
  | advance id => exact readyClosed_advance hw limit h id
  | startWork id => exact readyClosed_startWork limit h id
  | finishWork id => exact readyClosed_finishWork limit h id
  | fail id sev =>
      simp only [exec, fail]
      split
      · exact h
      · exact h.update rfl rfl
  | clearFault id =>
      simp only [exec, clearFault]
      split
      · exact h
      · split
        · exact h
        · exact h.update rfl rfl

/-- **An accepted start reaches every node of the subtree.** -/
theorem startWork_all (hw : Wired L height limit) {calls : ℕ} (hL : L i = some c)
    (hcalls : height i < calls) (hready : ∀ m, Below L i m → (v.progress m).ready = true)
    (hclear : ¬ Affects L v.progress i) (hm : Below L i m) :
    (startWork L calls v i).progress m = started (v.progress m) := by
  induction calls generalizing i c m with
  | zero => exact absurd hcalls (Nat.not_lt_zero _)
  | succ calls ih =>
      have hgo : ¬ (¬ (v.progress i).ready = true ∨ Affects L v.progress i) := by
        rintro (hr | ha)
        · exact hr (hready i .refl)
        · exact hclear ha
      have hlocal : ∀ k ∈ c.childIds, Local L k fun v => startWork L calls v k := fun k _ =>
        startWork_local hw calls k
      simp only [startWork, hL, if_neg hgo]
      rcases (Wired.below_iff_of_layout hL).mp hm with rfl | ⟨k, hk, hb⟩
      · rw [foldl_frame hlocal _ fun k hk => hw.not_below_child ⟨c, hL, hk⟩]
        simp
      · have hchild : Child L i k := ⟨c, hL, hk⟩
        rw [foldl_inside (hw.children_disjoint hL) hlocal _ hk hb]
        -- The change of the parent is outside of the child's subtree.
        have hout : ∀ m', Below L k m' →
            (v.update i (started (v.progress i), [])).progress m' = v.progress m' := by
          intro m' hm'
          exact progress_update_ne v _ fun heq => hw.not_below_child hchild (heq ▸ hm')
        obtain ⟨d, hd, -⟩ := hw.child i c hL k hk
        rw [(hlocal k hk).congr _ v hout m hb]
        have hlower := hw.lower i c hL k hk
        exact ih hd (by omega) (fun m' hm' => hready m' (.head hchild hm'))
          (mt (.of_below (.single hchild)) hclear) hb

end Line

/-! ## The nodes -/

theorem readyClosed_deploy (host sink trace : Bool) (t : NodeTree) :
    ReadyClosed (Plant.deploy host sink trace t).layout (Plant.deploy host sink trace t).line := by
  have hnot : ∀ i, ((Plant.deploy host sink trace t).line.progress i).ready = false := by
    intro i
    cases hn : (Plant.deploy host sink trace t).nodes i with
    | none => simp [Plant.line, hn, default, instInhabitedProgress.default]
    | some n =>
        simp only [Plant.deploy, Option.map_eq_some_iff] at hn
        obtain ⟨x, hx, rfl⟩ := hn
        simp [Plant.line, Plant.deploy, hx]
  refine ⟨?_, ?_⟩
  · intro i k _ hi
    simp [hnot] at hi
  · intro i c _ hi
    simp [hnot] at hi

/-- After any commands on a deployed tree readiness is closed. -/
theorem run_deploy_ready (host sink trace : Bool) {t : NodeTree} (hids : t.ids.Nodup)
    (hlimit : t.height < limit) (cmds : List Plant.Command) :
    ∃ σ, run (Plant.exec limit) (Plant.deploy host sink trace t) cmds = some σ ∧
      Good (Plant.deploy host sink trace t).layout ∅ σ ∧
      ReadyClosed (Plant.deploy host sink trace t).layout σ.line := by
  obtain ⟨σ, hrun, hgood, hline⟩ := run_deploy host sink trace hids hlimit cmds
  refine ⟨σ, hrun, hgood, ?_⟩
  rw [hline]
  exact List.foldlRecOn cmds _ (readyClosed_deploy host sink trace t) fun v hv cmd _ =>
    Line.readyClosed_exec (wired_deploy host sink trace hids hlimit) hv cmd

section Refusals

variable {σ : Plant} {n : HierNode} {calls : ℕ}

theorem startWork_refused (hi : σ.nodes i = some n) (h : n.ready = false ∨ n.blocking = true) :
    Plant.startWork limit (calls + 1) i σ = some σ := by
  have hstop : (!n.ready || n.blocking) = true := by
    rcases h with h | h <;> simp [h]
  simp only [Plant.startWork, hi, if_pos hstop]

theorem advance_refused (hi : σ.nodes i = some n) (h : n.blocking = true) :
    Plant.advance limit (calls + 1) i σ = some σ := by
  have hstop : (n.inFault || n.blocking) = true := by simp [h]
  simp only [Plant.advance, hi, if_pos hstop]

end Refusals

/-- **Readiness and starting.**  After any commands on a deployed tree: the subtree of a
ready node is ready; starting a ready node without a production fault below it sets all
its subtree to work; starting a node that is not ready, and starting or advancing a node
with a production fault below it, changes nothing at all. -/
theorem ready_and_start (host sink trace : Bool) {t : NodeTree} (hids : t.ids.Nodup)
    {limit : ℕ} (hlimit : t.height < limit) (cmds : List Plant.Command) :
    ∃ σ, run (Plant.exec limit) (Plant.deploy host sink trace t) cmds = some σ ∧
      ∀ i n, σ.nodes i = some n →
        (n.ready = true → ∀ m nm, Below σ.layout i m → σ.nodes m = some nm →
          nm.ready = true) ∧
        (n.ready = true → ¬ FaultBelow σ i →
          ∃ τ, Plant.exec limit σ (.startWork i) = some τ ∧
            ∀ m, Below σ.layout i m → ∃ nm, τ.nodes m = some nm ∧
              nm.working = true ∧ nm.curState = .work) ∧
        (n.ready = false → Plant.exec limit σ (.startWork i) = some σ) ∧
        (FaultBelow σ i → Plant.exec limit σ (.startWork i) = some σ ∧
          Plant.exec limit σ (.advance i) = some σ) := by
  obtain ⟨σ, hrun, hgood, hclosed⟩ := run_deploy_ready host sink trace hids hlimit cmds
  have hw := wired_deploy host sink trace hids hlimit
  refine ⟨σ, hrun, ?_⟩
  intro i n hi
  have hL := layout_eq_of_nodes hgood.layout hi
  have hfault := (faultBelow_iff (i := i) hgood.layout)
  have hblocking := hgood.blocking_iff hw hi (by simp)
  have hready : n.ready = true → ∀ m, Below (Plant.deploy host sink trace t).layout i m →
      (σ.line.progress m).ready = true := by
    intro hr m hb
    refine hclosed.below hb ?_
    rw [progress_of_nodes hi]
    exact hr
  obtain ⟨calls, rfl⟩ : ∃ d, limit = d + 1 := ⟨limit - 1, by omega⟩
  refine ⟨?_, ?_, ?_, ?_⟩
  · intro hr m nm hb hm
    rw [hgood.layout] at hb
    have hrm := hready hr m hb
    rw [progress_of_nodes hm] at hrm
    exact hrm
  · intro hr hclear
    obtain ⟨τ, hτ, hgoodτ, hline⟩ := exec_refines hw (Nat.zero_lt_of_lt hlimit) hgood
      (.startWork i)
    refine ⟨τ, hτ, ?_⟩
    intro m hb
    rw [hgood.layout] at hb
    obtain ⟨d, hd⟩ := hw.exists_below hL hb
    obtain ⟨nm, hm, -⟩ := exists_node_of_layout hgoodτ.layout hd
    have hall := Line.startWork_all hw hL (hw.bounded i _ hL) (hready hr)
      (mt hfault.mpr hclear) hb
    have hprogress : nm.toProgress = Line.started (σ.line.progress m) := by
      rw [← progress_of_nodes hm, hline]
      exact hall
    exact ⟨nm, hm, congrArg Progress.working hprogress, congrArg Progress.curState hprogress⟩
  · intro hr
    exact startWork_refused hi (.inl hr)
  · intro hf
    have hb := hblocking.mpr (hfault.mp hf)
    exact ⟨startWork_refused hi (.inr hb), advance_refused hi hb⟩

/-- On the demonstration line after a start that was too early. -/
theorem ready_and_start_demoLine :
    ∃ σ, run (Plant.exec 3) (Plant.deploy true true true demoLine)
        [.advance ⟨1⟩, .startWork ⟨1⟩, .fail ⟨112⟩ .alarm] = some σ ∧
      ∀ i n, σ.nodes i = some n →
        (n.ready = true → ∀ m nm, Below σ.layout i m → σ.nodes m = some nm →
          nm.ready = true) ∧
        (n.ready = true → ¬ FaultBelow σ i →
          ∃ τ, Plant.exec 3 σ (.startWork i) = some τ ∧
            ∀ m, Below σ.layout i m → ∃ nm, τ.nodes m = some nm ∧
              nm.working = true ∧ nm.curState = .work) ∧
        (n.ready = false → Plant.exec 3 σ (.startWork i) = some σ) ∧
        (FaultBelow σ i → Plant.exec 3 σ (.startWork i) = some σ ∧
          Plant.exec 3 σ (.advance i) = some σ) :=
  ready_and_start true true true (by decide) (by decide) _

end Opencode.Hier
