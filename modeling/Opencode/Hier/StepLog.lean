import Opencode.Lib.Changes
import Opencode.Hier.Refinement
import Opencode.Hier.Visits

/-!
# The events as a log of steps

Subscribers of the domain events can follow a node's step from them.  Whether they can
depends on the events: a command writes the step of a node up to twice, and the events it
publishes are to name the step before and the step after each of these changes.

A node that walks its plan publishes the change.  The event of a node that becomes ready
names the step it had before the command, also when the last step of its plan came in
between; and a node that starts or finishes its work publishes no event.

## Main definitions

* `stepChanges` — the changes of a node's step in one command.
* `Logged` — a plant with the changes so far; `Faithful` — the events are those changes.
* `Misreports` — a command that makes them differ.
* `announces_iff` — one visit.
* `faithful_iff_not_misreports` — any run.
-/

namespace Opencode.Hier

open Opencode.Lib

variable {L : Layout} {height : CoreId → ℕ} {limit : ℕ} {i k m : CoreId} {c : NodeConfig}
  {σ τ : Plant}

/-! ## What is announced and what happened -/

/-- The change of step of the node that the event announces, if it is about one. -/
def DomainEvent.stepOf (m : CoreId) (e : DomainEvent) : Option (ℕ × ℕ) :=
  if (e.kind = .moduleStateChanged ∨ e.kind = .moduleReady) ∧ e.moduleId = m then
    some (e.old, e.new)
  else none

/-- The changes of step of the node that were announced. -/
def announced (log : List Effect) (m : CoreId) : List (ℕ × ℕ) :=
  (log.filterMap Effect.event?).filterMap (DomainEvent.stepOf m)

/-- The steps written in a command that takes a node from `p` to `p'`: the one of its plan,
if it took one, and the one it has in the end. -/
def NodeConfig.written (c : NodeConfig) (p p' : Progress) : List Step :=
  (if p.pos < p'.pos then c.plan[p.pos]?.toList else []) ++ [p'.curState]

/-- The changes of step in such a command. -/
def NodeConfig.stepChanges (c : NodeConfig) (p p' : Progress) : List (Step × Step) :=
  changes p.curState (c.written p p')

/-- The changes of a node's step between two plants.  A command visits a node at most
once. -/
def stepChanges (σ τ : Plant) (m : CoreId) : List (Step × Step) :=
  match σ.nodes m, τ.nodes m with
  | some n, some n' => n.toNodeConfig.stepChanges n.toProgress n'.toProgress
  | _, _ => []

/-- A plant with the changes of every node's step so far. -/
structure Logged where
  plant : Plant
  changed : CoreId → List (Step × Step) := fun _ => []

namespace Logged

/-- A command, with the changes it makes. -/
def exec (limit : ℕ) (s : Logged) (cmd : Plant.Command) : Option Logged :=
  (Plant.exec limit s.plant cmd).map fun τ =>
    ⟨τ, fun m => s.changed m ++ stepChanges s.plant τ m⟩

end Logged

/-- The events announce exactly the changes of every node's step. -/
def Faithful (s : Logged) : Prop :=
  ∀ m, announced s.plant.log m = (s.changed m).map (Prod.map Step.code Step.code)

/-- The step a node has once it has walked the next step of its plan. -/
def NodeConfig.nextStep (c : NodeConfig) (p : Progress) : Step := c.plan[p.pos]?.getD p.curState

/-- What the command announces of a node it visits is not what happens: the node becomes
ready right after a change of step, or had the step `READY` before it was ready; or it
gets a new step in starting or finishing. -/
def Plant.Command.misreports : Plant.Command → NodeConfig → Progress → Prop
  | .advance _, c, p => p.ready = false ∧ c.plan.length ≤ p.pos + 1 ∧
      (c.nextStep p ≠ p.curState ∨ c.nextStep p = .ready)
  | .startWork _, _, p => p.curState ≠ .work
  | .finishWork _, _, p => p.curState ≠ .done
  | .fail _ _, _, _ => False
  | .clearFault _, _, _ => False

/-- The command comes to a node of which it announces what does not happen. -/
def Misreports (σ : Plant) (cmd : Plant.Command) : Prop :=
  ∃ m n, σ.nodes m = some n ∧ Line.Visited σ.layout σ.line.progress cmd m ∧
    cmd.misreports n.toNodeConfig n.toProgress

/-! ## One visit -/

theorem Step.code_injective : Function.Injective Step.code := by
  intro s t h
  cases s <;> cases t <;> first | rfl | cases h

/-- The events of a visit are the node's own. -/
theorem moduleId_of_mem_act {cmd : Plant.Command} {p : Progress} {e : DomainEvent}
    (h : e ∈ (cmd.act c p).2) : e.moduleId = c.id := by
  have hemit : ∀ kind old new msg, e ∈ c.emit kind old new msg → e.moduleId = c.id := by
    intro kind old new msg he
    simp only [NodeConfig.emit] at he
    split at he
    · rw [List.mem_singleton.mp he]
    · cases he
  cases cmd with
  | advance id =>
      simp only [Plant.Command.act, NodeConfig.walk] at h
      split at h <;> split at h <;>
        simp only [List.mem_append, List.nil_append, List.not_mem_nil] at h
      · exact h.elim (hemit _ _ _ _) (hemit _ _ _ _)
      · exact hemit _ _ _ _ h
      · exact hemit _ _ _ _ h
  | startWork id | finishWork id => cases h
  | fail id sev =>
      simp only [Plant.Command.act, NodeConfig.fail] at h
      split at h
      · cases h
      · exact hemit _ _ _ _ h
  | clearFault id => exact hemit _ _ _ _ h

theorem curState_promoteSelf (c : NodeConfig) (p : Progress) :
    (p.promoteSelf c.plan).curState = c.nextStep p := by
  cases hs : c.plan[p.pos]? <;> simp [Progress.promoteSelf, NodeConfig.nextStep, hs]

/-- After the next step of its plan, if there is one, a node becomes ready or not. -/
theorem becomesReady_iff (c : NodeConfig) (p : Progress) :
    (c.plan.length ≤ (p.promoteSelf c.plan).pos ∧ (!(p.promoteSelf c.plan).ready) = true) ↔
      p.ready = false ∧ c.plan.length ≤ p.pos + 1 := by
  cases hs : c.plan[p.pos]? with
  | none =>
      have hlen := List.getElem?_eq_none_iff.mp hs
      simp only [Progress.promoteSelf, hs, Bool.not_eq_true']
      constructor
      · exact fun h => ⟨h.2, by omega⟩
      · exact fun h => ⟨hlen, h.1⟩
  | some s =>
      simp only [Progress.promoteSelf, hs, Bool.not_eq_true']
      exact and_comm

/-- Walking the plan writes its next step, and then possibly that the node is ready. -/
theorem stepChanges_walk (c : NodeConfig) (p : Progress) :
    c.stepChanges p (c.walk p).1 = changes p.curState (c.nextStep p ::
      if p.ready = false ∧ c.plan.length ≤ p.pos + 1 then [.ready] else []) := by
  have hnext := curState_promoteSelf c p
  simp only [NodeConfig.stepChanges, NodeConfig.written, c.walk_fst, becomesReady_iff]
  cases hs : c.plan[p.pos]? with
  | none =>
      have hstay : p.promoteSelf c.plan = p := by simp [Progress.promoteSelf, hs]
      rw [hstay] at hnext ⊢
      split <;> simp [changes, ← hnext]
  | some s =>
      have hmove : p.promoteSelf c.plan = { p with curState := s, pos := p.pos + 1 } := by
        simp [Progress.promoteSelf, hs]
      rw [hmove] at hnext ⊢
      rw [← hnext]
      split <;> simp [changes]

/-- Walking the plan announces a change to its next step, and then possibly that the node
is ready, both from the step before. -/
theorem announced_walk (hsink : c.sink = true) (p : Progress) :
    (c.walk p).2.filterMap (DomainEvent.stepOf c.id) =
      (if c.nextStep p ≠ p.curState then [(p.curState.code, (c.nextStep p).code)] else []) ++
        if p.ready = false ∧ c.plan.length ≤ p.pos + 1 then
          [(p.curState.code, Step.ready.code)] else [] := by
  have hready := becomesReady_iff c p
  rw [← curState_promoteSelf]
  simp only [NodeConfig.walk, NodeConfig.emit, hsink, if_true, ← hready]
  split <;> split <;> simp [DomainEvent.stepOf]

theorem announces_walk_iff (hsink : c.sink = true) (p : Progress) :
    (c.walk p).2.filterMap (DomainEvent.stepOf c.id) =
        (c.stepChanges p (c.walk p).1).map (Prod.map Step.code Step.code) ↔
      ¬ (p.ready = false ∧ c.plan.length ≤ p.pos + 1 ∧
        (c.nextStep p ≠ p.curState ∨ c.nextStep p = .ready)) := by
  rw [announced_walk hsink, stepChanges_walk, ← and_assoc]
  by_cases hready : p.ready = false ∧ c.plan.length ≤ p.pos + 1
  · simp only [if_pos hready]
    by_cases hmove : c.nextStep p = p.curState
    · -- the only change can be the one to `READY`
      by_cases hlast : p.curState = .ready
      · simp [changes, hready, hmove, hlast]
      · simp [changes, hmove, hlast, Ne.symm hlast]
    · -- a second change begins at the next step, or there is none
      refine iff_of_false (fun heq => ?_) (not_not_intro ⟨hready, .inl hmove⟩)
      have hcode : p.curState.code ≠ (c.nextStep p).code :=
        fun h => hmove (Step.code_injective h).symm
      by_cases hlast : Step.ready = c.nextStep p
      · simp [changes, hmove, hlast] at heq
      · simp [changes, hmove, hlast, hcode] at heq
  · rw [if_neg hready]
    by_cases hmove : c.nextStep p = p.curState <;> simp [changes, hready, hmove]

/-- A command that does not walk the plan writes one step. -/
theorem stepChanges_of_pos_eq (c : NodeConfig) {p p' : Progress} (h : p'.pos = p.pos) :
    c.stepChanges p p' = changes p.curState [p'.curState] := by
  simp [NodeConfig.stepChanges, NodeConfig.written, h]

@[simp] theorem stepChanges_self (c : NodeConfig) (p : Progress) : c.stepChanges p p = [] := by
  rw [stepChanges_of_pos_eq c rfl, changes_singleton_eq_nil]

/-- A command that writes a step without an event is true to it when nothing changes. -/
theorem silent_iff (c : NodeConfig) {p p' : Progress} (h : p'.pos = p.pos) :
    [] = (c.stepChanges p p').map (Prod.map Step.code Step.code) ↔
      ¬ p.curState ≠ p'.curState := by
  rw [stepChanges_of_pos_eq c h, eq_comm, List.map_eq_nil_iff, changes_singleton_eq_nil, not_not,
    eq_comm]

/-- **What a visit announces is what happens, unless it misreports.** -/
theorem announces_iff (hsink : c.sink = true) (cmd : Plant.Command) (p : Progress) :
    (cmd.act c p).2.filterMap (DomainEvent.stepOf c.id) =
        (c.stepChanges p (cmd.act c p).1).map (Prod.map Step.code Step.code) ↔
      ¬ cmd.misreports c p := by
  cases cmd with
  | advance id => exact announces_walk_iff hsink p
  | startWork id => exact silent_iff c rfl
  | finishWork id => exact silent_iff c rfl
  | fail id sev =>
      have hnone : (c.fail p sev).2.filterMap (DomainEvent.stepOf c.id) = [] := by
        simp only [NodeConfig.fail]
        split <;> simp [NodeConfig.emit, hsink, DomainEvent.stepOf]
      simp only [Plant.Command.act, Plant.Command.misreports, hnone, not_false_iff, iff_true]
      exact (silent_iff c rfl).mpr (not_not_intro rfl)
  | clearFault id =>
      have hnone : (c.clearFault p).2.filterMap (DomainEvent.stepOf c.id) = [] := by
        simp [NodeConfig.clearFault, NodeConfig.emit, hsink, DomainEvent.stepOf]
      simp only [Plant.Command.act, Plant.Command.misreports, hnone, not_false_iff, iff_true]
      exact (silent_iff c rfl).mpr (not_not_intro rfl)

/-! ## One command -/

/-- Of a list without repetitions, one element contributes. -/
theorem filterMap_flatMap_single {α β γ : Type*} [DecidableEq α] {l : List α} (hnodup : l.Nodup)
    {f : α → List β} {g : β → Option γ} {a : α}
    (h : ∀ b ∈ l, b ≠ a → (f b).filterMap g = []) :
    (l.flatMap f).filterMap g = if a ∈ l then (f a).filterMap g else [] := by
  induction l with
  | nil => rfl
  | cons b l ih =>
      obtain ⟨hb, hl⟩ := List.nodup_cons.mp hnodup
      rw [List.flatMap_cons, List.filterMap_append,
        ih hl fun d hd => h d (List.mem_cons_of_mem b hd)]
      by_cases hba : b = a
      · subst hba
        simp [hb]
      · simp [h b List.mem_cons_self hba, Ne.symm hba]

section Command

variable {cmd : Plant.Command}

/-- What is read of a node from the events of a command is what is read from those of its
visit of the node. -/
theorem filterMap_events_exec {β : Type*} (hw : Wired L height limit)
    (hline : τ.line = Line.exec L limit σ.line cmd) {read : DomainEvent → Option β}
    (hread : ∀ e, e.moduleId ≠ m → read e = none) :
    (τ.log.filterMap Effect.event?).filterMap read =
      (σ.log.filterMap Effect.event?).filterMap read ++
        if m ∈ Line.visits L limit σ.line.progress cmd then
          (Line.eventsOf L cmd.act σ.line.progress m).filterMap read
        else [] := by
  have hevents : τ.log.filterMap Effect.event? = σ.log.filterMap Effect.event? ++
      (Line.visits L limit σ.line.progress cmd).flatMap
        (Line.eventsOf L cmd.act σ.line.progress) :=
    (congrArg Line.events hline).trans (Line.events_exec hw σ.line cmd)
  rw [hevents, List.filterMap_append, filterMap_flatMap_single (Line.nodup_visits hw _ cmd)]
  intro j _ hjm
  refine List.filterMap_eq_nil_iff.mpr fun e he => ?_
  have hid : e.moduleId = j := by
    simp only [Line.eventsOf] at he
    split at he
    · cases he
    · rename_i d hd
      rw [moduleId_of_mem_act he, hw.id_eq j d hd]
  exact hread e (hid ▸ hjm)

/-- What becomes of a node between two plants, read off its progress in them. -/
def nodeDelta {β : Type*} (delta : NodeConfig → Progress → Progress → List β) (σ τ : Plant)
    (m : CoreId) : List β :=
  match σ.nodes m, τ.nodes m with
  | some n, some n' => delta n.toNodeConfig n.toProgress n'.toProgress
  | _, _ => []

/-- What becomes of a node in a command is what its visit does, and otherwise nothing. -/
theorem nodeDelta_exec {β : Type*} {delta : NodeConfig → Progress → Progress → List β}
    (hself : ∀ c p, delta c p p = []) (hw : Wired L height limit) (hσ : σ.layout = L)
    (hτ : τ.layout = L) (hline : τ.line = Line.exec L limit σ.line cmd) (hm : L m = some c) :
    nodeDelta delta σ τ m =
      if m ∈ Line.visits L limit σ.line.progress cmd then
        delta c (σ.line.progress m) (cmd.act c (σ.line.progress m)).1
      else [] := by
  obtain ⟨n, hn, rfl⟩ := exists_node_of_layout hσ hm
  obtain ⟨n', hn', -⟩ := exists_node_of_layout hτ hm
  have hprogress := congrArg (fun v => v.progress m) hline
  simp only [Line.progress_exec hw _ _ hm, progress_of_nodes hn, progress_of_nodes hn'] at hprogress
  simp only [nodeDelta, hn, hn', hprogress, ← Line.mem_visits_iff hw hm, progress_of_nodes hn]
  split
  · rfl
  · exact hself _ _

/-- **One command and what its events tell.**  If what is read from the events so far tells
what became of every node, it still does after the command exactly when that is so at every
node the command comes to. -/
theorem tells_exec_iff {β γ : Type*} (delta : NodeConfig → Progress → Progress → List γ)
    (hself : ∀ c p, delta c p p = []) (hw : Wired L height limit) (hσ : σ.layout = L)
    (hτ : τ.layout = L) (hline : τ.line = Line.exec L limit σ.line cmd)
    {read : CoreId → DomainEvent → Option β} (hread : ∀ m e, e.moduleId ≠ m → read m e = none)
    {tell : γ → β} {misses : NodeConfig → Progress → Prop}
    (hvisit : ∀ m c, L m = some c → Line.Visited L σ.line.progress cmd m →
      ((cmd.act c (σ.line.progress m)).2.filterMap (read m) =
          (delta c (σ.line.progress m) (cmd.act c (σ.line.progress m)).1).map tell ↔
        ¬ misses c (σ.line.progress m)))
    {past : CoreId → List γ}
    (hs : ∀ m, (σ.log.filterMap Effect.event?).filterMap (read m) = (past m).map tell) :
    (∀ m, (τ.log.filterMap Effect.event?).filterMap (read m) =
        (past m ++ nodeDelta delta σ τ m).map tell) ↔
      ¬ ∃ m c, L m = some c ∧ Line.Visited L σ.line.progress cmd m ∧
        misses c (σ.line.progress m) := by
  -- node by node, with what the visit of the node adds to both sides
  have hnode : ∀ m c, L m = some c →
      ((τ.log.filterMap Effect.event?).filterMap (read m) =
          (past m ++ nodeDelta delta σ τ m).map tell ↔
        (Line.Visited L σ.line.progress cmd m → ¬ misses c (σ.line.progress m))) := by
    intro m c hm
    rw [filterMap_events_exec hw hline (hread m), hs m, List.map_append,
      List.append_cancel_left_eq, nodeDelta_exec hself hw hσ hτ hline hm,
      ← Line.mem_visits_iff hw hm]
    split
    · rename_i hmem
      simp only [hmem, true_imp_iff, Line.eventsOf, hm,
        hvisit m c hm ((Line.mem_visits_iff hw hm).mp hmem)]
    · rename_i hmem
      simp [hmem]
  have hnone : ∀ m, L m = none → (τ.log.filterMap Effect.event?).filterMap (read m) =
      (past m ++ nodeDelta delta σ τ m).map tell := by
    intro m hm
    have hdelta : nodeDelta delta σ τ m = [] := by
      simp [nodeDelta, nodes_none_of_layout hσ hm]
    rw [filterMap_events_exec hw hline (hread m), hs m, hdelta]
    simp [Line.eventsOf, hm]
  constructor
  · rintro htold ⟨m, c, hm, hvisited, hmiss⟩
    exact (hnode m c hm).mp (htold m) hvisited hmiss
  · intro hnot m
    cases hm : L m with
    | none => exact hnone m hm
    | some c =>
        exact (hnode m c hm).mpr fun hvisited hmiss => hnot ⟨m, c, hm, hvisited, hmiss⟩

/-- The changes of a node in a command are those of its visit. -/
theorem stepChanges_exec (hw : Wired L height limit) (hσ : σ.layout = L) (hτ : τ.layout = L)
    (hline : τ.line = Line.exec L limit σ.line cmd) (hm : L m = some c) :
    stepChanges σ τ m =
      if m ∈ Line.visits L limit σ.line.progress cmd then
        c.stepChanges (σ.line.progress m) (cmd.act c (σ.line.progress m)).1
      else [] :=
  nodeDelta_exec stepChanges_self hw hσ hτ hline hm

theorem misreports_iff (hσ : σ.layout = L) :
    Misreports σ cmd ↔ ∃ m c, L m = some c ∧ Line.Visited L σ.line.progress cmd m ∧
      cmd.misreports c (σ.line.progress m) := by
  rw [Misreports, hσ]
  constructor
  · rintro ⟨m, n, hn, hvisit, hmis⟩
    exact ⟨m, _, layout_eq_of_nodes hσ hn, hvisit, by rwa [progress_of_nodes hn]⟩
  · rintro ⟨m, c, hm, hvisit, hmis⟩
    obtain ⟨n, hn, rfl⟩ := exists_node_of_layout hσ hm
    rw [progress_of_nodes hn] at hmis
    exact ⟨m, n, hn, hvisit, hmis⟩

/-- **One command keeps the log faithful exactly when it does not misreport.** -/
theorem faithful_step (hw : Wired L height limit) (hsink : ∀ i c, L i = some c → c.sink = true)
    (hσ : σ.layout = L) (hτ : τ.layout = L) (hline : τ.line = Line.exec L limit σ.line cmd)
    {changed : CoreId → List (Step × Step)} (hs : Faithful ⟨σ, changed⟩) :
    Faithful ⟨τ, fun m => changed m ++ stepChanges σ τ m⟩ ↔ ¬ Misreports σ cmd := by
  rw [misreports_iff hσ]
  refine tells_exec_iff NodeConfig.stepChanges stepChanges_self hw hσ hτ hline
    (fun m e he => by simp [DomainEvent.stepOf, he]) (fun m c hm _ => ?_) hs
  have htells := announces_iff (hsink m c hm) cmd (σ.line.progress m)
  rwa [hw.id_eq m c hm] at htells

end Command

/-! ## Any run -/

namespace Logged

/-- The changes of every node lead from `UNKNOWN` to the step it has. -/
def Traced (s : Logged) : Prop :=
  ∀ m n, s.plant.nodes m = some n → replay .unknown (s.changed m) = some n.curState

/-- A faithful log shows every node's step. -/
theorem Traced.replay_announced {s : Logged} (h : s.Traced) (hs : Faithful s) {n : HierNode}
    (hm : s.plant.nodes m = some n) :
    replay Step.unknown.code (announced s.plant.log m) = some n.curState.code := by
  rw [hs m, replay_map Step.code_injective, h m n hm, Option.map_some]

theorem Traced.step {changed : CoreId → List (Step × Step)} (h : Traced ⟨σ, changed⟩)
    (hlayout : τ.layout = σ.layout) :
    Traced ⟨τ, fun m => changed m ++ stepChanges σ τ m⟩ := by
  intro m n' hn'
  obtain ⟨n, hn, -⟩ := exists_node_of_layout rfl (hlayout ▸ layout_eq_of_nodes rfl hn')
  have hlast : replay n.curState (stepChanges σ τ m) = some n'.curState := by
    rw [stepChanges, hn, hn']
    exact (replay_changes _ _).trans (by simp [NodeConfig.written])
  rw [replay_append, h m n hn]
  exact hlast

/-- What holds of a deployed plant with its changes after any commands. -/
structure Ok (L : Layout) (s : Logged) : Prop where
  good : Good L ∅ s.plant
  traced : s.Traced

theorem exec_ok (hw : Wired L height limit) (hlimit : 0 < limit) {s : Logged} (h : Ok L s)
    (cmd : Plant.Command) :
    ∃ τ, s.exec limit cmd = some ⟨τ, fun m => s.changed m ++ stepChanges s.plant τ m⟩ ∧
      Ok L ⟨τ, fun m => s.changed m ++ stepChanges s.plant τ m⟩ ∧
      τ.line = Line.exec L limit s.plant.line cmd := by
  obtain ⟨τ, hτ, hgood, hline⟩ := exec_refines hw hlimit h.good cmd
  refine ⟨τ, by simp [exec, hτ], ⟨hgood, ?_⟩, hline⟩
  exact h.traced.step (hgood.layout.trans h.good.layout.symm)

theorem Ok.step (hw : Wired L height limit) (hlimit : 0 < limit) {s s' : Logged} (h : Ok L s)
    {cmd : Plant.Command} (hs : s.exec limit cmd = some s') : Ok L s' := by
  obtain ⟨τ, hτ, hok, -⟩ := exec_ok hw hlimit h cmd
  obtain rfl := Option.some.inj (hτ.symm.trans hs)
  exact hok

theorem Ok.exists_run (hw : Wired L height limit) (hlimit : 0 < limit) {s : Logged} (h : Ok L s)
    (cmds : List Plant.Command) : ∃ s', run (exec limit) s cmds = some s' := by
  obtain ⟨s', hrun, -⟩ := run_total (fun s cmd h => by
    obtain ⟨τ, hτ, hok, -⟩ := exec_ok hw hlimit h cmd
    exact ⟨_, hτ, hok⟩) cmds h
  exact ⟨s', hrun⟩

/-- A plant as it is set up, before any change. -/
def start (host sink trace : Bool) (t : NodeTree) : Logged where
  plant := Plant.deploy host sink trace t

theorem ok_start (host sink trace : Bool) (t : NodeTree) :
    Ok (Plant.deploy host sink trace t).layout (start host sink trace t) := by
  refine ⟨good_deploy host sink trace t, ?_⟩
  intro m n hn
  simp only [start, Plant.deploy, Option.map_eq_some_iff] at hn
  obtain ⟨x, -, rfl⟩ := hn
  rfl

/-- A plant as it is set up, every node with a sink. -/
def deploy (host trace : Bool) (t : NodeTree) : Logged where
  plant := Plant.deploy host true trace t

theorem ok_deploy (host trace : Bool) (t : NodeTree) :
    Ok (Plant.deploy host true trace t).layout (deploy host trace t) :=
  ok_start host true trace t

theorem faithful_deploy (host trace : Bool) (t : NodeTree) : Faithful (deploy host trace t) :=
  fun _ => rfl

end Logged

theorem sink_deploy {host sink trace : Bool} {t : NodeTree}
    (h : (Plant.deploy host sink trace t).layout i = some c) : c.sink = sink := by
  obtain ⟨u, s, -, -, rfl⟩ := exists_placed h
  cases s
  rfl

/-- **When the events are a log of the steps.**  In every run of commands on a deployed
tree, each with a sink, the events announce exactly the changes of every node's step as long
as no command misreports, and no longer.  Where they do, replaying them from `UNKNOWN`
gives the step of the node. -/
theorem faithful_iff_not_misreports (host trace : Bool) {t : NodeTree} (hids : t.ids.Nodup)
    {limit : ℕ} (hlimit : t.height < limit) (cmds : List Plant.Command) :
    (∃ s, run (Logged.exec limit) (Logged.deploy host trace t) cmds = some s) ∧
      (Throughout (Logged.exec limit) Faithful (Logged.deploy host trace t) cmds ↔
        Along (Logged.exec limit) (fun s cmd => ¬ Misreports s.plant cmd)
          (Logged.deploy host trace t) cmds) ∧
      Throughout (Logged.exec limit) (fun s => Faithful s → ∀ m n, s.plant.nodes m = some n →
          replay Step.unknown.code (announced s.plant.log m) = some n.curState.code)
        (Logged.deploy host trace t) cmds := by
  have hw := wired_deploy host true trace hids hlimit
  have hpos := Nat.zero_lt_of_lt hlimit
  have hok := Logged.ok_deploy host trace t
  refine ⟨hok.exists_run hw hpos cmds, ?_, ?_⟩
  · refine throughout_iff_along (fun s cmd s' h hs' => h.step hw hpos hs') ?_ hok
      (Logged.faithful_deploy host trace t)
    intro s cmd s' h hfaithful hs'
    obtain ⟨τ, hτ, hok', hline⟩ := Logged.exec_ok hw hpos h cmd
    obtain rfl := Option.some.inj (hτ.symm.trans hs')
    exact faithful_step hw (fun i c hc => sink_deploy hc) h.good.layout hok'.good.layout hline
      hfaithful
  · refine (throughout_of_step (fun s cmd s' h hs' => h.step hw hpos hs') hok cmds).imp ?_
    intro s h hs m n hn
    exact h.traced.replay_announced hs hn

/-- On the demonstration line with a warning from the camera. -/
theorem faithful_iff_not_misreports_demoLine :
    (∃ s, run (Logged.exec 3) (Logged.deploy true true demoLine)
        [.advance ⟨1⟩, .fail ⟨131⟩ .alarm, .startWork ⟨1⟩] = some s) ∧
      (Throughout (Logged.exec 3) Faithful (Logged.deploy true true demoLine)
          [.advance ⟨1⟩, .fail ⟨131⟩ .alarm, .startWork ⟨1⟩] ↔
        Along (Logged.exec 3) (fun s cmd => ¬ Misreports s.plant cmd)
          (Logged.deploy true true demoLine)
          [.advance ⟨1⟩, .fail ⟨131⟩ .alarm, .startWork ⟨1⟩]) ∧
      Throughout (Logged.exec 3) (fun s => Faithful s → ∀ m n, s.plant.nodes m = some n →
          replay Step.unknown.code (announced s.plant.log m) = some n.curState.code)
        (Logged.deploy true true demoLine)
        [.advance ⟨1⟩, .fail ⟨131⟩ .alarm, .startWork ⟨1⟩] :=
  faithful_iff_not_misreports true true (by decide) (by decide) _

/-- The temperature sensor of the demonstration line on its own. -/
def sensor : NodeTree := .node ⟨112⟩ "温度传感(pre-hot)" 0 [.power] false []

/-- Its only `advance` takes it to `POWER` and on to `READY`, and both events say that it
comes from `UNKNOWN`. -/
theorem not_faithful_sensor :
    ¬ Throughout (Logged.exec 1) Faithful (Logged.deploy true true sensor) [.advance ⟨112⟩] := by
  refine not_throughout_of_end
    (R := fun s => announced s.plant.log ⟨112⟩ = [(0, 1), (0, 6)] ∧
      s.changed ⟨112⟩ = [(.unknown, .power), (.power, .ready)])
    (by decide) ?_
  rintro s ⟨hannounced, hchanged⟩ h
  have hfaithful := h ⟨112⟩
  rw [hannounced, hchanged] at hfaithful
  exact absurd hfaithful (by decide)

end Opencode.Hier
