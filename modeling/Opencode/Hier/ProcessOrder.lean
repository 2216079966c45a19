import Opencode.Hier.StepLog

/-!
# The order of a node's steps

A node is to go through the steps of its plan, become ready, work, and be done.  What
keeps it on this way is not its step but three fields: the position in the plan, whether it
is ready and whether it works.  None of them says that the node is done, so a node that has
finished may be started again.

## Main definitions

* `NodeConfig.order` — the steps a node is to go through.
* `InOrder` — every node is on its way and did not leave it.
* `Placed` — where on the way a node is, by its fields.
* `Restarts` — a `startWork` comes to a node that is done.
* `inOrder_iff_not_restarts` — any run.
-/

namespace Opencode.Hier

open Opencode.Lib

variable {L : Layout} {height : CoreId → ℕ} {limit : ℕ} {i k m : CoreId} {c : NodeConfig}
  {σ τ : Plant} {p : Progress} {ws : List Step}

/-- The steps that a plan may have. -/
def Step.preparation : Step → Bool
  | .power | .preheat | .clean | .selfcheck | .home => true
  | .unknown | .ready | .work | .done => false

/-- The steps of a node after `UNKNOWN`. -/
def NodeConfig.order (c : NodeConfig) : List Step := c.plan ++ [.ready, .work, .done]

/-- Every node's step changes along its order, starts to work only when it is ready, and
stays when it is done. -/
structure InOrder (s : Logged) : Prop where
  follows : ∀ m n, s.plant.nodes m = some n → s.changed m <+: changes .unknown n.order
  starts : ∀ m n a, s.plant.nodes m = some n → (a, .work) ∈ s.changed m → a = .ready
  stays : ∀ m n b, s.plant.nodes m = some n → (.done, b) ∉ s.changed m

/-- A `startWork` comes to a node that is done. -/
def Restarts (σ : Plant) : Plant.Command → Prop
  | .startWork id => ∃ m n, σ.nodes m = some n ∧
      Line.Visited σ.layout σ.line.progress (.startWork id) m ∧ n.curState = .done
  | _ => False

/-! ## The order of one node -/

/-- The changes along an order lead to `WORK` from `READY` and never away from `DONE`. -/
theorem mem_changes_order (hplan : ∀ s ∈ c.plan, s.preparation) {a b : Step}
    (h : (a, b) ∈ changes .unknown c.order) : (b = .work → a = .ready) ∧ a ≠ .done := by
  have hsafe : ∀ s ∈ Step.unknown :: c.plan, s ≠ .ready ∧ s ≠ .work ∧ s ≠ .done := by
    intro s hs
    rcases List.mem_cons.mp hs with rfl | hs
    · decide
    · have hprep := hplan s hs
      refine ⟨?_, ?_, ?_⟩ <;> rintro rfl <;> cases hprep
  rw [NodeConfig.order, changes_append, List.mem_append] at h
  rcases h with h | h
  · obtain ⟨ha, hb⟩ := mem_of_mem_changes h
    exact ⟨fun hwork => absurd hwork (hsafe b (List.mem_cons_of_mem _ hb)).2.1, (hsafe a ha).2.2⟩
  · obtain ⟨hready, -, hdone⟩ := hsafe (c.plan.getLastD .unknown) List.getLastD_mem_cons
    have hmem : (a, b) ∈
        [(c.plan.getLastD .unknown, Step.ready), (.ready, .work), (.work, .done)] := by
      generalize c.plan.getLastD .unknown = last at h hready
      simpa [changes, Ne.symm hready] using h
    simp only [List.mem_cons, Prod.mk.injEq, List.not_mem_nil, or_false] at hmem
    rcases hmem with ⟨rfl, rfl⟩ | ⟨rfl, rfl⟩ | ⟨rfl, rfl⟩
    · exact ⟨by simp, hdone⟩
    · simp
    · simp

/-- Where a node is on its way, with the steps that were written so far. -/
inductive Placed (c : NodeConfig) : Progress → List Step → Prop
  | walking (pos : ℕ) (fault : FaultLevel) (h : pos ≤ c.plan.length) :
      Placed c ⟨pos, (c.plan.take pos).getLastD .unknown, false, false, fault⟩ (c.plan.take pos)
  | ready (fault : FaultLevel) :
      Placed c ⟨c.plan.length, .ready, true, false, fault⟩ (c.plan ++ [.ready])
  | working (fault : FaultLevel) :
      Placed c ⟨c.plan.length, .work, true, true, fault⟩ (c.plan ++ [.ready, .work])
  | finished (fault : FaultLevel) :
      Placed c ⟨c.plan.length, .done, true, false, fault⟩ (c.plan ++ [.ready, .work, .done])

namespace Placed

theorem initial_part (h : Placed c p ws) : ws <+: c.order := by
  cases h with
  | walking pos fault h =>
      exact (List.take_prefix _ _).trans (List.prefix_append _ _)
  | ready fault => exact ⟨[.work, .done], by simp [NodeConfig.order]⟩
  | working fault => exact ⟨[.done], by simp [NodeConfig.order]⟩
  | finished fault => exact List.prefix_rfl

theorem curState (h : Placed c p ws) : p.curState = ws.getLastD .unknown := by
  cases h <;> simp

/-- The changes so far are an initial part of those of the order. -/
theorem follows (h : Placed c p ws) : changes .unknown ws <+: changes .unknown c.order :=
  changes_mono h.initial_part

theorem changes_append (h : Placed c p ws) (more : List Step) :
    changes .unknown (ws ++ more) = changes .unknown ws ++ changes p.curState more := by
  rw [h.curState, Lib.changes_append]

/-- Before the end of its plan a node takes the next step, and becomes ready if it was the
last one. -/
theorem walk_of_lt {pos : ℕ} (fault : FaultLevel) (hlt : pos < c.plan.length)
    (hp : p = ⟨pos, (c.plan.take pos).getLastD .unknown, false, false, fault⟩) :
    ∃ ws', Placed c (c.walk p).1 ws' ∧
      changes .unknown ws' = changes .unknown (c.plan.take pos) ++ c.stepChanges p (c.walk p).1 := by
  have hplaced : Placed c p (c.plan.take pos) := hp ▸ .walking pos fault hlt.le
  have hget : c.plan[pos]? = some c.plan[pos] := List.getElem?_eq_getElem hlt
  have hmove : p.promoteSelf c.plan = { p with curState := c.plan[pos], pos := pos + 1 } := by
    simp [Progress.promoteSelf, hp, hget]
  have hnext : c.nextStep p = c.plan[pos] := by simp [NodeConfig.nextStep, hp, hget]
  have htake := List.take_succ_eq_append_getElem hlt
  rw [stepChanges_walk, NodeConfig.walk_fst]
  simp only [becomesReady_iff]
  rw [hmove, hnext, hp]
  by_cases hend : c.plan.length ≤ pos + 1
  · have hlen : pos + 1 = c.plan.length := le_antisymm hlt hend
    have hall : c.plan.take pos ++ [c.plan[pos], .ready] = c.plan ++ [Step.ready] := by
      rw [← List.singleton_append, ← List.append_assoc, ← htake, hlen, List.take_length]
    refine ⟨c.plan ++ [Step.ready], ?_, ?_⟩
    · have hready := Placed.ready (c := c) fault
      rw [← hlen] at hready
      rw [if_pos ⟨rfl, hend⟩]
      exact hready
    · rw [← hall, hplaced.changes_append, hp, if_pos ⟨rfl, hend⟩]
  · refine ⟨c.plan.take (pos + 1), ?_, ?_⟩
    · have hwalking := Placed.walking (pos + 1) fault hlt
      rw [if_neg fun h => hend h.2]
      rwa [htake, List.getLastD_concat, ← htake] at hwalking
    · rw [htake, hplaced.changes_append, hp, if_neg fun h => hend h.2]

/-- At the end of its plan a node becomes ready. -/
theorem walk_of_eq (fault : FaultLevel)
    (hp : p = ⟨c.plan.length, c.plan.getLastD .unknown, false, false, fault⟩) :
    ∃ ws', Placed c (c.walk p).1 ws' ∧
      changes .unknown ws' = changes .unknown c.plan ++ c.stepChanges p (c.walk p).1 := by
  have hplaced : Placed c p c.plan := by
    simpa [hp] using Placed.walking (c := c) c.plan.length fault le_rfl
  have hstay : p.promoteSelf c.plan = p := by simp [Progress.promoteSelf, hp]
  have hnext : c.nextStep p = p.curState := by simp [NodeConfig.nextStep, hp]
  have hready := hplaced.changes_append [.ready]
  rw [stepChanges_walk, NodeConfig.walk_fst]
  simp only [becomesReady_iff]
  rw [hstay, hnext]
  refine ⟨c.plan ++ [Step.ready], ?_, ?_⟩
  · simpa [hp] using Placed.ready fault
  · simpa [changes, hp] using hready

/-- Walking the plan keeps a node on its way. -/
theorem walk (h : Placed c p ws) : ∃ ws', Placed c (c.walk p).1 ws' ∧
    changes .unknown ws' = changes .unknown ws ++ c.stepChanges p (c.walk p).1 := by
  have hready : p.ready = true → p.pos = c.plan.length → ∃ ws', Placed c (c.walk p).1 ws' ∧
      changes .unknown ws' = changes .unknown ws ++ c.stepChanges p (c.walk p).1 := by
    intro hr hpos
    rw [walk_of_ready c hr hpos.ge, stepChanges_self, List.append_nil]
    exact ⟨ws, h, rfl⟩
  cases h with
  | walking pos fault hle =>
      rcases hle.lt_or_eq with hlt | rfl
      · exact walk_of_lt fault hlt rfl
      · rw [List.take_length]
        exact walk_of_eq fault rfl
  | ready fault => exact hready rfl rfl
  | working fault => exact hready rfl rfl
  | finished fault => exact hready rfl rfl

/-- A fault does not move a node. -/
theorem setFault (h : Placed c p ws) (fault : FaultLevel) :
    ∃ ws', Placed c { p with ownFault := fault } ws' ∧
      changes .unknown ws' =
        changes .unknown ws ++ c.stepChanges p { p with ownFault := fault } := by
  have hsame : c.stepChanges p { p with ownFault := fault } = [] :=
    (stepChanges_of_pos_eq c rfl).trans (changes_singleton_eq_nil.mpr rfl)
  rw [hsame, List.append_nil]
  refine ⟨ws, ?_, rfl⟩
  cases h with
  | walking pos _ hle => exact .walking pos fault hle
  | ready _ => exact .ready fault
  | working _ => exact .working fault
  | finished _ => exact .finished fault

/-- **A visit keeps a node on its way**, unless it starts a node that is done. -/
theorem act (h : Placed c p ws) (cmd : Plant.Command)
    (hstart : ∀ id, cmd = .startWork id → p.ready = true ∧ p.curState ≠ .done)
    (hfinish : ∀ id, cmd = .finishWork id → p.working = true) :
    ∃ ws', Placed c (cmd.act c p).1 ws' ∧
      changes .unknown ws' = changes .unknown ws ++ c.stepChanges p (cmd.act c p).1 := by
  cases cmd with
  | advance id => exact h.walk
  | startWork id =>
      obtain ⟨hready, hdone⟩ := hstart id rfl
      have hlater := h.changes_append [.work]
      have hwrite : c.stepChanges p (Line.started p) = changes p.curState [.work] :=
        stepChanges_of_pos_eq c rfl
      simp only [Plant.Command.act, hwrite]
      cases h with
      | walking pos fault hle => cases hready
      | ready fault => exact ⟨_, .working fault, by simpa using hlater⟩
      | working fault => exact ⟨_, .working fault, by simp [changes]⟩
      | finished fault => exact absurd rfl hdone
  | finishWork id =>
      have hworks := hfinish id rfl
      have hlater := h.changes_append [.done]
      have hwrite : c.stepChanges p (Line.finished p) = changes p.curState [.done] :=
        stepChanges_of_pos_eq c rfl
      simp only [Plant.Command.act, hwrite]
      cases h with
      | walking pos fault hle => cases hworks
      | ready fault => cases hworks
      | working fault => exact ⟨_, .finished fault, by simpa using hlater⟩
      | finished fault => cases hworks
  | fail id sev => exact h.setFault _
  | clearFault id => exact h.setFault _

/-- A node that is done and starts again leaves its way. -/
theorem not_follows_of_restart (h : Placed c p ws) (hready : p.ready = true)
    (hdone : p.curState = .done) :
    ¬ changes .unknown ws ++ c.stepChanges p (Line.started p) <+: changes .unknown c.order := by
  cases h with
  | walking pos fault hle => cases hready
  | ready fault => cases hdone
  | working fault => cases hdone
  | finished fault =>
      intro hfollows
      have hlen := hfollows.length_le
      have hwrite : c.stepChanges ⟨c.plan.length, .done, true, false, fault⟩
          (Line.started ⟨c.plan.length, .done, true, false, fault⟩) = [(.done, .work)] :=
        stepChanges_of_pos_eq c rfl
      rw [hwrite, List.length_append] at hlen
      simp [NodeConfig.order] at hlen

end Placed

/-! ## Any run -/

/-- Every node's step changed along its order. -/
def Follows (s : Logged) : Prop :=
  ∀ m n, s.plant.nodes m = some n → s.changed m <+: changes .unknown n.order

/-- Every node is somewhere on its way. -/
def AllPlaced (s : Logged) : Prop :=
  ∀ m n, s.plant.nodes m = some n →
    ∃ ws, Placed n.toNodeConfig n.toProgress ws ∧ s.changed m = changes .unknown ws

theorem AllPlaced.follows {s : Logged} (h : AllPlaced s) : Follows s := by
  intro m n hn
  obtain ⟨ws, hplaced, hchanged⟩ := h m n hn
  rw [hchanged]
  exact hplaced.follows

section Step

variable {s s' : Logged} {cmd : Plant.Command}

/-- What a command does to a node and to its changes. -/
theorem node_exec (hw : Wired L height limit) (hlimit : 0 < limit) (hok : Logged.Ok L s)
    (hs : s.exec limit cmd = some s') {n' : HierNode} (hn' : s'.plant.nodes m = some n') :
    ∃ n, s.plant.nodes m = some n ∧ n'.toNodeConfig = n.toNodeConfig ∧
      ((Line.Visited L s.plant.line.progress cmd m ∧
          n'.toProgress = (cmd.act n.toNodeConfig n.toProgress).1 ∧
          s'.changed m = s.changed m ++
            n.toNodeConfig.stepChanges n.toProgress (cmd.act n.toNodeConfig n.toProgress).1) ∨
        (¬ Line.Visited L s.plant.line.progress cmd m ∧ n'.toProgress = n.toProgress ∧
          s'.changed m = s.changed m)) := by
  obtain ⟨τ, hτ, hok', hline⟩ := Logged.exec_ok hw hlimit hok cmd
  obtain rfl := Option.some.inj (hτ.symm.trans hs)
  have hσL := hok.good.layout
  have hτL := hok'.good.layout
  have hc := layout_eq_of_nodes hτL hn'
  obtain ⟨n, hn, hcfg⟩ := exists_node_of_layout hσL hc
  refine ⟨n, hn, hcfg.symm, ?_⟩
  have hprogress := Line.progress_exec hw s.plant.line cmd hc
  rw [← hline, progress_of_nodes hn', progress_of_nodes hn, ← hcfg] at hprogress
  have hchanges := stepChanges_exec hw hσL hτL hline hc
  rw [progress_of_nodes hn, ← hcfg] at hchanges
  have hmem : m ∈ Line.visits L limit s.plant.line.progress cmd ↔
      Line.Visited L s.plant.line.progress cmd m := Line.mem_visits_iff hw hc
  by_cases hvisit : Line.Visited L s.plant.line.progress cmd m
  · rw [if_pos hvisit] at hprogress
    rw [if_pos (hmem.mpr hvisit)] at hchanges
    exact .inl ⟨hvisit, hprogress, congrArg (s.changed m ++ ·) hchanges⟩
  · rw [if_neg hvisit] at hprogress
    rw [if_neg (mt hmem.mp hvisit)] at hchanges
    exact .inr ⟨hvisit, hprogress,
      (congrArg (s.changed m ++ ·) hchanges).trans (List.append_nil _)⟩

/-- The nodes of a plant stay. -/
theorem exists_node_exec (hw : Wired L height limit) (hlimit : 0 < limit) (hok : Logged.Ok L s)
    (hs : s.exec limit cmd = some s') {n : HierNode} (hn : s.plant.nodes m = some n) :
    ∃ n', s'.plant.nodes m = some n' := by
  have hok' := hok.step hw hlimit hs
  obtain ⟨n', hn', -⟩ := exists_node_of_layout hok'.good.layout (layout_eq_of_nodes hok.good.layout hn)
  exact ⟨n', hn'⟩

/-- Nodes on their way stay there in a command that restarts none. -/
theorem AllPlaced.step (hw : Wired L height limit) (hlimit : 0 < limit) (hok : Logged.Ok L s)
    (h : AllPlaced s) (hnot : ¬ Restarts s.plant cmd) (hs : s.exec limit cmd = some s') :
    AllPlaced s' := by
  intro m n' hn'
  obtain ⟨n, hn, hcfg, hnode⟩ := node_exec hw hlimit hok hs hn'
  obtain ⟨ws, hplaced, hchanged⟩ := h m n hn
  rw [hcfg]
  rcases hnode with ⟨hvisit, hprogress, hchanged'⟩ | ⟨-, hprogress, hchanged'⟩
  · rw [hprogress, hchanged', hchanged]
    have hself : ∀ id, Below L id m → Line.Between L id m m := fun id hb => ⟨hb, .refl⟩
    obtain ⟨ws', hplaced', hws'⟩ := hplaced.act cmd
      (by
        rintro id rfl
        have hready := hvisit.2.2 m (hself id hvisit.2.1)
        rw [progress_of_nodes hn] at hready
        refine ⟨hready, fun hdone => hnot ⟨m, n, hn, ?_, hdone⟩⟩
        rw [hok.good.layout]
        exact hvisit)
      (by
        rintro id rfl
        have hworks := hvisit.2 m (hself id hvisit.1)
        rwa [progress_of_nodes hn] at hworks)
    exact ⟨ws', hplaced', hws'.symm⟩
  · rw [hprogress, hchanged', hchanged]
    exact ⟨ws, hplaced, rfl⟩

/-- A command that restarts a node takes it off its way. -/
theorem not_follows_of_restarts (hw : Wired L height limit) (hlimit : 0 < limit)
    (hok : Logged.Ok L s) (h : AllPlaced s) (hrestart : Restarts s.plant cmd)
    (hs : s.exec limit cmd = some s') : ¬ Follows s' := by
  cases cmd with
  | startWork id =>
      obtain ⟨m, n, hn, hvisit, hdone⟩ := hrestart
      rw [hok.good.layout] at hvisit
      obtain ⟨n', hn'⟩ := exists_node_exec hw hlimit hok hs hn
      obtain ⟨n₀, hn₀, hcfg, hnode⟩ := node_exec hw hlimit hok hs hn'
      obtain rfl := Option.some.inj (hn.symm.trans hn₀)
      obtain ⟨ws, hplaced, hchanged⟩ := h m n hn
      rcases hnode with ⟨-, -, hchanged'⟩ | ⟨hno, -⟩
      · intro hfollows
        have hm := hfollows m n' hn'
        rw [hchanged', hchanged, hcfg] at hm
        have hready := hvisit.2.2 m ⟨hvisit.2.1, .refl⟩
        rw [progress_of_nodes hn] at hready
        exact hplaced.not_follows_of_restart hready hdone hm
      · exact absurd hvisit hno
  | advance id | finishWork id | clearFault id => exact absurd hrestart not_false
  | fail id sev => exact absurd hrestart not_false

/-- The changes of a node only get more. -/
theorem Follows.of_exec (hw : Wired L height limit) (hlimit : 0 < limit) (hok : Logged.Ok L s)
    (hs : s.exec limit cmd = some s') (h : Follows s') : Follows s := by
  intro m n hn
  obtain ⟨n', hn'⟩ := exists_node_exec hw hlimit hok hs hn
  obtain ⟨n₀, hn₀, hcfg, hnode⟩ := node_exec hw hlimit hok hs hn'
  obtain rfl := Option.some.inj (hn.symm.trans hn₀)
  have hm := h m n' hn'
  rw [hcfg] at hm
  rcases hnode with ⟨-, -, hchanged⟩ | ⟨-, -, hchanged⟩
  · rw [hchanged] at hm
    exact (List.prefix_append _ _).trans hm
  · rwa [hchanged] at hm

end Step

/-! ## The composition root -/

def NodeTree.plan : NodeTree → List Step
  | .node _ _ _ plan _ _ => plan

theorem allPlaced_start (host sink trace : Bool) (t : NodeTree) :
    AllPlaced (Logged.start host sink trace t) := by
  intro m n hn
  simp only [Logged.start, Plant.deploy, Option.map_eq_some_iff] at hn
  obtain ⟨x, -, rfl⟩ := hn
  exact ⟨[], .walking 0 .none (Nat.zero_le _), rfl⟩

/-- With plans of preparation steps, following the order is all there is to it. -/
theorem inOrder_iff_follows {host sink trace : Bool} {t : NodeTree}
    (hplan : ∀ x ∈ t.placed (topUpstream host), ∀ s ∈ x.2.plan, s.preparation) {s : Logged}
    (hlayout : s.plant.layout = (Plant.deploy host sink trace t).layout) :
    InOrder s ↔ Follows s := by
  have hprep : ∀ m n, s.plant.nodes m = some n → ∀ st ∈ n.plan, st.preparation := by
    intro m n hn
    obtain ⟨u, node, hnode, -, hcfg⟩ := exists_placed (layout_eq_of_nodes hlayout hn)
    have hn : n.plan = node.plan := by
      rw [hcfg]
      cases node
      rfl
    rw [hn]
    exact hplan _ hnode
  refine ⟨fun h => h.follows, fun h => ⟨h, ?_, ?_⟩⟩
  · intro m n a hn hmem
    exact (mem_changes_order (hprep m n hn) ((h m n hn).subset hmem)).1 rfl
  · intro m n b hn hmem
    exact (mem_changes_order (hprep m n hn) ((h m n hn).subset hmem)).2 rfl

/-- **When the steps follow the process order.**  In every run of commands on a deployed
tree whose plans have preparation steps only, every node's step goes through its order, as
long as no `startWork` comes to a node that is done, and no longer. -/
theorem inOrder_iff_not_restarts (host sink trace : Bool) {t : NodeTree} (hids : t.ids.Nodup)
    (hplan : ∀ x ∈ t.placed (topUpstream host), ∀ s ∈ x.2.plan, s.preparation)
    {limit : ℕ} (hlimit : t.height < limit) (cmds : List Plant.Command) :
    (∃ s, run (Logged.exec limit) (Logged.start host sink trace t) cmds = some s) ∧
      (Throughout (Logged.exec limit) InOrder (Logged.start host sink trace t) cmds ↔
        Along (Logged.exec limit) (fun s cmd => ¬ Restarts s.plant cmd)
          (Logged.start host sink trace t) cmds) := by
  have hw := wired_deploy host sink trace hids hlimit
  have hpos := Nat.zero_lt_of_lt hlimit
  have hok := Logged.ok_start host sink trace t
  have hplaced := allPlaced_start host sink trace t
  refine ⟨hok.exists_run hw hpos cmds, ?_⟩
  · -- a node that follows its order is where its fields say
    refine throughout_iff_along
      (I := fun s => Logged.Ok (Plant.deploy host sink trace t).layout s ∧
        (Follows s → AllPlaced s)) ?_ ?_ ⟨hok, fun _ => hplaced⟩
      ((inOrder_iff_follows hplan hok.good.layout).mpr hplaced.follows)
    · rintro s cmd s' ⟨hok, hall⟩ hs
      refine ⟨hok.step hw hpos hs, fun hfollows => ?_⟩
      have hplaced := hall (hfollows.of_exec hw hpos hok hs)
      exact hplaced.step hw hpos hok
        (fun hrestart => not_follows_of_restarts hw hpos hok hplaced hrestart hs hfollows) hs
    · rintro s cmd s' ⟨hok, hall⟩ hin hs
      have hplaced := hall hin.follows
      rw [inOrder_iff_follows hplan (hok.step hw hpos hs).good.layout]
      constructor
      · intro hfollows hrestart
        exact not_follows_of_restarts hw hpos hok hplaced hrestart hs hfollows
      · intro hnot
        exact (hplaced.step hw hpos hok hnot hs).follows

/-- On the demonstration line, started once after a warning from the camera. -/
theorem inOrder_iff_not_restarts_demoLine :
    (∃ s, run (Logged.exec 3) (Logged.start true true true demoLine)
        [.advance ⟨1⟩, .fail ⟨131⟩ .alarm, .startWork ⟨1⟩] = some s) ∧
      (Throughout (Logged.exec 3) InOrder (Logged.start true true true demoLine)
          [.advance ⟨1⟩, .fail ⟨131⟩ .alarm, .startWork ⟨1⟩] ↔
        Along (Logged.exec 3) (fun s cmd => ¬ Restarts s.plant cmd)
          (Logged.start true true true demoLine)
          [.advance ⟨1⟩, .fail ⟨131⟩ .alarm, .startWork ⟨1⟩]) :=
  inOrder_iff_not_restarts true true true (by decide) (by decide) (by decide) _

/-- The temperature sensor works, is done, and works again. -/
theorem not_inOrder_sensor :
    ¬ Throughout (Logged.exec 1) InOrder (Logged.start true true true sensor)
      [.advance ⟨112⟩, .startWork ⟨112⟩, .finishWork ⟨112⟩, .startWork ⟨112⟩] := by
  refine not_throughout_of_end
    (R := fun s => (s.plant.nodes ⟨112⟩).isSome = true ∧ s.changed ⟨112⟩ =
      [(.unknown, .power), (.power, .ready), (.ready, .work), (.work, .done), (.done, .work)])
    (by decide +kernel) ?_
  rintro s ⟨hnode, hchanged⟩ hin
  obtain ⟨n, hn⟩ := Option.isSome_iff_exists.mp hnode
  exact hin.stays ⟨112⟩ n .work hn (by simp [hchanged])

end Opencode.Hier
