import Opencode.Hier.Plant

/-!
# Wired hierarchies

What the commands rely on is not the tree itself but how its nodes are connected: who is
whose child, that parents and upstreams agree, and that the hierarchy is finitely high.
`Wired` states this for a layout, the configuration of every id, and `wired_deploy` proves
it of every tree with unique ids.

## Main definitions

* `Layout`, `Child`, `Below` — the hierarchy of a layout.
* `Wired` — the connections.
* `Plant.layout` — the layout of a plant.
* `wired_deploy` — the composition root wires.
-/

namespace Opencode.Hier

/-- The configuration of every node. -/
abbrev Layout := CoreId → Option NodeConfig

/-- `k` is a child of `i`. -/
def Child (L : Layout) (i k : CoreId) : Prop := ∃ c, L i = some c ∧ k ∈ c.childIds

/-- `m` is in the subtree of `i`, `i` included. -/
def Below (L : Layout) : CoreId → CoreId → Prop := Relation.ReflTransGen (Child L)

/-- The nodes of a layout are connected as a forest of bounded height. -/
structure Wired (L : Layout) (height : CoreId → ℕ) (limit : ℕ) : Prop where
  id_eq : ∀ i c, L i = some c → c.id = i
  rpc : ∀ i c, L i = some c → c.rpc = true
  child : ∀ i c, L i = some c → ∀ k ∈ c.childIds, ∃ d, L k = some d ∧ d.up = some (.node i)
  parent : ∀ k d i, L k = some d → d.up = some (.node i) → ∃ c, L i = some c ∧ k ∈ c.childIds
  nodup : ∀ i c, L i = some c → c.childIds.Nodup
  lower : ∀ i c, L i = some c → ∀ k ∈ c.childIds, height k < height i
  bounded : ∀ i c, L i = some c → height i < limit

/-- The configurations of the nodes of a plant. -/
def Plant.layout (σ : Plant) : Layout := fun id => (σ.nodes id).map HierNode.toNodeConfig

/-! ## Subtrees -/

namespace Wired

variable {L : Layout} {height : CoreId → ℕ} {limit : ℕ} {i j k m : CoreId}

theorem below_iff : Below L i m ↔ m = i ∨ ∃ k, Child L i k ∧ Below L k m := by
  rw [Below, Relation.ReflTransGen.cases_head_iff]
  constructor
  · rintro (rfl | h)
    · exact .inl rfl
    · exact .inr h
  · rintro (rfl | h)
    · exact .inl rfl
    · exact .inr h

theorem child_iff {c : NodeConfig} (hi : L i = some c) : Child L i k ↔ k ∈ c.childIds := by
  simp [Child, hi]

/-- A subtree is its top node and the subtrees of its children. -/
theorem below_iff_of_layout {c : NodeConfig} (hi : L i = some c) :
    Below L i m ↔ m = i ∨ ∃ k ∈ c.childIds, Below L k m := by
  rw [below_iff]
  simp only [child_iff hi]

theorem height_le (h : Wired L height limit) (hb : Below L i m) : height m ≤ height i := by
  induction hb with
  | refl => exact le_rfl
  | tail _ hc ih =>
      obtain ⟨c, hL, hk⟩ := hc
      exact (h.lower _ c hL _ hk).le.trans ih

theorem height_lt (h : Wired L height limit) (hc : Child L i k) (hb : Below L k m) :
    height m < height i := by
  obtain ⟨c, hL, hk⟩ := hc
  exact (h.height_le hb).trans_lt (h.lower i c hL k hk)

/-- The nodes of a subtree are there. -/
theorem exists_below (h : Wired L height limit) {c : NodeConfig} (hi : L i = some c)
    (hb : Below L i m) : ∃ d, L m = some d := by
  rcases Relation.ReflTransGen.cases_tail hb with rfl | ⟨x, -, cx, hx, hm⟩
  · exact ⟨c, hi⟩
  · obtain ⟨d, hd, -⟩ := h.child x cx hx m hm
    exact ⟨d, hd⟩

/-- A node has one parent. -/
theorem child_unique (h : Wired L height limit) (hi : Child L i m) (hj : Child L j m) :
    i = j := by
  obtain ⟨c, hL, hm⟩ := hi
  obtain ⟨c', hL', hm'⟩ := hj
  obtain ⟨d, hd, hup⟩ := h.child i c hL m hm
  obtain ⟨d', hd', hup'⟩ := h.child j c' hL' m hm'
  obtain rfl := Option.some.inj (hd.symm.trans hd')
  simpa using hup.symm.trans hup'

/-- A node is a child of its upstream and of no other node. -/
theorem mem_childIds_iff (h : Wired L height limit) {c d : NodeConfig} {u : Upstream}
    (hk : L k = some d) (hu : d.up = some u) (hi : L i = some c) :
    k ∈ c.childIds ↔ u = .node i := by
  constructor
  · intro hmem
    obtain ⟨d', hd', hup⟩ := h.child i c hi k hmem
    obtain rfl := Option.some.inj (hk.symm.trans hd')
    exact Option.some.inj (hu.symm.trans hup)
  · rintro rfl
    obtain ⟨c', hc', hmem⟩ := h.parent k d i hk hu
    obtain rfl := Option.some.inj (hi.symm.trans hc')
    exact hmem

/-- A proper ancestor of `k` is at or above the parent of `k`. -/
theorem below_parent (h : Wired L height limit) (hb : Below L j k) (hne : j ≠ k)
    (hc : Child L i k) : Below L j i := by
  rcases Relation.ReflTransGen.cases_tail hb with heq | ⟨x, hjx, hx⟩
  · exact absurd heq.symm hne
  · obtain rfl := h.child_unique hc hx
    exact hjx

/-- **Different children have disjoint subtrees.** -/
theorem below_disjoint (h : Wired L height limit) (hj : Child L i j) (hk : Child L i k)
    (hne : j ≠ k) (hjm : Below L j m) : ¬ Below L k m := by
  intro hkm
  have huniq : Relator.RightUnique (Function.swap (Child L)) := fun _ _ _ ha hb =>
    h.child_unique ha hb
  have hchain : Below L j k ∨ Below L k j := by
    rcases Relation.ReflTransGen.total_of_right_unique huniq
      (Relation.reflTransGen_swap.mpr hjm) (Relation.reflTransGen_swap.mpr hkm) with hb | hb
    · exact .inr (Relation.reflTransGen_swap.mp hb)
    · exact .inl (Relation.reflTransGen_swap.mp hb)
  rcases hchain with hb | hb
  · exact absurd (h.height_lt hj (h.below_parent hb hne hk)) (lt_irrefl _)
  · exact absurd (h.height_lt hk (h.below_parent hb hne.symm hj)) (lt_irrefl _)

/-- A node is in no subtree of its children. -/
theorem not_below_child (h : Wired L height limit) (hc : Child L i k) : ¬ Below L k i :=
  fun hb => absurd (h.height_lt hc hb) (lt_irrefl _)

end Wired

/-! ## Trees -/

namespace NodeTree

theorem induction {P : NodeTree → Prop} (h : ∀ t, (∀ c ∈ t.children, P c) → P t)
    (t : NodeTree) : P t := by
  refine @NodeTree.rec P (fun ts => ∀ c ∈ ts, P c) ?_ ?_ ?_ t
  · intro id name layer plan critical children ih
    exact h _ ih
  · simp
  · intro t ts ht hts c hc
    rcases List.mem_cons.mp hc with rfl | hc
    · exact ht
    · exact hts c hc

theorem placedAll_eq (up : Option Upstream) (ts : List NodeTree) :
    placedAll up ts = ts.flatMap (placed up) := by
  induction ts with
  | nil => simp [placedAll]
  | cons t ts ih => simp [placedAll, ih]

theorem placed_eq (up : Option Upstream) (t : NodeTree) :
    t.placed up = (up, t) :: t.children.flatMap (placed (some (.node t.id))) := by
  cases t with
  | node id name layer plan critical children =>
      simp [placed, placedAll_eq, NodeTree.children, NodeTree.id]

theorem mem_placed_self (up : Option Upstream) (t : NodeTree) : (up, t) ∈ t.placed up := by
  rw [placed_eq]
  exact List.mem_cons_self

variable {up u : Option Upstream} {s t : NodeTree}

/-- The nodes of the tree are closed under children. -/
theorem child_mem_placed (h : (u, s) ∈ t.placed up) {c : NodeTree} (hc : c ∈ s.children) :
    (some (.node s.id), c) ∈ t.placed up := by
  induction t using NodeTree.induction generalizing up with
  | _ t ih =>
      rw [placed_eq] at h ⊢
      refine List.mem_cons_of_mem _ (List.mem_flatMap.mpr ?_)
      rcases List.mem_cons.mp h with heq | h
      · obtain ⟨-, rfl⟩ := Prod.mk.inj heq
        exact ⟨c, hc, mem_placed_self _ c⟩
      · obtain ⟨d, hd, h⟩ := List.mem_flatMap.mp h
        exact ⟨d, hd, ih d hd h⟩

/-- Every node is the top of the tree or a child of a node of the tree. -/
theorem exists_parent (h : (u, s) ∈ t.placed up) :
    (u = up ∧ s = t) ∨
      ∃ v p, (v, p) ∈ t.placed up ∧ s ∈ p.children ∧ u = some (.node p.id) := by
  induction t using NodeTree.induction generalizing up with
  | _ t ih =>
      rw [placed_eq] at h
      rcases List.mem_cons.mp h with heq | h
      · exact .inl (Prod.mk.inj heq)
      · right
        obtain ⟨d, hd, h⟩ := List.mem_flatMap.mp h
        rcases ih d hd h with ⟨rfl, rfl⟩ | ⟨v, p, hp, hs, hu⟩
        · exact ⟨up, t, mem_placed_self _ t, hd, rfl⟩
        · refine ⟨v, p, ?_, hs, hu⟩
          rw [placed_eq]
          exact List.mem_cons_of_mem _ (List.mem_flatMap.mpr ⟨d, hd, hp⟩)

/-- The ids do not depend on the upstream. -/
theorem map_id_placed (up : Option Upstream) (t : NodeTree) :
    ((t.placed up).map fun x => x.2.id) = t.ids := by
  simp [ids, placed_eq up t, placed_eq none t]

/-- The tops of several trees stand among their nodes. -/
theorem tops_sublist (up : Option Upstream) (ts : List NodeTree) :
    (ts.map NodeTree.id).Sublist ((ts.flatMap (placed up)).map fun x => x.2.id) := by
  induction ts with
  | nil => simp
  | cons t ts ih =>
      rw [List.flatMap_cons, List.map_append, placed_eq, List.map_cons, List.map_cons,
        List.cons_append]
      exact (ih.trans (List.sublist_append_right _ _)).cons_cons _

/-- The ids of a node's children stand among the ids of the tree. -/
theorem children_sublist (h : (u, s) ∈ t.placed up) :
    (s.children.map NodeTree.id).Sublist ((t.placed up).map fun x => x.2.id) := by
  induction t using NodeTree.induction generalizing up with
  | _ t ih =>
      rw [placed_eq] at h ⊢
      refine List.Sublist.cons _ ?_
      rcases List.mem_cons.mp h with heq | h
      · obtain ⟨-, rfl⟩ := Prod.mk.inj heq
        exact tops_sublist _ _
      · obtain ⟨d, hd, h⟩ := List.mem_flatMap.mp h
        refine (ih d hd h).trans (List.Sublist.map _ ?_)
        obtain ⟨before, after, hsplit⟩ := List.append_of_mem hd
        rw [hsplit, List.flatMap_append, List.flatMap_cons]
        exact (List.sublist_append_left _ _).trans (List.sublist_append_right _ _)

theorem height_child_lt {c : NodeTree} (hc : c ∈ t.children) : c.height < t.height := by
  have hall : ∀ ts : List NodeTree, c ∈ ts → c.height < heightAll ts := by
    intro ts hts
    induction ts with
    | nil => cases hts
    | cons d ts ih =>
        rw [heightAll]
        rcases List.mem_cons.mp hts with rfl | hts
        · omega
        · have := ih hts
          omega
  cases t with
  | node id name layer plan critical children => exact hall children hc

theorem height_le (h : (u, s) ∈ t.placed up) : s.height ≤ t.height := by
  induction t using NodeTree.induction generalizing up with
  | _ t ih =>
      rw [placed_eq] at h
      rcases List.mem_cons.mp h with heq | h
      · rw [(Prod.mk.inj heq).2]
      · obtain ⟨d, hd, h⟩ := List.mem_flatMap.mp h
        exact (ih d hd h).trans (height_child_lt hd).le

/-- The node with the given id. -/
def at? (t : NodeTree) (i : CoreId) : Option NodeTree :=
  ((t.placed none).find? fun x => decide (x.2.id = i)).map Prod.snd

/-- With unique ids, the search by id finds the node it is asked for. -/
theorem find_placed (hids : t.ids.Nodup) (h : (u, s) ∈ t.placed up) :
    ((t.placed up).find? fun x => decide (x.2.id = s.id)) = some (u, s) := by
  rw [← map_id_placed up] at hids
  generalize t.placed up = l at h hids
  induction l with
  | nil => cases h
  | cons x l ih =>
      obtain ⟨hx, hl⟩ := List.nodup_cons.mp hids
      rcases List.mem_cons.mp h with rfl | h
      · simp
      · have hne : x.2.id ≠ s.id :=
          fun heq => hx (List.mem_map.mpr ⟨(u, s), h, heq.symm⟩)
        simpa [hne] using ih h hl

theorem at?_eq (hids : t.ids.Nodup) (h : (u, s) ∈ t.placed up) : t.at? s.id = some s := by
  obtain ⟨v, hv⟩ : ∃ v, (v, s) ∈ t.placed none := by
    rw [placed_eq] at h
    rw [placed_eq]
    rcases List.mem_cons.mp h with heq | h
    · exact ⟨none, by simp [(Prod.mk.inj heq).2]⟩
    · exact ⟨u, List.mem_cons_of_mem _ h⟩
  simp [at?, find_placed hids hv]

/-- The height of the node with the given id. -/
def heightAt (t : NodeTree) (i : CoreId) : ℕ := ((t.at? i).map NodeTree.height).getD 0

theorem heightAt_eq (hids : t.ids.Nodup) (h : (u, s) ∈ t.placed up) :
    t.heightAt s.id = s.height := by
  simp [heightAt, at?_eq hids h]

@[simp] theorem config_id (sink trace : Bool) (u : Option Upstream) (s : NodeTree) :
    (s.config sink trace u).id = s.id := by
  cases s
  rfl

@[simp] theorem config_rpc (sink trace : Bool) (u : Option Upstream) (s : NodeTree) :
    (s.config sink trace u).rpc = true := by
  cases s
  rfl

@[simp] theorem config_childIds (sink trace : Bool) (u : Option Upstream) (s : NodeTree) :
    (s.config sink trace u).childIds = s.children.map NodeTree.id := by
  cases s
  rfl

@[simp] theorem config_up (sink trace : Bool) (u : Option Upstream) (s : NodeTree) :
    (s.config sink trace u).up = u := by
  cases s
  rfl

end NodeTree

/-! ## The composition root -/

section Deploy

variable {host sink trace : Bool} {t s : NodeTree} {u : Option Upstream} {i : CoreId}

theorem layout_deploy (host sink trace : Bool) (hids : t.ids.Nodup)
    (h : (u, s) ∈ t.placed (topUpstream host)) :
    (Plant.deploy host sink trace t).layout s.id = some (s.config sink trace u) := by
  simp [Plant.layout, Plant.deploy, NodeTree.find_placed hids h]

/-- Every configuration of a deployed plant comes from a node of the tree. -/
theorem exists_placed {c : NodeConfig}
    (h : (Plant.deploy host sink trace t).layout i = some c) :
    ∃ u s, (u, s) ∈ t.placed (topUpstream host) ∧ s.id = i ∧ c = s.config sink trace u := by
  simp only [Plant.layout, Plant.deploy, Option.map_map, Option.map_eq_some_iff] at h
  obtain ⟨⟨u, s⟩, hfind, rfl⟩ := h
  exact ⟨u, s, List.mem_of_find?_eq_some hfind, by simpa using List.find?_some hfind, rfl⟩

/-- A child id in the layout is that of a child in the tree. -/
theorem exists_placed_child {c : NodeConfig} {k : CoreId}
    (h : (Plant.deploy host sink trace t).layout i = some c) (hk : k ∈ c.childIds) :
    ∃ u s d, (u, s) ∈ t.placed (topUpstream host) ∧ s.id = i ∧ d ∈ s.children ∧
      d.id = k := by
  obtain ⟨u, s, hs, hid, rfl⟩ := exists_placed h
  rw [NodeTree.config_childIds] at hk
  obtain ⟨d, hd, hdk⟩ := List.mem_map.mp hk
  exact ⟨u, s, d, hs, hid, hd, hdk⟩

/-- **The composition root wires every tree with unique ids.** -/
theorem wired_deploy (host sink trace : Bool) {t : NodeTree} (hids : t.ids.Nodup)
    {limit : ℕ} (hlimit : t.height < limit) :
    Wired (Plant.deploy host sink trace t).layout t.heightAt limit where
  id_eq := by
    intro i c h
    obtain ⟨u, s, -, rfl, rfl⟩ := exists_placed h
    simp
  rpc := by
    intro i c h
    obtain ⟨u, s, -, rfl, rfl⟩ := exists_placed h
    simp
  child := by
    intro i c h k hk
    obtain ⟨u, s, d, hs, rfl, hd, rfl⟩ := exists_placed_child h hk
    exact ⟨_, layout_deploy host sink trace hids (NodeTree.child_mem_placed hs hd), by simp⟩
  parent := by
    intro k d i h hup
    obtain ⟨u, s, hs, rfl, rfl⟩ := exists_placed h
    rw [NodeTree.config_up] at hup
    subst hup
    rcases NodeTree.exists_parent hs with ⟨htop, -⟩ | ⟨v, p, hp, hmem, hu⟩
    · cases host <;> simp [topUpstream] at htop
    · obtain rfl : i = p.id := by simpa using hu
      exact ⟨_, layout_deploy host sink trace hids hp, by simpa using ⟨s, hmem, rfl⟩⟩
  nodup := by
    intro i c h
    obtain ⟨u, s, hs, rfl, rfl⟩ := exists_placed h
    rw [NodeTree.config_childIds]
    exact (NodeTree.map_id_placed _ t ▸ hids).sublist (NodeTree.children_sublist hs)
  lower := by
    intro i c h k hk
    obtain ⟨u, s, d, hs, rfl, hd, rfl⟩ := exists_placed_child h hk
    rw [NodeTree.heightAt_eq hids hs,
      NodeTree.heightAt_eq hids (NodeTree.child_mem_placed hs hd)]
    exact NodeTree.height_child_lt hd
  bounded := by
    intro i c h
    obtain ⟨u, s, hs, rfl, rfl⟩ := exists_placed h
    rw [NodeTree.heightAt_eq hids hs]
    exact (NodeTree.height_le hs).trans_lt hlimit

end Deploy

end Opencode.Hier
