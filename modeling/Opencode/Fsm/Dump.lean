import Opencode.Fsm.Growth
import Opencode.Lib.Preorder

/-!
# The dump of the hierarchy

`dumpHierarchy` looks for the roots among the parents and goes down from each of them by
the lists of children.  The lists are not the reverse of `parents`: `addState` appends to
one of them at every call and never takes a state out of the list of its former parent.
The search for roots takes no parent that is the parent of some state, and that is all
of them; what is dumped is the tree of the parent of the least state.

`Faithful` says that a dump shows the hierarchy; `dumped_iff` says when it does.

## Main definitions

* `findRoots`, `dumpNode`, `dumpHierarchy` — the dump.
* `Faithful`, `Dumped` — it is the hierarchy.
* `SingleTree` — the hierarchies and the sequences of calls for which it is.
-/

namespace Opencode.Fsm

open Opencode.Lib

universe u

/-- A printed line. -/
structure DumpLine (S : Type u) where
  depth : ℕ
  current : Bool
  state : S
  deriving DecidableEq

/-- Two blanks for each level, a mark at the current state and one at the roots. -/
def DumpLine.text {S : Type u} (print : S → String) (line : DumpLine S) : String :=
  String.join (List.replicate line.depth "  ") ++ (if line.current then "> " else "  ") ++
    print line.state ++ (if line.depth = 0 then " (root)" else "") ++ "\n"

def DumpLine.place {S : Type u} (line : DumpLine S) : ℕ × S := (line.depth, line.state)

namespace HierarchicalStateMachine

section Dump

variable {S E A G : Type u} [LinearOrder S] (m : HierarchicalStateMachine S E A G)

/-- The links in the order of the map, which is the one of the states. -/
def entriesInOrder : List (Σ _ : S, S) := m.parents.entries.insertionSort fun a b => a.1 ≤ b.1

def childrenOf (s : S) : List S := (m.children.lookup s).getD []

/-- The parents that have no parent and are, by the comparison the source makes, nobody's
parent either; if there are none, the parent of the first state. -/
def findRoots : List S :=
  let roots := m.entriesInOrder.foldl (fun roots entry =>
    if (m.parents.lookup entry.2).isNone ∧ entry.2 ∉ roots ∧
        ¬ (m.entriesInOrder.any fun e => e.2 = entry.2) then
      roots.orderedInsert (· ≤ ·) entry.2
    else roots) []
  match roots, m.entriesInOrder with
  | [], entry :: _ => [entry.2]
  | roots, _ => roots

def dumpLine (place : ℕ × S) : DumpLine S :=
  ⟨place.1, decide (m.currentState = place.2), place.2⟩

/-- A state and, one level deeper, its children.  A path that repeats no state is not
longer than `turns`. -/
def dumpNode (depth : ℕ) (state : S) : Option (List (DumpLine S)) :=
  (preorder m.childrenOf m.turns depth state).map (List.map m.dumpLine)

def dumpHierarchy : Option (List (DumpLine S)) :=
  (m.findRoots.mapM (m.dumpNode 0)).map List.flatten

/-- What appears on the screen. -/
def dumpText (print : S → String) : Option String :=
  m.dumpHierarchy.map fun lines => String.join (lines.map (DumpLine.text print))

/-! ## What a dump should be -/

/-- The state is in the hierarchy: it has a parent or is one. -/
def Occurs (s : S) : Prop := (m.parent s).isSome ∨ ∃ a, m.parent a = some s

/-- Every state of the hierarchy is there once, the roots at depth 0 and every other state
one level below its parent and in the parent's block. -/
structure Faithful (places : List (ℕ × S)) : Prop where
  once : ∀ s, m.Occurs s → (places.map Prod.snd).count s = 1
  root : ∀ d s, (d, s) ∈ places → m.parent s = none → d = 0
  below : ∀ before d s after p, places = before ++ (d, s) :: after → m.parent s = some p →
    UnderLine before d p

/-- The dump ends and shows the hierarchy. -/
def Dumped : Prop :=
  ∃ lines, m.dumpHierarchy = some lines ∧ m.Faithful (lines.map DumpLine.place)

variable {m}

/-! ## The dump is the tree of one state -/

/-- The parent of the first state that has one. -/
def leastParent (m : HierarchicalStateMachine S E A G) : Option S :=
  m.entriesInOrder.head?.map Sigma.snd

/-- The search for roots finds none: each candidate is the parent of the state it was
found at. -/
theorem findRoots_eq : m.findRoots = m.leastParent.toList := by
  have hnone : ∀ entries : List (Σ _ : S, S), (∀ e ∈ entries, e ∈ m.entriesInOrder) →
      entries.foldl (fun roots entry =>
        if (m.parents.lookup entry.2).isNone ∧ entry.2 ∉ roots ∧
            ¬ (m.entriesInOrder.any fun e => e.2 = entry.2) then
          roots.orderedInsert (· ≤ ·) entry.2
        else roots) [] = [] := by
    intro entries hall
    induction entries with
    | nil => rfl
    | cons entry entries ih =>
        have hchild : m.entriesInOrder.any fun e => e.2 = entry.2 :=
          List.any_eq_true.mpr ⟨entry, hall entry List.mem_cons_self, by simp⟩
        rw [List.foldl_cons, if_neg fun h => h.2.2 hchild]
        exact ih fun e he => hall e (List.mem_cons_of_mem entry he)
  rw [findRoots, hnone _ fun _ he => he, leastParent]
  cases m.entriesInOrder <;> rfl

theorem dumpHierarchy_of_none (h : m.leastParent = none) : m.dumpHierarchy = some [] := by
  simp [dumpHierarchy, findRoots_eq, h]

theorem dumpHierarchy_of_some {r : S} (h : m.leastParent = some r) :
    m.dumpHierarchy = m.dumpNode 0 r := by
  cases hd : m.dumpNode 0 r <;> simp [dumpHierarchy, findRoots_eq, h, List.mapM_cons, hd]

theorem dumped_of_some_iff {r : S} (h : m.leastParent = some r) :
    m.Dumped ↔ ∃ places, preorder m.childrenOf m.turns 0 r = some places ∧ m.Faithful places := by
  have hplace : ∀ places : List (ℕ × S),
      (places.map m.dumpLine).map DumpLine.place = places := by
    intro places
    rw [List.map_map]
    exact List.map_id places
  rw [Dumped, dumpHierarchy_of_some h, dumpNode]
  constructor
  · rintro ⟨lines, hlines, hfaithful⟩
    obtain ⟨places, hplaces, rfl⟩ := Option.map_eq_some_iff.mp hlines
    exact ⟨places, hplaces, hplace places ▸ hfaithful⟩
  · rintro ⟨places, hplaces, hfaithful⟩
    exact ⟨_, Option.map_eq_some_iff.mpr ⟨places, hplaces, rfl⟩, (hplace places).symm ▸ hfaithful⟩

theorem mem_entriesInOrder_iff {a p : S} : ⟨a, p⟩ ∈ m.entriesInOrder ↔ m.parent a = some p := by
  rw [entriesInOrder, List.mem_insertionSort, parent]
  exact (AList.mem_lookup_iff).symm

/-- The first state is the least one with a parent. -/
theorem leastParent_eq_some_iff {r : S} :
    m.leastParent = some r ↔
      ∃ a, m.parent a = some r ∧ ∀ b p, m.parent b = some p → a ≤ b := by
  have hsorted : m.entriesInOrder.Pairwise fun a b => a.1 ≤ b.1 := by
    have : IsTrans (Σ _ : S, S) fun a b => a.1 ≤ b.1 := ⟨fun _ _ _ => le_trans⟩
    have : Std.Total fun a b : Σ _ : S, S => a.1 ≤ b.1 := ⟨fun a b => le_total a.1 b.1⟩
    exact List.pairwise_insertionSort _ m.parents.entries
  have hmem := fun a p => mem_entriesInOrder_iff (m := m) (a := a) (p := p)
  rw [leastParent]
  cases hentries : m.entriesInOrder with
  | nil => simpa [hentries] using fun a ha => absurd ((hmem a r).mpr ha) (by simp [hentries])
  | cons first rest =>
      rw [hentries, List.pairwise_cons] at hsorted
      have hfirst : m.parent first.1 = some first.2 := (hmem _ _).mp (by simp [hentries])
      have hleast : ∀ b p, m.parent b = some p → first.1 ≤ b := by
        intro b p hb
        have hin := (hmem b p).mpr hb
        rw [hentries, List.mem_cons] at hin
        rcases hin with rfl | hin
        · exact le_rfl
        · exact hsorted.1 _ hin
      constructor
      · rintro ⟨⟩
        exact ⟨first.1, hfirst, hleast⟩
      · rintro ⟨a, ha, hmin⟩
        obtain rfl : a = first.1 := le_antisymm (hmin _ _ hfirst) (hleast a r ha)
        exact hfirst.symm.trans ha

theorem occurs_leastParent {r : S} (h : m.leastParent = some r) : m.Occurs r := by
  obtain ⟨a, ha, -⟩ := leastParent_eq_some_iff.mp h
  exact .inr ⟨a, ha⟩

/-! ## What the calls leave -/

/-- The hierarchy a sequence of calls builds. -/
def addStates (m : HierarchicalStateMachine S E A G) (calls : List (S × S)) :
    HierarchicalStateMachine S E A G :=
  calls.foldl (fun m c => m.addState c.1 c.2) m.bare

theorem addStates_concat (calls : List (S × S)) (c : S × S) :
    m.addStates (calls ++ [c]) = (m.addStates calls).addState c.1 c.2 := by
  simp [addStates]

theorem childrenOf_addState (state p q : S) :
    (m.addState state p).childrenOf q =
      m.childrenOf q ++ if p = q then [state] else [] := by
  by_cases h : p = q
  · subst h
    simp [childrenOf, addState]
  · simp [childrenOf, addState, AList.lookup_insert_ne (Ne.symm h), h]

/-- The list of children has every call that named the parent, the later ones for the same
state too. -/
theorem childrenOf_addStates (calls : List (S × S)) (q : S) :
    (m.addStates calls).childrenOf q = (calls.filter fun c => c.2 = q).map Prod.fst := by
  induction calls using List.reverseRecOn with
  | nil => rfl
  | append_singleton calls c ih =>
      rw [addStates_concat, childrenOf_addState, ih]
      by_cases h : c.2 = q <;> simp [h]

/-- The parent of a state was named by a call. -/
theorem mem_of_parent_addStates {calls : List (S × S)} {s p : S}
    (h : (m.addStates calls).parent s = some p) : (s, p) ∈ calls := by
  induction calls using List.reverseRecOn with
  | nil => cases h
  | append_singleton calls c ih =>
      rw [addStates_concat, parent_addState] at h
      by_cases hs : s = c.1
      · subst hs
        obtain rfl : c.2 = p := by simpa using h
        simp
      · rw [Function.update_of_ne hs] at h
        exact List.mem_append_left _ (ih h)

theorem parent_isSome_of_mem {calls : List (S × S)} {c : S × S} (h : c ∈ calls) :
    ((m.addStates calls).parent c.1).isSome := by
  induction calls using List.reverseRecOn with
  | nil => cases h
  | append_singleton calls last ih =>
      rw [addStates_concat, parent_addState]
      by_cases hs : c.1 = last.1
      · simp [hs]
      · rw [Function.update_of_ne hs]
        rcases List.mem_append.mp h with h | h
        · exact ih h
        · exact absurd (congrArg Prod.fst (List.mem_singleton.mp h)) hs

/-! ## When the dump is the hierarchy -/

instance (s : S) : Decidable (m.Occurs s) :=
  decidable_of_iff (∃ e ∈ m.parents.entries, e.1 = s ∨ e.2 = s) <| by
    have hmem : ∀ a p, ⟨a, p⟩ ∈ m.parents.entries ↔ m.parent a = some p :=
      fun a p => (AList.mem_lookup_iff).symm
    simp only [Occurs, Option.isSome_iff_exists, ← hmem, Sigma.exists]
    grind

/-- How many calls put `s` under a state that is still in the hierarchy. -/
def placements (m : HierarchicalStateMachine S E A G) (calls : List (S × S)) (s : S) : ℕ :=
  calls.countP fun c => c.1 = s ∧ m.Occurs c.2

/-- The hierarchy is one tree, the one of the first state's parent, and each state was put
under a state of it once. -/
structure SingleTree (m : HierarchicalStateMachine S E A G) (calls : List (S × S)) : Prop where
  root : ∀ s, m.Occurs s → (m.parent s = none ↔
    ∃ a, m.parent a = some s ∧ ∀ b p, m.parent b = some p → a ≤ b)
  once : ∀ s, (m.parent s).isSome → m.placements calls s = 1

variable {calls : List (S × S)} {c p r x : S} {places : List (ℕ × S)}

theorem mem_childrenOf_iff : c ∈ (m.addStates calls).childrenOf p ↔ (c, p) ∈ calls := by
  simp [childrenOf_addStates]

/-- What is in a list of children is in the hierarchy. -/
theorem occurs_of_mem_childrenOf (h : c ∈ (m.addStates calls).childrenOf p) :
    (m.addStates calls).Occurs c :=
  .inl (parent_isSome_of_mem (mem_childrenOf_iff.mp h))

/-- What is listed below a state of the hierarchy is in it. -/
theorem occurs_of_mem_places (hlist : Listing (m.addStates calls).childrenOf 0 [r] places)
    (hr : (m.addStates calls).Occurs r) : ∀ s ∈ places.map Prod.snd, (m.addStates calls).Occurs s :=
  hlist.forall_of_closed (fun _ _ _ => occurs_of_mem_childrenOf) (by simpa using hr)

/-- The calls that name one of the parents of a list. -/
theorem count_flatMap_childrenOf {l : List S} (hl : l.Nodup) :
    (l.flatMap (m.addStates calls).childrenOf).count x =
      calls.countP fun c => c.1 = x ∧ c.2 ∈ l := by
  induction l with
  | nil => simp
  | cons p l ih =>
      obtain ⟨hp, hl⟩ := List.nodup_cons.mp hl
      rw [List.flatMap_cons, List.count_append, ih hl, childrenOf_addStates]
      clear ih
      induction calls with
      | nil => rfl
      | cons c calls ih =>
          simp only [List.filter_cons, List.countP_cons, List.mem_cons] at ih ⊢
          rw [← ih]
          by_cases hc : c.2 = p
          · by_cases hx : c.1 = x <;> simp [hc, hx, hp]
            omega
          · by_cases hx : c.1 = x <;> simp [hc, hx]
            omega

/-- A faithful dump counts, for every state, the calls that put it somewhere. -/
theorem count_of_faithful (h : (m.addStates calls).Faithful places)
    (hlist : Listing (m.addStates calls).childrenOf 0 [r] places)
    (hr : (m.addStates calls).Occurs r) (x : S) :
    (places.map Prod.snd).count x = [r].count x + (m.addStates calls).placements calls x := by
  have hclosed := occurs_of_mem_places hlist hr
  have hmem : ∀ s, s ∈ places.map Prod.snd ↔ (m.addStates calls).Occurs s := by
    refine fun s => ⟨hclosed s, fun hs => ?_⟩
    exact List.count_pos_iff.mp (by rw [h.once s hs]; exact Nat.one_pos)
  have hnodup : (places.map Prod.snd).Nodup :=
    List.nodup_iff_count_le_one.mpr fun s => by
      by_cases hs : s ∈ places.map Prod.snd
      · exact (h.once s (hclosed s hs)).le
      · simp [List.count_eq_zero_of_not_mem hs]
  rw [hlist.perm.count_eq, List.count_append, count_flatMap_childrenOf hnodup, placements]
  simp only [hmem]

namespace SingleTree

/-- In a single tree the lists of children are the reverse of the links. -/
theorem parent_of_mem (h : (m.addStates calls).SingleTree calls)
    (hp : (m.addStates calls).Occurs p) (hc : c ∈ (m.addStates calls).childrenOf p) :
    (m.addStates calls).parent c = some p := by
  have hcp := mem_childrenOf_iff.mp hc
  obtain ⟨q, hq⟩ := Option.isSome_iff_exists.mp (parent_isSome_of_mem (m := m) hcp)
  have honce := h.once c (by simp [hq])
  rw [placements, List.countP_eq_length_filter, List.length_eq_one_iff] at honce
  obtain ⟨only, honly⟩ := honce
  -- The call for the link and the call for the list are the same one.
  have hmem : ∀ p', (c, p') ∈ calls → (m.addStates calls).Occurs p' → (c, p') = only := by
    intro p' hcall hocc
    refine List.mem_singleton.mp (honly ▸ List.mem_filter.mpr ⟨hcall, ?_⟩)
    simpa using hocc
  have heq := (hmem p hcp hp).trans (hmem q (mem_of_parent_addStates hq) (.inr ⟨c, hq⟩)).symm
  rw [hq, (Prod.mk.inj heq).2]

theorem count_childrenOf (h : (m.addStates calls).SingleTree calls)
    (hc : (m.addStates calls).parent c = some p) :
    ((m.addStates calls).childrenOf p).count c = 1 := by
  have hcount : ([p].flatMap (m.addStates calls).childrenOf).count c =
      calls.countP fun call => call.1 = c ∧ call.2 ∈ [p] := count_flatMap_childrenOf (by simp)
  rw [List.flatMap_singleton] at hcount
  rw [hcount, ← h.once c (by simp [hc]), placements]
  refine List.countP_congr fun call hcall => ?_
  simp only [List.mem_singleton, decide_eq_true_eq]
  refine and_congr_right ?_
  rintro rfl
  constructor
  · rintro rfl
    exact .inr ⟨call.1, hc⟩
  · intro hocc
    have hpar := h.parent_of_mem hocc (mem_childrenOf_iff.mpr hcall)
    exact Option.some.inj (hpar.symm.trans hc)

/-- The recursion of the dump ends. -/
theorem exists_places (h : (m.addStates calls).SingleTree calls)
    (hac : Acyclic (m.addStates calls).parent) (hr : (m.addStates calls).Occurs r) :
    ∃ places, preorder (m.addStates calls).childrenOf (m.addStates calls).turns 0 r =
      some places := by
  choose path hpath using exists_path hac
  have hpos : ∀ s, 0 < (path s).length := fun s => List.length_pos_of_mem (hpath s).mem_self
  have hle := fun s => length_le_turns (hpath s)
  refine exists_preorder (P := (m.addStates calls).Occurs)
    (fun s => (m.addStates calls).turns - (path s).length) ?_ hr ?_ 0
  · intro p hp c hc
    have hup := (hpath c).unique (.up (h.parent_of_mem hp hc) (hpath p))
    have hlen := congrArg List.length hup
    have hc' := hle c
    rw [List.length_cons] at hlen
    exact ⟨occurs_of_mem_childrenOf hc, by omega⟩
  · have hr' := hle r
    have hr'' := hpos r
    omega

/-- Every state of the tree is listed once, by induction on its path to the root. -/
theorem count_eq_one (h : (m.addStates calls).SingleTree calls)
    (hr : (m.addStates calls).leastParent = some r)
    (hlist : Listing (m.addStates calls).childrenOf 0 [r] places) {l : List S}
    (hpath : RootPath (m.addStates calls).parent x l) (hx : (m.addStates calls).Occurs x) :
    (places.map Prod.snd).count x = 1 := by
  have hclosed := occurs_of_mem_places hlist (occurs_leastParent hr)
  have hnotchild : ∀ x q p, (m.addStates calls).parent x = q → some p ≠ q →
      p ∈ places.map Prod.snd → ((m.addStates calls).childrenOf p).count x = 0 := by
    intro x q p hq hne hp
    refine List.count_eq_zero.mpr fun hmem => ?_
    exact hne ((h.parent_of_mem (hclosed p hp) hmem).symm.trans hq)
  have hroot := fun s hs => (h.root s hs).trans leastParent_eq_some_iff.symm
  have hcount := fun x => (hlist.perm.count_eq x).trans List.count_append
  induction hpath with
  | @root x hx' =>
      have hxr : r = x := Option.some.inj (hr.symm.trans ((hroot x hx).mp hx'))
      rw [hcount, hxr, List.count_flatMap, List.sum_eq_zero]
      · simp
      · intro n hn
        obtain ⟨p, hp, rfl⟩ := List.mem_map.mp hn
        exact hnotchild x none p hx' (by simp) hp
  | @up x p l hx' _ ih =>
      have hxr : r ≠ x := by
        rintro rfl
        rw [(hroot r hx).mpr hr] at hx'
        cases hx'
      rw [hcount, List.count_flatMap, List.sum_map_eq_nsmul_single p, ih (.inr ⟨x, hx'⟩)]
      · simp [h.count_childrenOf hx', hxr]
      · intro q hq hmem
        exact hnotchild x (some p) q hx' (by simpa using hq) hmem

/-- The dump of a single tree shows it. -/
theorem faithful (h : (m.addStates calls).SingleTree calls)
    (hac : Acyclic (m.addStates calls).parent) (hr : (m.addStates calls).leastParent = some r)
    (hlist : Listing (m.addStates calls).childrenOf 0 [r] places) :
    (m.addStates calls).Faithful places := by
  have hclosed := occurs_of_mem_places hlist (occurs_leastParent hr)
  have hunder : ∀ before d s after, places = before ++ (d, s) :: after →
      (d = 0 ∧ s = r) ∨ ∃ p, (m.addStates calls).parent s = some p ∧ UnderLine before d p := by
    intro before d s after hsplit
    rcases hlist.block hsplit with ⟨hd, hs⟩ | ⟨p, hp, hunder⟩
    · exact .inl ⟨hd, List.mem_singleton.mp hs⟩
    · obtain ⟨pre, e, mid, hbefore, -, -⟩ := id hunder
      have hocc : (m.addStates calls).Occurs p := hclosed p (by simp [hsplit, hbefore])
      exact .inr ⟨p, h.parent_of_mem hocc hp, hunder⟩
  refine ⟨?_, ?_, ?_⟩
  · intro s hs
    obtain ⟨l, hl⟩ := exists_path hac s
    exact h.count_eq_one hr hlist hl hs
  · intro d s hmem hs
    obtain ⟨before, after, hsplit⟩ := List.append_of_mem hmem
    rcases hunder before d s after hsplit with ⟨hd, -⟩ | ⟨p, hp, -⟩
    · exact hd
    · simp [hs] at hp
  · intro before d s after p hsplit hp
    rcases hunder before d s after hsplit with ⟨-, rfl⟩ | ⟨p', hp', hline⟩
    · have hnone := (h.root s (.inl (by simp [hp]))).mpr (leastParent_eq_some_iff.mp hr)
      simp [hp] at hnone
    · obtain rfl := Option.some.inj (hp'.symm.trans hp)
      exact hline

end SingleTree

theorem placements_pos (h : ((m.addStates calls).parent x).isSome) :
    0 < (m.addStates calls).placements calls x := by
  obtain ⟨p, hp⟩ := Option.isSome_iff_exists.mp h
  have hocc : (m.addStates calls).Occurs p := .inr ⟨x, hp⟩
  exact List.countP_pos_iff.mpr ⟨(x, p), mem_of_parent_addStates hp, by simpa using hocc⟩

theorem parent_of_placements_pos (h : 0 < (m.addStates calls).placements calls x) :
    ((m.addStates calls).parent x).isSome := by
  obtain ⟨call, hcall, hx⟩ := List.countP_pos_iff.mp h
  obtain ⟨rfl, -⟩ := by simpa using hx
  exact parent_isSome_of_mem hcall

/-- What a faithful dump shows is a single tree. -/
theorem singleTree_of_faithful (h : (m.addStates calls).Faithful places)
    (hr : (m.addStates calls).leastParent = some r)
    (hlist : Listing (m.addStates calls).childrenOf 0 [r] places) :
    (m.addStates calls).SingleTree calls := by
  have hcount := count_of_faithful h hlist (occurs_leastParent hr)
  have hroot : ¬ ((m.addStates calls).parent r).isSome := by
    intro hsome
    have hr1 := hcount r
    have hpos := placements_pos hsome
    rw [h.once r (occurs_leastParent hr), List.count_singleton_self] at hr1
    omega
  have hone : ∀ x, x ≠ r → (m.addStates calls).Occurs x →
      (m.addStates calls).placements calls x = 1 := by
    intro x hne hx
    have hx1 := hcount x
    rw [h.once x hx, List.count_eq_zero_of_not_mem (by simpa using hne)] at hx1
    omega
  refine ⟨?_, ?_⟩
  · intro x hx
    rw [← leastParent_eq_some_iff, hr, Option.some.injEq]
    constructor
    · intro hnone
      by_contra hne
      have hsome := parent_of_placements_pos (by rw [hone x (Ne.symm hne) hx]; exact Nat.one_pos)
      simp [hnone] at hsome
    · rintro rfl
      exact Option.not_isSome_iff_eq_none.mp hroot
  · intro x hx
    exact hone x (fun heq => hroot (heq ▸ hx)) (.inl hx)

/-- **When the dump is the hierarchy.**  For every sequence of calls that leaves the
hierarchy acyclic, the dump ends and shows it exactly when it is a single tree below the
parent of its first state, and each state was put under a state of it by one call. -/
theorem dumped_iff (m : HierarchicalStateMachine S E A G) (calls : List (S × S))
    (hac : Acyclic (m.addStates calls).parent) :
    (m.addStates calls).Dumped ↔ (m.addStates calls).SingleTree calls := by
  cases hr : (m.addStates calls).leastParent with
  | none =>
      have hnone : ∀ a, (m.addStates calls).parent a = none := by
        intro a
        by_contra ha
        obtain ⟨p, hp⟩ := Option.ne_none_iff_exists'.mp ha
        have hmem := mem_entriesInOrder_iff.mpr hp
        rw [List.head?_eq_none_iff.mp (Option.map_eq_none_iff.mp hr)] at hmem
        cases hmem
      have hocc : ∀ s, ¬ (m.addStates calls).Occurs s := by simp [Occurs, hnone]
      refine iff_of_true ⟨[], dumpHierarchy_of_none hr, ?_⟩ ?_
      · exact ⟨fun s hs => absurd hs (hocc s), by simp, by simp⟩
      · exact ⟨fun s hs => absurd hs (hocc s), by simp [hnone]⟩
  | some r =>
      rw [dumped_of_some_iff hr]
      constructor
      · rintro ⟨places, hplaces, hfaithful⟩
        exact singleTree_of_faithful hfaithful hr (listing_of_preorder hplaces)
      · intro h
        obtain ⟨places, hplaces⟩ := h.exists_places hac (occurs_leastParent hr)
        exact ⟨places, hplaces, h.faithful hac hr (listing_of_preorder hplaces)⟩

/-- Two trees: only the one of the first state's parent is dumped. -/
theorem not_dumped_two_trees :
    ¬ ((empty 0 : HierarchicalStateMachine ℕ ℕ ℕ ℕ).addStates [(1, 2), (3, 4)]).Dumped := by
  rintro ⟨lines, hlines, hfaithful⟩
  have hdump : ((empty 0 : HierarchicalStateMachine ℕ ℕ ℕ ℕ).addStates
      [(1, 2), (3, 4)]).dumpHierarchy = some [⟨0, false, 2⟩, ⟨1, false, 1⟩] := by decide
  obtain rfl := Option.some.inj (hlines.symm.trans hdump)
  exact absurd (hfaithful.once 4 (by decide)) (by decide)

/-- A tree of three levels, one state of it moved there from outside. -/
theorem dumped_three_levels :
    ((empty 0 : HierarchicalStateMachine (Fin 5) ℕ ℕ ℕ).addStates
      [(2, 4), (0, 3), (1, 3), (2, 1)]).Dumped := by
  refine (dumped_iff (empty 0) [(2, 4), (0, 3), (1, 3), (2, 1)] ?_).mpr ⟨by decide, by decide⟩
  exact acyclic_of_rank (fun s => if s = 3 then 0 else if s = 2 then 2 else 1) (by decide)

end Dump
end HierarchicalStateMachine
end Opencode.Fsm
