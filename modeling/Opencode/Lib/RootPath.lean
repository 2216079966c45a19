import Mathlib

/-!
# Going up a parent function

A hierarchy is a partial function `parent : α → Option α`.  `RootPath parent s l` says
that `l` is `s` followed by its ancestors up to a root.  A state has at most one root
path and no root path repeats a state, so a program that goes up a hierarchy of `n`
links takes at most `n + 1` turns, or never stops.

The three loops such programs are made of are here with an explicit number of turns;
`none` says that the turns ran out.  On a root path each of them is a list function.

## Main definitions

* `RootPath`, `Acyclic` — the hierarchy.
* `walkUp`, `searchUp`, `climbTo` — the loops.
* `RootPath.nodup`, `RootPath.of_mem`, `RootPath.meet` — the shape of root paths.
* `RootPath.find?_shared` — the lowest state two root paths share.
* `exists_rootPath` — an acyclic hierarchy has all of them.
* `acyclic_update_iff` — which links close a cycle.
-/

namespace Opencode.Lib

universe u v
variable {α : Type u} {β : Type v} {parent : α → Option α} {s t : α} {l l' : List α}

/-- `l` is `s` followed by its ancestors, up to a state without a parent. -/
inductive RootPath (parent : α → Option α) : α → List α → Prop
  | root {s : α} (h : parent s = none) : RootPath parent s [s]
  | up {s p : α} {l : List α} (h : parent s = some p) (rest : RootPath parent p l) :
      RootPath parent s (s :: l)

/-- No state is an ancestor of itself. -/
def Acyclic (parent : α → Option α) : Prop :=
  ∀ s, ¬ Relation.TransGen (fun a b => parent a = some b) s s

/-- Collect the states on the way up. -/
def walkUp (parent : α → Option α) : ℕ → α → Option (List α)
  | 0, _ => none
  | n + 1, s =>
      match parent s with
      | none => some [s]
      | some p => (walkUp parent n p).map (s :: ·)

/-- Go up until `f` answers. -/
def searchUp (parent : α → Option α) (f : α → Option β) : ℕ → α → Option (Option β)
  | 0, _ => none
  | n + 1, s =>
      match f s with
      | some b => some (some b)
      | none =>
          match parent s with
          | none => some none
          | some p => searchUp parent f n p

/-- Collect the states below `stop`; a root ends the climb too. -/
def climbTo [DecidableEq α] (parent : α → Option α) (stop : α) : ℕ → α → Option (List α)
  | n, s =>
      if s = stop then some []
      else
        match n with
        | 0 => none
        | n + 1 =>
            match parent s with
            | none => some [s]
            | some p => (climbTo parent stop n p).map (s :: ·)

/-! ## The shape of root paths -/

theorem RootPath.eq_cons (h : RootPath parent s l) : ∃ tl, l = s :: tl := by
  cases h with
  | root _ => exact ⟨[], rfl⟩
  | up _ _ => exact ⟨_, rfl⟩

theorem RootPath.mem_self (h : RootPath parent s l) : s ∈ l := by
  obtain ⟨tl, rfl⟩ := h.eq_cons
  exact List.mem_cons_self

/-- A state has at most one root path. -/
theorem RootPath.unique (h : RootPath parent s l) (h' : RootPath parent s l') : l = l' := by
  induction h generalizing l' with
  | root hs =>
      cases h' with
      | root _ => rfl
      | up hs' _ => simp [hs] at hs'
  | up hs _ ih =>
      cases h' with
      | root hs' => simp [hs] at hs'
      | up hs' rest' =>
          obtain rfl := Option.some.inj (hs.symm.trans hs')
          rw [ih rest']

/-- Every state on a root path has the rest of it as its own. -/
theorem RootPath.of_mem (h : RootPath parent s l) (ht : t ∈ l) :
    ∃ below above, l = below ++ above ∧ RootPath parent t above := by
  induction h with
  | @root s hs =>
      obtain rfl := List.mem_singleton.mp ht
      exact ⟨[], [t], rfl, .root hs⟩
  | @up s p l hs rest ih =>
      rcases List.mem_cons.mp ht with rfl | ht
      · exact ⟨[], t :: l, rfl, .up hs rest⟩
      · obtain ⟨below, above, rfl, habove⟩ := ih ht
        exact ⟨s :: below, above, rfl, habove⟩

/-- A root path repeats no state: the state would have two root paths. -/
theorem RootPath.nodup (h : RootPath parent s l) : l.Nodup := by
  induction h with
  | root _ => simp
  | @up s p l hs rest ih =>
      refine List.nodup_cons.mpr ⟨?_, ih⟩
      intro hmem
      obtain ⟨below, above, rfl, habove⟩ := rest.of_mem hmem
      have hlen := congrArg List.length (habove.unique (.up hs rest))
      simp at hlen
      omega

/-- A state that is on the root path of one of its ancestors is that ancestor. -/
theorem RootPath.eq_of_mem {below : List α} (hs : RootPath parent s (below ++ l))
    (ht : RootPath parent t l) (hmem : s ∈ l) : s = t := by
  obtain ⟨pre, above, rfl, habove⟩ := ht.of_mem hmem
  have hlen := congrArg List.length (habove.unique hs)
  simp only [List.length_append] at hlen
  obtain rfl : pre = [] := List.length_eq_zero_iff.mp (by omega)
  obtain ⟨tl, rfl⟩ := habove.eq_cons
  obtain ⟨tl', htl⟩ := ht.eq_cons
  exact (List.cons.inj htl).1

/-- Two root paths that share a state are the same from there on. -/
theorem RootPath.meet {a b x : α} {la lb : List α} (ha : RootPath parent a la)
    (hb : RootPath parent b lb) (hxa : x ∈ la) (hxb : x ∈ lb) :
    ∃ pa pb above, la = pa ++ x :: above ∧ lb = pb ++ x :: above ∧
      RootPath parent x (x :: above) := by
  obtain ⟨pa, la', rfl, ha'⟩ := ha.of_mem hxa
  obtain ⟨pb, lb', rfl, hb'⟩ := hb.of_mem hxb
  obtain rfl := ha'.unique hb'
  obtain ⟨above, rfl⟩ := ha'.eq_cons
  exact ⟨pa, pb, above, rfl, rfl, ha'⟩

/-- The parts of two root paths below the first state they share. -/
theorem RootPath.split_at_meet [DecidableEq α] {a b x : α} {la lb : List α}
    (ha : RootPath parent a la) (hb : RootPath parent b lb)
    (hx : (la.find? fun s => decide (s ∈ lb)) = some x) :
    ∃ above, la = (la.takeWhile fun s => decide (s ≠ x)) ++ x :: above ∧
      lb = (lb.takeWhile fun s => decide (s ≠ x)) ++ x :: above := by
  have hxb : x ∈ lb := by simpa using List.find?_some hx
  obtain ⟨pa, pb, above, rfl, rfl, -⟩ := ha.meet hb (List.mem_of_find?_eq_some hx) hxb
  have hcut : ∀ p : List α, (p ++ x :: above).Nodup →
      ((p ++ x :: above).takeWhile fun s => decide (s ≠ x)) = p := by
    intro p hp
    rw [List.takeWhile_append_of_pos]
    · simp
    · intro s hs
      simpa using fun heq : s = x => List.disjoint_of_nodup_append hp hs (by simp [heq])
  refine ⟨above, ?_, ?_⟩
  · rw [hcut pa ha.nodup]
  · rw [hcut pb hb.nodup]

/-- The first state of one root path that is on another: the two share this state and
what is above it, and the search from the other side finds the same state. -/
theorem RootPath.find?_shared [DecidableEq α] {a b x : α} {la lb : List α}
    (ha : RootPath parent a la) (hb : RootPath parent b lb)
    (hx : (la.find? fun s => decide (s ∈ lb)) = some x) :
    (∃ above, RootPath parent x (x :: above) ∧ ∀ t ∈ la, t ∈ lb → t ∈ x :: above) ∧
      (lb.find? fun s => decide (s ∈ la)) = some x := by
  have hxb : x ∈ lb := by simpa using List.find?_some hx
  obtain ⟨pa, pb, tl, rfl, rfl, hup⟩ := ha.meet hb (List.mem_of_find?_eq_some hx) hxb
  have hpa : ∀ t ∈ pa, t ∉ pb ++ x :: tl := by
    rw [List.find?_append] at hx
    cases hf : pa.find? fun s => decide (s ∈ pb ++ x :: tl) with
    | none => simpa using hf
    | some y =>
        rw [hf, Option.some_or, Option.some.injEq] at hx
        subst hx
        exact absurd List.mem_cons_self
          (List.disjoint_of_nodup_append ha.nodup (List.mem_of_find?_eq_some hf))
  have hpb : ∀ t ∈ pb, t ∉ pa ++ x :: tl := by
    intro t ht hta
    rcases List.mem_append.mp hta with hta | hta
    · exact hpa t hta (List.mem_append_left _ ht)
    · exact List.disjoint_of_nodup_append hb.nodup ht hta
  refine ⟨⟨tl, hup, ?_⟩, ?_⟩
  · intro t hta htb
    exact (List.mem_append.mp hta).resolve_left fun h => hpa t h htb
  · rw [List.find?_append, List.find?_eq_none.mpr (by simpa using hpb)]
    simp

/-- A root path is at most one longer than the number of states with a parent. -/
theorem RootPath.length_le (h : RootPath parent s l) {dom : List α}
    (hdom : ∀ a p, parent a = some p → a ∈ dom) : l.length ≤ dom.length + 1 := by
  have hsub : ∀ a ∈ l.dropLast, a ∈ dom := by
    induction h with
    | root _ => simp
    | @up s p l hs rest ih =>
        obtain ⟨tl, rfl⟩ := rest.eq_cons
        intro a ha
        rcases List.mem_cons.mp ha with rfl | ha
        · exact hdom _ p hs
        · exact ih a ha
  have hnodup : l.dropLast.Nodup := h.nodup.sublist (List.dropLast_sublist l)
  have hlen : l.dropLast.length ≤ dom.length := (hnodup.subperm hsub).length_le
  rw [List.length_dropLast] at hlen
  omega

/-! ## Acyclic hierarchies -/

/-- A rank that grows downwards shows that a hierarchy is acyclic. -/
theorem acyclic_of_rank (rank : α → ℕ) (h : ∀ a p, parent a = some p → rank p < rank a) :
    Acyclic parent := by
  have hlt : ∀ a b, Relation.TransGen (fun a b => parent a = some b) a b → rank b < rank a := by
    intro a b hab
    induction hab with
    | single hp => exact h _ _ hp
    | tail _ hp ih => exact (h _ _ hp).trans ih
  intro s hs
  exact lt_irrefl _ (hlt s s hs)

/-- **In an acyclic hierarchy with finitely many links every state has a root path.** -/
theorem exists_rootPath (hac : Acyclic parent) {dom : List α}
    (hdom : ∀ a p, parent a = some p → a ∈ dom) (s : α) : ∃ l, RootPath parent s l := by
  classical
  -- Induction on the number of states with a parent at or above `s`.
  let above : α → Finset α := fun a =>
    dom.toFinset.filter (Relation.ReflTransGen (fun a b => parent a = some b) a)
  induction hn : (above s).card using Nat.strong_induction_on generalizing s with
  | _ n ih =>
      cases hs : parent s with
      | none => exact ⟨[s], .root hs⟩
      | some p =>
          have hsub : above p ⊂ above s := by
            refine Finset.ssubset_iff_of_subset ?_ |>.mpr ⟨s, ?_, ?_⟩
            · intro x hx
              obtain ⟨hxd, hx⟩ := Finset.mem_filter.mp hx
              exact Finset.mem_filter.mpr ⟨hxd, .head hs hx⟩
            · simpa [above] using ⟨hdom s p hs, Relation.ReflTransGen.refl⟩
            · intro hmem
              exact hac s (.head' hs (Finset.mem_filter.mp hmem).2)
          obtain ⟨l, hl⟩ := ih _ (hn ▸ Finset.card_lt_card hsub) p rfl
          exact ⟨s :: l, .up hs hl⟩

/-- Where every state has a root path, no state is an ancestor of itself: the paths get
shorter on the way up. -/
theorem acyclic_of_rootPath (h : ∀ s, ∃ l, RootPath parent s l) : Acyclic parent := by
  choose path hpath using h
  refine acyclic_of_rank (fun s => (path s).length) ?_
  intro a p hp
  rw [(hpath a).unique (.up hp (hpath p))]
  simp

/-- A root path holds the state and its ancestors. -/
theorem RootPath.mem_iff (h : RootPath parent s l) :
    t ∈ l ↔ Relation.ReflTransGen (fun a b => parent a = some b) s t := by
  constructor
  · intro ht
    induction h with
    | root _ => rw [List.mem_singleton.mp ht]
    | up hs _ ih =>
        rcases List.mem_cons.mp ht with rfl | ht
        · exact .refl
        · exact .head hs (ih ht)
  · intro ht
    induction ht with
    | refl => exact h.mem_self
    | @tail b c _ hbc ih =>
        obtain ⟨below, above, rfl, habove⟩ := h.of_mem ih
        cases habove with
        | root hb => simp [hb] at hbc
        | up hb rest =>
            obtain rfl := Option.some.inj (hb.symm.trans hbc)
            exact List.mem_append_right _ (List.mem_cons_of_mem _ rest.mem_self)

section Link

variable [DecidableEq α] {p : α}

/-- A way up to `s` does not need the link of `s` itself. -/
theorem reaches_update {a : α} (h : Relation.ReflTransGen (fun a b => parent a = some b) a s)
    (q : Option α) :
    Relation.ReflTransGen (fun a b => Function.update parent s q a = some b) a s := by
  induction h using Relation.ReflTransGen.head_induction_on with
  | refl => exact .refl
  | @head a b hab _ ih =>
      by_cases ha : a = s
      · rw [ha]
      · exact .head (by rwa [Function.update_of_ne ha]) ih

/-- With a new link from `s` to `p`, a way up is an old one or comes by the new link. -/
theorem transGen_update {a b : α}
    (h : Relation.TransGen (fun a b => Function.update parent s (some p) a = some b) a b) :
    Relation.TransGen (fun a b => parent a = some b) a b ∨
      Relation.ReflTransGen (fun a b => parent a = some b) a s ∧
        Relation.ReflTransGen (fun a b => parent a = some b) p b := by
  induction h with
  | @single b hab =>
      by_cases ha : a = s
      · subst ha
        obtain rfl : p = b := by simpa using hab
        exact .inr ⟨.refl, .refl⟩
      · exact .inl (.single (by rwa [Function.update_of_ne ha] at hab))
  | @tail b c _ hbc ih =>
      by_cases hb : b = s
      · subst hb
        obtain rfl : p = c := by simpa using hbc
        exact .inr ⟨ih.elim (fun h => h.to_reflTransGen) (fun h => h.1), .refl⟩
      · rw [Function.update_of_ne hb] at hbc
        exact ih.imp (fun h => h.tail hbc) (fun h => ⟨h.1, h.2.tail hbc⟩)

/-- **A new link closes a cycle exactly when it leads to the state itself or to one
below it.** -/
theorem acyclic_update_iff (hac : Acyclic parent) :
    Acyclic (Function.update parent s (some p)) ↔
      ¬ Relation.ReflTransGen (fun a b => parent a = some b) p s := by
  constructor
  · intro h hps
    exact h s (.head' (by simp) (reaches_update hps (some p)))
  · intro hps a ha
    rcases transGen_update ha with hold | ⟨has, hpa⟩
    · exact hac a hold
    · exact hps (hpa.trans has)

end Link

/-! ## The loops on a root path -/

/-- The walk returns exactly the root path, if the turns are enough for it. -/
theorem walkUp_eq_some_iff {n : ℕ} :
    walkUp parent n s = some l ↔ RootPath parent s l ∧ l.length ≤ n := by
  induction n generalizing s l with
  | zero =>
      refine iff_of_false (by simp [walkUp]) ?_
      rintro ⟨h, hlen⟩
      obtain ⟨tl, rfl⟩ := h.eq_cons
      simp at hlen
  | succ n ih =>
      cases hs : parent s with
      | none =>
          simp only [walkUp, hs]
          constructor
          · rintro ⟨⟩
            exact ⟨.root hs, by simp⟩
          · rintro ⟨h, -⟩
            rw [h.unique (.root hs)]
      | some p =>
          simp only [walkUp, hs, Option.map_eq_some_iff, ih]
          constructor
          · rintro ⟨tl, ⟨hp, hlen⟩, rfl⟩
            exact ⟨.up hs hp, by simpa using hlen⟩
          · rintro ⟨h, hlen⟩
            cases h with
            | root hs' => simp [hs] at hs'
            | up hs' rest =>
                obtain rfl := Option.some.inj (hs.symm.trans hs')
                exact ⟨_, ⟨rest, by simpa using hlen⟩, rfl⟩

/-- The search returns what it finds first on the root path. -/
theorem searchUp_eq (f : α → Option β) {n : ℕ} (h : RootPath parent s l) (hn : l.length ≤ n) :
    searchUp parent f n s = some (l.findSome? f) := by
  induction h generalizing n with
  | @root s hs =>
      obtain ⟨n, rfl⟩ : ∃ m, n = m + 1 := ⟨n - 1, by simp at hn; omega⟩
      cases hf : f s <;> simp [searchUp, hf, hs]
  | @up s p l hs rest ih =>
      obtain ⟨n, rfl⟩ : ∃ m, n = m + 1 := ⟨n - 1, by simp at hn; omega⟩
      cases hf : f s with
      | none => simpa [searchUp, hf, hs] using ih (by simpa using hn)
      | some b => simp [searchUp, hf]

/-- The climb returns the part of the root path below `stop`. -/
theorem climbTo_eq [DecidableEq α] (stop : α) {n : ℕ} (h : RootPath parent s l)
    (hn : l.length ≤ n) :
    climbTo parent stop n s = some (l.takeWhile fun a => decide (a ≠ stop)) := by
  induction h generalizing n with
  | @root s hs =>
      obtain ⟨n, rfl⟩ : ∃ m, n = m + 1 := ⟨n - 1, by simp at hn; omega⟩
      by_cases hstop : s = stop <;> simp [climbTo, hs, hstop]
  | @up s p l hs rest ih =>
      obtain ⟨n, rfl⟩ : ∃ m, n = m + 1 := ⟨n - 1, by simp at hn; omega⟩
      by_cases hstop : s = stop
      · simp [climbTo, hstop]
      · simp [climbTo, hs, hstop, ih (by simpa using hn)]

end Opencode.Lib
