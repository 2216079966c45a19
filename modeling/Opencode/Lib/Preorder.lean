import Mathlib

/-!
# Preorder listings

A recursive printer goes through a node and then through its children, one level
deeper.  `preorder` is that recursion over an arbitrary `children` function, with a
bound on the depth of the recursion: a node may be listed under several parents, or be
its own descendant, and then the printer repeats it or does not end.

`Listing` is what a listing that ended looks like.  It determines how often each node
occurs (`Listing.perm`) and where it stands (`Listing.block`).

## Main definitions

* `preorder` — the recursion.
* `Listing` — the lines it gives for a list of nodes of one level.
* `exists_preorder` — the recursion ends if the height of the nodes is bounded.
-/

namespace Opencode.Lib

universe u
variable {α : Type u}

/-- A node at its depth, then its children one level deeper; `none` means that the
recursion goes deeper than the bound. -/
def preorder (children : α → List α) : ℕ → ℕ → α → Option (List (ℕ × α))
  | 0, _, _ => none
  | n + 1, depth, s =>
      ((children s).mapM (preorder children n (depth + 1))).map fun blocks =>
        (depth, s) :: blocks.flatten

/-- The lines for the nodes `level`, all at depth `d`: each node is followed by the
lines for its children. -/
inductive Listing (children : α → List α) : ℕ → List α → List (ℕ × α) → Prop
  | nil {d : ℕ} : Listing children d [] []
  | cons {d : ℕ} {s : α} {level : List α} {inner outer : List (ℕ × α)}
      (below : Listing children (d + 1) (children s) inner)
      (rest : Listing children d level outer) :
      Listing children d (s :: level) ((d, s) :: (inner ++ outer))

/-- A line at depth `d` that comes right after `before` is in the block of `p`: the line
of `p` is one level up and everything in between is deeper than it. -/
def UnderLine (before : List (ℕ × α)) (d : ℕ) (p : α) : Prop :=
  ∃ pre e mid, before = pre ++ (e, p) :: mid ∧ d = e + 1 ∧ ∀ line ∈ mid, e < line.1

variable {children : α → List α} {d n : ℕ} {s : α} {level : List α} {lines : List (ℕ × α)}

/-! ## The recursion gives a listing -/

theorem Listing.singleton (below : Listing children (d + 1) (children s) lines) :
    Listing children d [s] ((d, s) :: lines) := by
  simpa using Listing.cons below .nil

theorem Listing.append {more : List α} {lines' : List (ℕ × α)}
    (h : Listing children d level lines) (h' : Listing children d more lines') :
    Listing children d (level ++ more) (lines ++ lines') := by
  induction h with
  | nil => exact h'
  | cons below _ _ ih => simpa using Listing.cons below (ih h')

/-- The blocks of the nodes of one level, one after the other. -/
theorem listing_of_mapM {f : α → Option (List (ℕ × α))} {blocks : List (List (ℕ × α))}
    (hf : ∀ s lines, f s = some lines → Listing children d [s] lines)
    (h : level.mapM f = some blocks) : Listing children d level blocks.flatten := by
  induction level generalizing blocks with
  | nil =>
      obtain rfl : [] = blocks := by simpa using h
      exact .nil
  | cons s level ih =>
      obtain ⟨first, hfirst, rest, hrest, rfl⟩ : ∃ first, f s = some first ∧
          ∃ rest, level.mapM f = some rest ∧ first :: rest = blocks := by
        simpa [List.mapM_cons, Option.bind_eq_some_iff] using h
      exact (hf s first hfirst).append (ih hrest)

theorem listing_of_preorder (h : preorder children n d s = some lines) :
    Listing children d [s] lines := by
  induction n generalizing d s lines with
  | zero => cases h
  | succ n ih =>
      obtain ⟨blocks, hblocks, rfl⟩ := Option.map_eq_some_iff.mp h
      exact .singleton (listing_of_mapM (fun _ _ => ih) hblocks)

/-- **The recursion ends** if the nodes it goes through have a height that decreases
towards the children and is below the bound. -/
theorem exists_preorder {P : α → Prop} (height : α → ℕ)
    (hchild : ∀ p, P p → ∀ c ∈ children p, P c ∧ height c < height p)
    (hs : P s) (hn : height s < n) (d : ℕ) : ∃ lines, preorder children n d s = some lines := by
  induction n generalizing d s with
  | zero => exact absurd hn (Nat.not_lt_zero _)
  | succ n ih =>
      have hall : ∀ c ∈ children s, ∃ lines, preorder children n (d + 1) c = some lines := by
        intro c hc
        obtain ⟨hPc, hlt⟩ := hchild s hs c hc
        exact ih hPc (by omega) (d + 1)
      obtain ⟨blocks, hblocks⟩ : ∃ blocks, (children s).mapM (preorder children n (d + 1)) =
          some blocks := by
        generalize children s = cs at hall
        induction cs with
        | nil => exact ⟨[], rfl⟩
        | cons c cs ihcs =>
            obtain ⟨first, hfirst⟩ := hall c List.mem_cons_self
            obtain ⟨rest, hrest⟩ := ihcs fun x hx => hall x (List.mem_cons_of_mem c hx)
            exact ⟨first :: rest, by simp [List.mapM_cons, hfirst, hrest]⟩
      exact ⟨_, by rw [preorder, hblocks, Option.map_some]⟩

/-! ## What a listing looks like -/

theorem UnderLine.append_left {before : List (ℕ × α)} {p : α} (h : UnderLine before d p)
    (more : List (ℕ × α)) : UnderLine (more ++ before) d p := by
  obtain ⟨pre, e, mid, rfl, hd, hdeep⟩ := h
  exact ⟨more ++ pre, e, mid, by simp, hd, hdeep⟩

namespace Listing

/-- Nothing in the listing is less deep than the level it is for. -/
theorem depth_le (h : Listing children d level lines) : ∀ line ∈ lines, d ≤ line.1 := by
  induction h with
  | nil => simp
  | @cons d s level inner outer _ _ ihb ihr =>
      intro line hline
      rcases List.mem_cons.mp hline with rfl | hline
      · exact le_rfl
      · rcases List.mem_append.mp hline with hin | hout
        · exact (Nat.le_succ d).trans (ihb line hin)
        · exact ihr line hout

/-- What holds of the first level and passes to the children holds of all nodes. -/
theorem forall_of_closed {P : α → Prop} (hchild : ∀ p, P p → ∀ c ∈ children p, P c)
    (h : Listing children d level lines) (hlevel : ∀ s ∈ level, P s) :
    ∀ s ∈ lines.map Prod.snd, P s := by
  induction h with
  | nil => simp
  | @cons d s level inner outer _ _ ihb ihr =>
      have hs : P s := hlevel s List.mem_cons_self
      have hin := ihb (hchild s hs)
      have hout := ihr fun x hx => hlevel x (List.mem_cons_of_mem s hx)
      intro x hx
      rw [List.map_cons, List.map_append, List.mem_cons, List.mem_append] at hx
      rcases hx with rfl | hx | hx
      · exact hs
      · exact hin x hx
      · exact hout x hx

/-- **Who is listed how often.**  The nodes of a listing are those of its first level
and, for every node of the listing, its children. -/
theorem perm (h : Listing children d level lines) :
    (lines.map Prod.snd).Perm (level ++ (lines.map Prod.snd).flatMap children) := by
  induction h with
  | nil => exact .nil
  | @cons d s level inner outer _ _ ihb ihr =>
      classical
      rw [List.perm_iff_count] at ihb ihr ⊢
      intro x
      have hin := ihb x
      have hout := ihr x
      simp only [List.map_cons, List.map_append, List.flatMap_cons, List.flatMap_append,
        List.cons_append, List.count_cons, List.count_append] at hin hout ⊢
      omega

/-- **Where a node is listed.**  A line of a listing is one of the first level, or it is
one level deeper than, and in the block of, a line whose node has it as a child. -/
theorem block (h : Listing children d level lines) {before after : List (ℕ × α)} {e : ℕ} {x : α}
    (hsplit : lines = before ++ (e, x) :: after) :
    (e = d ∧ x ∈ level) ∨ ∃ p, x ∈ children p ∧ UnderLine before e p := by
  induction h generalizing before after with
  | nil => simp at hsplit
  | @cons d s level inner outer below _ ihb ihr =>
      cases before with
      | nil =>
          obtain ⟨⟨rfl, rfl⟩, -⟩ : (d = e ∧ s = x) ∧ inner ++ outer = after := by
            simpa using hsplit
          exact .inl ⟨rfl, List.mem_cons_self⟩
      | cons first before =>
          obtain ⟨rfl, hrest⟩ := List.cons.inj hsplit
          -- The line is behind the block of `s`, or in it.
          rcases List.append_eq_append_iff.mp hrest with ⟨mid, rfl, hout⟩ | ⟨mid, hin, hmid⟩
          · exact (ihr hout).imp (fun h => ⟨h.1, List.mem_cons_of_mem s h.2⟩)
              fun ⟨p, hp, hunder⟩ => ⟨p, hp, hunder.append_left ((d, s) :: inner)⟩
          · cases mid with
            | nil =>
                obtain rfl : inner = before := by simpa using hin
                have hout : outer = [] ++ (e, x) :: after := hmid.symm
                exact (ihr hout).imp (fun h => ⟨h.1, List.mem_cons_of_mem s h.2⟩)
                  fun ⟨p, hp, hunder⟩ => ⟨p, hp, by
                    simpa using hunder.append_left ((d, s) :: inner)⟩
            | cons line mid =>
                obtain rfl : (e, x) = line := (List.cons.inj hmid).1
                rcases ihb hin with ⟨rfl, hx⟩ | ⟨p, hp, hunder⟩
                · refine .inr ⟨s, hx, [], d, before, rfl, rfl, fun line hline => ?_⟩
                  exact below.depth_le line (hin ▸ List.mem_append_left _ hline)
                · exact .inr ⟨p, hp, hunder.append_left [(d, s)]⟩

end Listing
end Opencode.Lib
