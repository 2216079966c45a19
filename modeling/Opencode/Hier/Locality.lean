import Opencode.Hier.Line

/-!
# Commands stay in their subtree

A command on a node changes progress in the subtree of the node only, and what it does
there depends on that subtree only.  The subtrees of a node's children are disjoint, so a
loop over the children does to each subtree what the command on that child alone does.

## Main definitions

* `Local` — a change that neither reads nor writes outside a subtree.
* `foldl_frame`, `foldl_inside` — a loop over disjoint subtrees.
* `Line.advance_local`, `Line.startWork_local`, `Line.finishWork_local`.
-/

namespace Opencode.Hier

variable {L : Layout} {height : CoreId → ℕ} {limit : ℕ} {i k m : CoreId} {c : NodeConfig}

/-- The change concerns the progress below `k` only. -/
structure Local (L : Layout) (k : CoreId) (f : Line → Line) : Prop where
  frame : ∀ v m, ¬ Below L k m → (f v).progress m = v.progress m
  congr : ∀ v v', (∀ m, Below L k m → v.progress m = v'.progress m) →
    ∀ m, Below L k m → (f v).progress m = (f v').progress m

theorem Local.id (k : CoreId) : Local L k fun v => v :=
  ⟨fun _ _ _ => rfl, fun _ _ h m hm => h m hm⟩

theorem Affects.congr {π π' : CoreId → Progress} (h : ∀ m, Below L i m → π m = π' m) :
    Affects L π i ↔ Affects L π' i := by
  constructor
  · rintro ⟨m, c, hb, hc, himpact⟩
    exact ⟨m, c, hb, hc, h m hb ▸ himpact⟩
  · rintro ⟨m, c, hb, hc, himpact⟩
    exact ⟨m, c, hb, hc, (h m hb).symm ▸ himpact⟩

/-! ## Loops over the children -/

theorem foldl_frame {g : Line → CoreId → Line} {ks : List CoreId}
    (hg : ∀ k ∈ ks, Local L k fun v => g v k) (v : Line) (hm : ∀ k ∈ ks, ¬ Below L k m) :
    (ks.foldl g v).progress m = v.progress m := by
  induction ks generalizing v with
  | nil => rfl
  | cons j ks ih =>
      rw [List.foldl_cons, ih (fun k hk => hg k (List.mem_cons_of_mem j hk)) _
        fun k hk => hm k (List.mem_cons_of_mem j hk)]
      exact (hg j List.mem_cons_self).frame v m (hm j List.mem_cons_self)

theorem foldl_inside {g : Line → CoreId → Line} {ks : List CoreId}
    (hdisj : ks.Pairwise fun j k => ∀ m, Below L j m → ¬ Below L k m)
    (hg : ∀ k ∈ ks, Local L k fun v => g v k) (v : Line) (hk : k ∈ ks) (hm : Below L k m) :
    (ks.foldl g v).progress m = (g v k).progress m := by
  induction ks generalizing v with
  | nil => cases hk
  | cons j ks ih =>
      obtain ⟨hj, hks⟩ := List.pairwise_cons.mp hdisj
      have hg' : ∀ k ∈ ks, Local L k fun v => g v k := fun k hk =>
        hg k (List.mem_cons_of_mem j hk)
      rw [List.foldl_cons]
      rcases List.mem_cons.mp hk with rfl | hk
      · exact foldl_frame hg' _ fun k' hk' => hj k' hk' m hm
      · rw [ih hks hg' _ hk]
        refine (hg' k hk).congr _ _ (fun m' hm' => ?_) m hm
        exact (hg j List.mem_cons_self).frame v m' fun hjm => hj k hk m' hjm hm'

theorem Wired.children_disjoint (hw : Wired L height limit) (hL : L i = some c) :
    c.childIds.Pairwise fun j k => ∀ m, Below L j m → ¬ Below L k m := by
  refine List.Pairwise.imp_of_mem ?_ (hw.nodup i c hL)
  intro j k hj hk hne m hjm
  exact hw.below_disjoint ⟨c, hL, hj⟩ ⟨c, hL, hk⟩ hne hjm

/-- A loop over the children is local to the node. -/
theorem local_children (hw : Wired L height limit) (hL : L i = some c)
    {g : Line → CoreId → Line} (hg : ∀ k ∈ c.childIds, Local L k fun v => g v k) :
    Local L i fun v => c.childIds.foldl g v where
  frame := by
    intro v m hm
    refine foldl_frame hg v fun k hk hb => hm ?_
    exact .head ⟨c, hL, hk⟩ hb
  congr := by
    intro v v' h m hm
    rcases (Wired.below_iff_of_layout hL).mp hm with rfl | ⟨k, hk, hb⟩
    · have hout : ∀ k ∈ c.childIds, ¬ Below L k m := fun k hk =>
        hw.not_below_child ⟨c, hL, hk⟩
      simp only [foldl_frame hg _ hout, h m .refl]
    · have hdisj := hw.children_disjoint hL
      simp only [foldl_inside hdisj hg _ hk hb]
      exact (hg k hk).congr v v' (fun m' hm' => h m' (.head ⟨c, hL, hk⟩ hm')) m hb

namespace Line

@[simp] theorem progress_update_self (v : Line) (i : CoreId) (p : Progress × List DomainEvent) :
    (v.update i p).progress i = p.1 := by
  simp [update]

@[simp] theorem progress_update_ne (v : Line) (p : Progress × List DomainEvent) (h : m ≠ i) :
    (v.update i p).progress m = v.progress m := by
  simp [update, h]

/-- A node that changes its own progress. -/
theorem local_update (i : CoreId) (f : Progress → Progress × List DomainEvent) :
    Local L i fun v => v.update i (f (v.progress i)) where
  frame := by
    intro v m hm
    exact progress_update_ne v _ fun heq => hm (heq ▸ .refl)
  congr := by
    intro v v' h m hm
    by_cases hmi : m = i
    · subst hmi
      simp [h m .refl]
    · simp [hmi, h m hm]

end Line

theorem Local.comp {f g : Line → Line} (hf : Local L k f) (hg : Local L k g) :
    Local L k fun v => g (f v) where
  frame := by
    intro v m hm
    rw [hg.frame _ m hm, hf.frame v m hm]
  congr := by
    intro v v' h
    exact hg.congr _ _ (hf.congr v v' h)

/-- A choice that is made by the subtree. -/
theorem Local.ite {f g : Line → Line} {P : Line → Prop} [DecidablePred P]
    (hP : ∀ v v', (∀ m, Below L k m → v.progress m = v'.progress m) → (P v ↔ P v'))
    (hf : Local L k f) (hg : Local L k g) : Local L k fun v => if P v then f v else g v where
  frame := by
    intro v m hm
    split
    · exact hf.frame v m hm
    · exact hg.frame v m hm
  congr := by
    intro v v' h m hm
    by_cases hv : P v
    · simp only [if_pos hv, if_pos ((hP v v' h).mp hv), hf.congr v v' h m hm]
    · simp only [if_neg hv, if_neg (mt (hP v v' h).mpr hv), hg.congr v v' h m hm]

/-! ## The commands -/

namespace Line

open Classical

theorem advance_local (hw : Wired L height limit) (calls : ℕ) (i : CoreId) :
    Local L i fun v => advance L calls v i := by
  induction calls generalizing i with
  | zero => exact Local.id i
  | succ calls ih =>
      cases hL : L i with
      | none => simpa [advance, hL] using Local.id i
      | some c =>
          simp only [advance, hL]
          refine Local.ite ?_ (Local.id i) (Local.ite ?_ ?_ ?_)
          · intro v v' h
            rw [h i .refl, Affects.congr h]
          · intro v v' h
            refine exists_congr fun k => and_congr_right fun hk => ?_
            rw [h k (.single ⟨c, hL, hk⟩)]
          · exact local_children hw hL fun k _ => ih k
          · exact local_update i c.walk

theorem startWork_local (hw : Wired L height limit) (calls : ℕ) (i : CoreId) :
    Local L i fun v => startWork L calls v i := by
  induction calls generalizing i with
  | zero => exact Local.id i
  | succ calls ih =>
      cases hL : L i with
      | none => simpa [startWork, hL] using Local.id i
      | some c =>
          simp only [startWork, hL]
          refine Local.ite ?_ (Local.id i) ?_
          · intro v v' h
            rw [h i .refl, Affects.congr h]
          · exact (local_update i fun p => (started p, [])).comp
              (local_children hw hL fun k _ => ih k)

theorem finishWork_local (hw : Wired L height limit) (calls : ℕ) (i : CoreId) :
    Local L i fun v => finishWork L calls v i := by
  induction calls generalizing i with
  | zero => exact Local.id i
  | succ calls ih =>
      cases hL : L i with
      | none => simpa [finishWork, hL] using Local.id i
      | some c =>
          simp only [finishWork, hL]
          refine Local.ite ?_ (Local.id i) ?_
          · intro v v' h
            rw [h i .refl]
          · exact (local_update i fun p => (finished p, [])).comp
              (local_children hw hL fun k _ => ih k)

end Line

end Opencode.Hier
