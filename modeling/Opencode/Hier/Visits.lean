import Opencode.Hier.Locality

/-!
# The nodes a command visits

A command on a node goes down the tree and changes the progress of some nodes.  Which ones
is decided by the state before the command: each node is visited at most once, and what a
command has done in one subtree is not looked at in another.  So a command is a fold over
the list of its visits, and what it does to a node, and the events it publishes for it, are
those of the one visit.

## Main definitions

* `Plant.Command.act` — what a command does at a node it visits.
* `Line.visits` — the nodes it visits, in order.
* `Line.exec_eq_visits` — the command is the fold.
* `Line.Visited`, `Line.mem_visits_iff` — which nodes those are.
* `Line.progress_exec`, `Line.events_exec` — what the command does to a node, and the
  events it publishes.
-/

namespace Opencode.Hier

variable {L : Layout} {height : CoreId → ℕ} {limit : ℕ} {i k m : CoreId} {c : NodeConfig}

/-- The node a command is given to. -/
def Plant.Command.id : Plant.Command → CoreId
  | .advance id | .startWork id | .finishWork id | .fail id _ | .clearFault id => id

/-- What a command does at a node it visits, with the events it publishes. -/
def Plant.Command.act : Plant.Command → NodeConfig → Progress → Progress × List DomainEvent
  | .advance _ => NodeConfig.walk
  | .startWork _ => fun _ p => (Line.started p, [])
  | .finishWork _ => fun _ p => (Line.finished p, [])
  | .fail _ sev => fun c p => c.fail p sev
  | .clearFault _ => NodeConfig.clearFault

namespace Line

open Classical

noncomputable def visit (L : Layout) (act : NodeConfig → Progress → Progress × List DomainEvent)
    (v : Line) (i : CoreId) : Line :=
  match L i with
  | none => v
  | some c => v.update i (act c (v.progress i))

/-! ## The visits -/

/-- The nodes that take their next step: those without a stop on the way down to them
whose children are all ready. -/
noncomputable def advanceVisits (L : Layout) (π : CoreId → Progress) : ℕ → CoreId → List CoreId
  | 0, _ => []
  | calls + 1, i =>
      match L i with
      | none => []
      | some c =>
          if (π i).inFault ∨ Affects L π i then []
          else if ∃ k ∈ c.childIds, ¬ (π k).ready then c.childIds.flatMap (advanceVisits L π calls)
          else [i]

/-- The nodes that can be reached from above over nodes that go. -/
noncomputable def sweep (L : Layout) (go : CoreId → Prop) : ℕ → CoreId → List CoreId
  | 0, _ => []
  | calls + 1, i =>
      match L i with
      | none => []
      | some c => if go i then i :: c.childIds.flatMap (sweep L go calls) else []

/-- A node starts that is ready and has no production stop below it. -/
def Starts (L : Layout) (π : CoreId → Progress) (i : CoreId) : Prop :=
  (π i).ready = true ∧ ¬ Affects L π i

/-- The nodes a command visits. -/
noncomputable def visits (L : Layout) (limit : ℕ) (π : CoreId → Progress) :
    Plant.Command → List CoreId
  | .advance id => advanceVisits L π limit id
  | .startWork id => sweep L (Starts L π) limit id
  | .finishWork id => sweep L (fun m => (π m).working = true) limit id
  | .fail id _ => [id]
  | .clearFault id => if (π id).ownFault = .none then [] else [id]

/-! ## Visits stay in the subtree -/

theorem below_of_mem_advanceVisits {π : CoreId → Progress} {calls : ℕ}
    (h : m ∈ advanceVisits L π calls i) : Below L i m := by
  induction calls generalizing i with
  | zero => cases h
  | succ calls ih =>
      cases hL : L i with
      | none => simp [advanceVisits, hL] at h
      | some c =>
          simp only [advanceVisits, hL] at h
          split at h
          · cases h
          · split at h
            · obtain ⟨k, hk, hm⟩ := List.mem_flatMap.mp h
              exact .head ⟨c, hL, hk⟩ (ih hm)
            · rw [List.mem_singleton.mp h]
              exact .refl

theorem below_of_mem_sweep {go : CoreId → Prop} {calls : ℕ} (h : m ∈ sweep L go calls i) :
    Below L i m := by
  induction calls generalizing i with
  | zero => cases h
  | succ calls ih =>
      cases hL : L i with
      | none => simp [sweep, hL] at h
      | some c =>
          simp only [sweep, hL] at h
          split at h
          · rcases List.mem_cons.mp h with rfl | h
            · exact .refl
            · obtain ⟨k, hk, hm⟩ := List.mem_flatMap.mp h
              exact .head ⟨c, hL, hk⟩ (ih hm)
          · cases h

/-- Lists of visits below different children have nothing in common. -/
theorem nodup_flatMap (hw : Wired L height limit) (hL : L i = some c) {f : CoreId → List CoreId}
    (hbelow : ∀ k ∈ c.childIds, ∀ m ∈ f k, Below L k m) (hnodup : ∀ k ∈ c.childIds, (f k).Nodup) :
    (c.childIds.flatMap f).Nodup := by
  refine List.nodup_flatMap.mpr ⟨hnodup, ?_⟩
  refine (hw.children_disjoint hL).imp_of_mem fun {j k} hj hk hdisj => ?_
  exact fun m hjm hkm => hdisj m (hbelow j hj m hjm) (hbelow k hk m hkm)

theorem nodup_advanceVisits (hw : Wired L height limit) (π : CoreId → Progress) (calls : ℕ)
    (i : CoreId) : (advanceVisits L π calls i).Nodup := by
  induction calls generalizing i with
  | zero => exact List.nodup_nil
  | succ calls ih =>
      cases hL : L i with
      | none => simp [advanceVisits, hL]
      | some c =>
          simp only [advanceVisits, hL]
          split
          · exact List.nodup_nil
          · split
            · exact nodup_flatMap hw hL (fun k _ m hm => below_of_mem_advanceVisits hm)
                fun k _ => ih k
            · exact List.nodup_singleton i

theorem nodup_sweep (hw : Wired L height limit) (go : CoreId → Prop) (calls : ℕ) (i : CoreId) :
    (sweep L go calls i).Nodup := by
  induction calls generalizing i with
  | zero => exact List.nodup_nil
  | succ calls ih =>
      cases hL : L i with
      | none => simp [sweep, hL]
      | some c =>
          simp only [sweep, hL]
          split
          · refine List.nodup_cons.mpr ⟨fun hi => ?_, ?_⟩
            · obtain ⟨k, hk, hm⟩ := List.mem_flatMap.mp hi
              exact hw.not_below_child ⟨c, hL, hk⟩ (below_of_mem_sweep hm)
            · exact nodup_flatMap hw hL (fun k _ m hm => below_of_mem_sweep hm) fun k _ => ih k
          · exact List.nodup_nil

/-- **A command visits no node twice.** -/
theorem nodup_visits (hw : Wired L height limit) (π : CoreId → Progress) (cmd : Plant.Command) :
    (visits L limit π cmd).Nodup := by
  cases cmd with
  | advance id => exact nodup_advanceVisits hw π limit id
  | startWork id | finishWork id => exact nodup_sweep hw _ limit id
  | fail id sev => exact List.nodup_singleton id
  | clearFault id =>
      simp only [visits]
      split
      · exact List.nodup_nil
      · exact List.nodup_singleton id

/-! ## The command is the fold over its visits -/

theorem progress_visit_ne {act : NodeConfig → Progress → Progress × List DomainEvent} (v : Line)
    (h : m ≠ i) : (visit L act v i).progress m = v.progress m := by
  simp only [visit]
  split
  · rfl
  · exact progress_update_ne v _ h

/-- A loop over disjoint subtrees is the fold over the visits in them: what was done below
one child is not looked at below the next. -/
theorem foldl_eq_visits {act : NodeConfig → Progress → Progress × List DomainEvent}
    {g : Line → CoreId → Line} {V : CoreId → List CoreId} {π : CoreId → Progress}
    {ks : List CoreId} (hdisj : ks.Pairwise fun j k => ∀ m, Below L j m → ¬ Below L k m)
    (hg : ∀ k ∈ ks, Local L k fun v => g v k)
    (hV : ∀ k ∈ ks, ∀ v : Line, (∀ m, Below L k m → v.progress m = π m) →
      g v k = (V k).foldl (visit L act) v)
    (v : Line) (hv : ∀ k ∈ ks, ∀ m, Below L k m → v.progress m = π m) :
    ks.foldl g v = (ks.flatMap V).foldl (visit L act) v := by
  induction ks generalizing v with
  | nil => rfl
  | cons j ks ih =>
      obtain ⟨hj, hks⟩ := List.pairwise_cons.mp hdisj
      have hhead := hV j List.mem_cons_self v (hv j List.mem_cons_self)
      rw [List.foldl_cons, List.flatMap_cons, List.foldl_append, ← hhead]
      refine ih hks (fun k hk => hg k (List.mem_cons_of_mem j hk))
        (fun k hk => hV k (List.mem_cons_of_mem j hk)) _ ?_
      intro k hk m hm
      rw [(hg j List.mem_cons_self).frame v m fun hjm => hj k hk m hjm hm]
      exact hv k (List.mem_cons_of_mem j hk) m hm

theorem advance_eq_visits (hw : Wired L height limit) {π : CoreId → Progress} (calls : ℕ)
    (v : Line) (hv : ∀ m, Below L i m → v.progress m = π m) :
    advance L calls v i = (advanceVisits L π calls i).foldl (visit L NodeConfig.walk) v := by
  induction calls generalizing i v with
  | zero => rfl
  | succ calls ih =>
      cases hL : L i with
      | none => simp [advance, advanceVisits, hL]
      | some c =>
          have hready : (∃ k ∈ c.childIds, ¬ (v.progress k).ready = true) ↔
              ∃ k ∈ c.childIds, ¬ (π k).ready = true := by
            refine exists_congr fun k => and_congr_right fun hk => ?_
            rw [hv k (.single ⟨c, hL, hk⟩)]
          simp only [advance, advanceVisits, hL, hv i .refl, Affects.congr hv, hready]
          split
          · rfl
          · split
            · refine foldl_eq_visits (hw.children_disjoint hL)
                (fun k _ => advance_local hw calls k) (fun k _ v hk => ih v hk) v ?_
              intro k hk m hm
              exact hv m (.head ⟨c, hL, hk⟩ hm)
            · simp [visit, hL, hv i .refl]

/-- The shape of `startWork` and `finishWork`: a node that goes is visited, and then its
children are. -/
theorem sweep_step (hw : Wired L height limit) (hL : L i = some c)
    {act : NodeConfig → Progress → Progress × List DomainEvent} {g : Line → CoreId → Line}
    {V : CoreId → List CoreId} {π : CoreId → Progress}
    (hg : ∀ k ∈ c.childIds, Local L k fun v => g v k)
    (hV : ∀ k ∈ c.childIds, ∀ v : Line, (∀ m, Below L k m → v.progress m = π m) →
      g v k = (V k).foldl (visit L act) v)
    (v : Line) (hv : ∀ m, Below L i m → v.progress m = π m) :
    c.childIds.foldl g (visit L act v i) =
      (i :: c.childIds.flatMap V).foldl (visit L act) v := by
  rw [List.foldl_cons]
  refine foldl_eq_visits (hw.children_disjoint hL) hg hV _ ?_
  intro k hk m hm
  have hmi : m ≠ i := fun heq => hw.not_below_child ⟨c, hL, hk⟩ (heq ▸ hm)
  rw [progress_visit_ne v hmi]
  exact hv m (.head ⟨c, hL, hk⟩ hm)

theorem startWork_eq_visits (hw : Wired L height limit) {π : CoreId → Progress} (calls : ℕ)
    (v : Line) (hv : ∀ m, Below L i m → v.progress m = π m) :
    startWork L calls v i =
      (sweep L (Starts L π) calls i).foldl (visit L fun _ p => (started p, [])) v := by
  induction calls generalizing i v with
  | zero => rfl
  | succ calls ih =>
      cases hL : L i with
      | none => simp [startWork, sweep, hL]
      | some c =>
          have hgo : ¬ (¬ (π i).ready = true ∨ Affects L π i) ↔ Starts L π i := by
            rw [Starts, not_or, not_not]
          have hvisit : v.update i (started (π i), []) =
              visit L (fun _ p => (started p, [])) v i := by
            simp [visit, hL, hv i .refl]
          simp only [startWork, sweep, hL, hv i .refl, Affects.congr hv]
          by_cases hi : Starts L π i
          · rw [if_neg (hgo.mpr hi), if_pos hi, hvisit]
            exact sweep_step hw hL (fun k _ => startWork_local hw calls k) (fun k _ v => ih v) v hv
          · rw [if_pos (not_not.mp (mt hgo.mp hi)), if_neg hi, List.foldl_nil]

theorem finishWork_eq_visits (hw : Wired L height limit) {π : CoreId → Progress} (calls : ℕ)
    (v : Line) (hv : ∀ m, Below L i m → v.progress m = π m) :
    finishWork L calls v i =
      (sweep L (fun m => (π m).working = true) calls i).foldl
        (visit L fun _ p => (finished p, [])) v := by
  induction calls generalizing i v with
  | zero => rfl
  | succ calls ih =>
      cases hL : L i with
      | none => simp [finishWork, sweep, hL]
      | some c =>
          have hvisit : v.update i (finished (π i), []) =
              visit L (fun _ p => (finished p, [])) v i := by
            simp [visit, hL, hv i .refl]
          simp only [finishWork, sweep, hL, hv i .refl]
          by_cases hi : (π i).working = true
          · rw [if_neg (not_not.mpr hi), if_pos hi, hvisit]
            exact sweep_step hw hL (fun k _ => finishWork_local hw calls k) (fun k _ v => ih v) v
              hv
          · rw [if_pos hi, if_neg hi, List.foldl_nil]

/-- **A command is the fold over its visits.** -/
theorem exec_eq_visits (hw : Wired L height limit) (v : Line) (cmd : Plant.Command) :
    exec L limit v cmd = (visits L limit v.progress cmd).foldl (visit L cmd.act) v := by
  cases cmd with
  | advance id => exact advance_eq_visits hw limit v fun _ _ => rfl
  | startWork id => exact startWork_eq_visits hw limit v fun _ _ => rfl
  | finishWork id => exact finishWork_eq_visits hw limit v fun _ _ => rfl
  | fail id sev => rfl
  | clearFault id =>
      simp only [exec, clearFault, visits]
      split <;> split <;> simp [visit, Plant.Command.act, *]

/-! ## What the fold does -/

variable {act : NodeConfig → Progress → Progress × List DomainEvent} {ms : List CoreId}

/-- A node that is visited makes its step from the progress before the command. -/
theorem progress_foldl_visit (hnodup : ms.Nodup) (v : Line) (hL : L m = some c) :
    (ms.foldl (visit L act) v).progress m =
      if m ∈ ms then (act c (v.progress m)).1 else v.progress m := by
  induction ms generalizing v with
  | nil => rfl
  | cons j ms ih =>
      obtain ⟨hj, hms⟩ := List.nodup_cons.mp hnodup
      rw [List.foldl_cons, ih hms]
      by_cases hmj : m = j
      · subst hmj
        simp [hj, visit, hL]
      · simp only [progress_visit_ne v hmj, List.mem_cons, hmj, false_or]

/-- The events of the visit of a node in the state before the command. -/
def eventsOf (L : Layout) (act : NodeConfig → Progress → Progress × List DomainEvent)
    (π : CoreId → Progress) (i : CoreId) : List DomainEvent :=
  match L i with
  | none => []
  | some c => (act c (π i)).2

theorem events_foldl_visit (hnodup : ms.Nodup) (v : Line) :
    (ms.foldl (visit L act) v).events =
      v.events ++ ms.flatMap (eventsOf L act v.progress) := by
  induction ms generalizing v with
  | nil => simp
  | cons j ms ih =>
      obtain ⟨hj, hms⟩ := List.nodup_cons.mp hnodup
      have hhead : (visit L act v j).events = v.events ++ eventsOf L act v.progress j := by
        simp only [visit, eventsOf]
        split <;> simp [update]
      have htail : ms.flatMap (eventsOf L act (visit L act v j).progress) =
          ms.flatMap (eventsOf L act v.progress) := by
        refine List.flatMap_congr fun m hm => ?_
        have hmj : m ≠ j := fun heq => hj (heq ▸ hm)
        simp only [eventsOf, progress_visit_ne v hmj]
      rw [List.foldl_cons, ih hms, hhead, htail, List.flatMap_cons, List.append_assoc]

/-! ## Which nodes are visited -/

/-- `a` is on the way from `i` down to `m`, both included. -/
def Between (L : Layout) (i a m : CoreId) : Prop := Below L i a ∧ Below L a m

/-- A command comes to the node `m`.  It is for the state before the command to say. -/
def Visited (L : Layout) (π : CoreId → Progress) : Plant.Command → CoreId → Prop
  | .advance id, m =>
      ¬ Affects L π id ∧ Below L id m ∧ (∀ a, Between L id a m → (π a).ownFault = .none) ∧
        (∀ a, Between L id a m → a ≠ m → ∃ k, Child L a k ∧ (π k).ready = false) ∧
        ∀ k, Child L m k → (π k).ready = true
  | .startWork id, m =>
      ¬ Affects L π id ∧ Below L id m ∧ ∀ a, Between L id a m → (π a).ready = true
  | .finishWork id, m => Below L id m ∧ ∀ a, Between L id a m → (π a).working = true
  | .fail id _, m => m = id
  | .clearFault id, m => m = id ∧ (π id).ownFault ≠ .none

/-- On the way from `i` down to a node below its child `k` there are `i` and the nodes on
the way from `k`. -/
theorem between_iff_of_child (hw : Wired L height limit) (hc : Child L i k) (hm : Below L k m)
    {a : CoreId} : Between L i a m ↔ a = i ∨ Between L k a m := by
  constructor
  · rintro ⟨hia, ham⟩
    rcases Wired.below_iff.mp hia with rfl | ⟨k', hc', hka⟩
    · exact .inl rfl
    · obtain rfl : k' = k := by
        by_contra hne
        exact hw.below_disjoint hc' hc hne (hka.trans ham) hm
      exact .inr ⟨hka, ham⟩
  · rintro (rfl | ⟨hka, ham⟩)
    · exact ⟨.refl, .head hc hm⟩
    · exact ⟨.head hc hka, ham⟩

theorem between_self_iff (hw : Wired L height limit) {a : CoreId} : Between L i a i ↔ a = i := by
  constructor
  · rintro ⟨hia, hai⟩
    rcases Wired.below_iff.mp hia with rfl | ⟨k, hc, hka⟩
    · rfl
    · exact absurd (hka.trans hai) (hw.not_below_child hc)
  · rintro rfl
    exact ⟨.refl, .refl⟩

/-- A way down that meets a condition begins at a node that does, and goes on below a
child. -/
theorem path_iff (hw : Wired L height limit) (hL : L i = some c) {P : CoreId → Prop} :
    (Below L i m ∧ ∀ a, Between L i a m → P a) ↔
      P i ∧ (m = i ∨ ∃ k ∈ c.childIds, Below L k m ∧ ∀ a, Between L k a m → P a) := by
  constructor
  · rintro ⟨hb, hpath⟩
    refine ⟨hpath i ⟨.refl, hb⟩, ?_⟩
    refine ((Wired.below_iff_of_layout hL).mp hb).imp_right ?_
    rintro ⟨k, hk, hb⟩
    have hc : Child L i k := ⟨c, hL, hk⟩
    exact ⟨k, hk, hb, fun a ha => hpath a ((between_iff_of_child hw hc hb).mpr (.inr ha))⟩
  · rintro ⟨hi, rfl | ⟨k, hk, hb, hpath⟩⟩
    · refine ⟨.refl, fun a ha => ?_⟩
      rwa [(between_self_iff hw).mp ha]
    · refine ⟨.head ⟨c, hL, hk⟩ hb, fun a ha => ?_⟩
      rcases (between_iff_of_child hw ⟨c, hL, hk⟩ hb).mp ha with rfl | ha
      · exact hi
      · exact hpath a ha

theorem mem_sweep_iff (hw : Wired L height limit) {go : CoreId → Prop} {calls : ℕ}
    (hL : L i = some c) (hcalls : height i < calls) :
    m ∈ sweep L go calls i ↔ Below L i m ∧ ∀ a, Between L i a m → go a := by
  induction calls generalizing i c with
  | zero => exact absurd hcalls (Nat.not_lt_zero _)
  | succ calls ih =>
      have hchild : ∀ k ∈ c.childIds, (m ∈ sweep L go calls k ↔
          Below L k m ∧ ∀ a, Between L k a m → go a) := by
        intro k hk
        obtain ⟨d, hd, -⟩ := hw.child i c hL k hk
        have hlower := hw.lower i c hL k hk
        exact ih hd (by omega)
      rw [path_iff hw hL]
      simp only [sweep, hL]
      split
      · rename_i hgo
        rw [List.mem_cons, List.mem_flatMap, and_iff_right hgo]
        exact or_congr_right (exists_congr fun k => and_congr_right (hchild k))
      · rename_i hgo
        exact iff_of_false List.not_mem_nil fun h => hgo h.1

/-- `advance` comes to a node itself, or waits for one of its children and goes on with
them. -/
theorem visited_advance_iff (hw : Wired L height limit) (hL : L i = some c)
    {π : CoreId → Progress} (hclear : ¬ Affects L π i) :
    Visited L π (.advance i) m ↔ (π i).ownFault = .none ∧
      if ∃ k ∈ c.childIds, ¬ (π k).ready = true then
        ∃ k ∈ c.childIds, Visited L π (.advance k) m
      else m = i := by
  -- a node on the way down has no fault, and waits unless it is the last one
  have hvisited : ∀ j, Visited L π (.advance j) m ↔ ¬ Affects L π j ∧
      (Below L j m ∧ ∀ a, Between L j a m → (π a).ownFault = .none ∧
        (a ≠ m → ∃ k, Child L a k ∧ (π k).ready = false)) ∧
      ∀ k, Child L m k → (π k).ready = true := by
    intro j
    simp only [Visited, forall_and, and_assoc]
  have hwaits : (∃ k, Child L i k ∧ (π k).ready = false) ↔
      ∃ k ∈ c.childIds, ¬ (π k).ready = true := by
    simp [Wired.child_iff hL]
  rw [hvisited, and_iff_right hclear, path_iff hw hL, hwaits, and_assoc, and_assoc]
  refine and_congr_right fun _ => ?_
  split
  · rename_i hwait
    constructor
    · rintro ⟨-, rfl | ⟨k, hk, hpath⟩, hlast⟩
      · obtain ⟨k, hc, hk⟩ := hwaits.mpr hwait
        exact absurd (hlast k hc) (by simp [hk])
      · exact ⟨k, hk, (hvisited k).mpr ⟨mt (.of_below (.single ⟨c, hL, hk⟩)) hclear, hpath, hlast⟩⟩
    · rintro ⟨k, hk, hv⟩
      obtain ⟨-, hpath, hlast⟩ := (hvisited k).mp hv
      exact ⟨fun _ => hwait, .inr ⟨k, hk, hpath⟩, hlast⟩
  · rename_i hgo
    constructor
    · rintro ⟨hi, -⟩
      by_contra hne
      exact hgo (hi (Ne.symm hne))
    · rintro rfl
      refine ⟨fun hne => absurd rfl hne, .inl rfl, fun k hc => ?_⟩
      by_contra hk
      exact hgo (hwaits.mp ⟨k, hc, by simpa using hk⟩)

theorem mem_advanceVisits_iff (hw : Wired L height limit) {π : CoreId → Progress} {calls : ℕ}
    (hL : L i = some c) (hcalls : height i < calls) :
    m ∈ advanceVisits L π calls i ↔ Visited L π (.advance i) m := by
  induction calls generalizing i c with
  | zero => exact absurd hcalls (Nat.not_lt_zero _)
  | succ calls ih =>
      have hchild : ∀ k ∈ c.childIds, (m ∈ advanceVisits L π calls k ↔
          Visited L π (.advance k) m) := by
        intro k hk
        obtain ⟨d, hd, -⟩ := hw.child i c hL k hk
        have hlower := hw.lower i c hL k hk
        exact ih hd (by omega)
      simp only [advanceVisits, hL]
      split
      · rename_i hstop
        refine iff_of_false List.not_mem_nil ?_
        rintro ⟨hclear, hb, hown, -⟩
        have hfault : ¬ (π i).inFault = true := by simp [Progress.inFault, hown i ⟨.refl, hb⟩]
        exact hstop.elim hfault hclear
      · rename_i hgo
        obtain ⟨hown, hclear⟩ := not_or.mp hgo
        have hown : (π i).ownFault = .none := by simpa [Progress.inFault] using hown
        rw [visited_advance_iff hw hL hclear, and_iff_right hown]
        split
        · rw [List.mem_flatMap]
          exact exists_congr fun k => and_congr_right (hchild k)
        · exact List.mem_singleton

theorem Visited.below {π : CoreId → Progress} {cmd : Plant.Command} (h : Visited L π cmd m) :
    Below L cmd.id m := by
  cases cmd with
  | advance id | startWork id => exact h.2.1
  | finishWork id => exact h.1
  | fail id sev => exact h ▸ .refl
  | clearFault id => exact h.1 ▸ .refl

theorem below_of_mem_visits {π : CoreId → Progress} {cmd : Plant.Command}
    (h : m ∈ visits L limit π cmd) : Below L cmd.id m := by
  cases cmd with
  | advance id => exact below_of_mem_advanceVisits h
  | startWork id | finishWork id => exact below_of_mem_sweep h
  | fail id sev => exact List.mem_singleton.mp h ▸ .refl
  | clearFault id =>
      simp only [visits] at h
      split at h
      · cases h
      · exact List.mem_singleton.mp h ▸ .refl

/-- **The visits of a command**, among the nodes that are there. -/
theorem mem_visits_iff (hw : Wired L height limit) {π : CoreId → Progress}
    {cmd : Plant.Command} (hm : L m = some c) :
    m ∈ visits L limit π cmd ↔ Visited L π cmd m := by
  cases hL : L cmd.id with
  | none =>
      have hnot : ¬ Below L cmd.id m := by
        intro hb
        rcases Wired.below_iff.mp hb with heq | ⟨k, ⟨d, hd, -⟩, -⟩
        · exact absurd (hL.symm.trans (heq ▸ hm)) (by simp)
        · exact absurd (hL.symm.trans hd) (by simp)
      exact iff_of_false (fun h => hnot (below_of_mem_visits h)) fun h => hnot h.below
  | some d =>
      have hcalls := hw.bounded cmd.id d hL
      cases cmd with
      | advance id => exact mem_advanceVisits_iff hw hL hcalls
      | startWork id =>
          refine (mem_sweep_iff hw hL hcalls).trans ?_
          constructor
          · rintro ⟨hb, hpath⟩
            exact ⟨(hpath id ⟨.refl, hb⟩).2, hb, fun a ha => (hpath a ha).1⟩
          · rintro ⟨hclear, hb, hpath⟩
            exact ⟨hb, fun a ha => ⟨hpath a ha, mt (.of_below ha.1) hclear⟩⟩
      | finishWork id => exact mem_sweep_iff hw hL hcalls
      | fail id sev => exact List.mem_singleton
      | clearFault id =>
          simp only [visits, Visited]
          split <;> simp [*]

/-- **What a command does to a node.** -/
theorem progress_exec (hw : Wired L height limit) (v : Line) (cmd : Plant.Command)
    (hm : L m = some c) :
    (exec L limit v cmd).progress m =
      if Visited L v.progress cmd m then (cmd.act c (v.progress m)).1 else v.progress m := by
  rw [exec_eq_visits hw, progress_foldl_visit (nodup_visits hw _ cmd) v hm]
  simp only [mem_visits_iff hw hm]

/-- **The events a command publishes.** -/
theorem events_exec (hw : Wired L height limit) (v : Line) (cmd : Plant.Command) :
    (exec L limit v cmd).events = v.events ++
      (visits L limit v.progress cmd).flatMap (eventsOf L cmd.act v.progress) := by
  rw [exec_eq_visits hw, events_foldl_visit (nodup_visits hw _ cmd)]

end Line

end Opencode.Hier
