import Opencode.Hier.Wiring

/-!
# What the hierarchy is for

The abstract line has no reports, no cached flags and no messages.  Every node only has
its own progress, and everything else is read off the tree: a fault affects production of
a node when some node of its subtree has a fault with production impact, and a node waits
for the children that are not ready.  The commands are the ones a reader of the
requirements would write down.

`Reports` proves that the nodes, which decide from what was reported to them, do the same.

## Main definitions

* `Line` — the progress of every node and the published events.
* `Affects` — production impact, over the subtree.
* `Line.advance`, `Line.startWork`, `Line.finishWork`, `Line.exec` — the commands.
-/

namespace Opencode.Hier

/-- The progress of every node, and the domain events so far. -/
@[ext]
structure Line where
  progress : CoreId → Progress
  events : List DomainEvent

/-- Some node of the subtree has a fault that stops production. -/
def Affects (L : Layout) (π : CoreId → Progress) (i : CoreId) : Prop :=
  ∃ m c, Below L i m ∧ L m = some c ∧ c.impact (π m) = true

section Affects

variable {L : Layout} {π : CoreId → Progress} {i k : CoreId}

/-- A production stop below a node is one below every node above it. -/
theorem Affects.of_below (hb : Below L i k) (h : Affects L π k) : Affects L π i := by
  obtain ⟨m, d, hm, hd, himpact⟩ := h
  exact ⟨m, d, hb.trans hm, hd, himpact⟩

/-- A node is stopped by its own fault or by one below a child. -/
theorem affects_iff {c : NodeConfig} (hi : L i = some c) :
    Affects L π i ↔ c.impact (π i) = true ∨ ∃ k ∈ c.childIds, Affects L π k := by
  constructor
  · rintro ⟨m, d, hb, hd, himpact⟩
    rcases (Wired.below_iff_of_layout hi).mp hb with rfl | ⟨k, hk, hb⟩
    · obtain rfl := Option.some.inj (hi.symm.trans hd)
      exact .inl himpact
    · exact .inr ⟨k, hk, m, d, hb, hd, himpact⟩
  · rintro (himpact | ⟨k, hk, h⟩)
    · exact ⟨i, c, .refl, hi, himpact⟩
    · exact h.of_below (.single ⟨c, hi, hk⟩)

end Affects

namespace Line

open Classical

/-- Give a node new progress, with the events that come of it. -/
noncomputable def update (v : Line) (i : CoreId) (p : Progress × List DomainEvent) : Line :=
  ⟨Function.update v.progress i p.1, v.events ++ p.2⟩

variable (L : Layout)

/-- A node without a fault, and without a production stop below it, takes its next step;
or its children do, until all of them are ready. -/
noncomputable def advance : ℕ → Line → CoreId → Line
  | 0, v, _ => v
  | calls + 1, v, i =>
      match L i with
      | none => v
      | some c =>
          if (v.progress i).inFault ∨ Affects L v.progress i then v
          else if ∃ k ∈ c.childIds, ¬ (v.progress k).ready then
            c.childIds.foldl (advance calls) v
          else v.update i (c.walk (v.progress i))

/-- The progress of a node that starts to work. -/
def started (p : Progress) : Progress := { p with working := true, curState := .work }

/-- A ready node without a production stop below it starts, and its children do. -/
noncomputable def startWork : ℕ → Line → CoreId → Line
  | 0, v, _ => v
  | calls + 1, v, i =>
      match L i with
      | none => v
      | some c =>
          if ¬ (v.progress i).ready ∨ Affects L v.progress i then v
          else c.childIds.foldl (startWork calls) (v.update i (started (v.progress i), []))

/-- The progress of a node that finishes its work. -/
def finished (p : Progress) : Progress := { p with working := false, curState := .done }

/-- A working node finishes, and its children do. -/
noncomputable def finishWork : ℕ → Line → CoreId → Line
  | 0, v, _ => v
  | calls + 1, v, i =>
      match L i with
      | none => v
      | some c =>
          if ¬ (v.progress i).working then v
          else c.childIds.foldl (finishWork calls) (v.update i (finished (v.progress i), []))

noncomputable def fail (v : Line) (i : CoreId) (sev : FaultLevel) : Line :=
  match L i with
  | none => v
  | some c => v.update i (c.fail (v.progress i) sev)

noncomputable def clearFault (v : Line) (i : CoreId) : Line :=
  match L i with
  | none => v
  | some c =>
      if (v.progress i).ownFault = .none then v else v.update i (c.clearFault (v.progress i))

noncomputable def exec (limit : ℕ) (v : Line) : Plant.Command → Line
  | .advance id => advance L limit v id
  | .startWork id => startWork L limit v id
  | .finishWork id => finishWork L limit v id
  | .fail id sev => fail L v id sev
  | .clearFault id => clearFault L v id

end Line

end Opencode.Hier
