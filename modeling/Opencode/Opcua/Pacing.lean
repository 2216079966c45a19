import Opencode.Lib.Run
import Opencode.Opcua.PlcClient

/-!
# The pace of the poll thread

`pollThread` polls every enabled group that has items in each pass, and sleeps until the
first of them is due again.  There is one wake-up time for all groups, so a group is polled
at the pace of the fastest one.

Time is that of a clock that does not go back, in nanoseconds; a pass reads it once.  The
sleep ends at any time that is not before the wake-up time, and the clock does not reach
`time_point::max()`.

## Main definitions

* `PacedGroup` — a poll group with its interval.
* `PollThread.step` — one pass and the sleep before it.
* `PollThread.KeepsPace` — the passes that poll a group are an interval apart.
* `PollThread.paced_iff` — when all groups keep their pace in all runs.
-/

namespace Opencode.Opcua

open Opencode.Lib

/-- A poll group with its interval, in milliseconds. -/
structure PacedGroup extends PollGroup where
  interval : ℤ
  enabled : Bool

namespace PacedGroup

/-- A millisecond of the clock. -/
def millisecond : ℤ := 1000000

/-- The interval in the ticks of the clock. -/
def period (g : PacedGroup) : ℤ := g.interval * millisecond

/-- The group is polled: it is enabled and has items. -/
def Active (g : PacedGroup) : Prop := g.enabled = true ∧ g.items ≠ []

instance : DecidablePred Active := fun g =>
  decidable_of_iff (g.enabled = true ∧ g.items.isEmpty = false) (by simp [Active])

end PacedGroup

/-- The thread: when its sleep may end, and the passes it made, each with the time it read
and the indices of the groups it polled. -/
structure PollThread where
  due : Option ℤ
  passes : List (ℤ × List ℕ)

namespace PollThread

/-- A thread that has not started yet. -/
def start : PollThread := ⟨none, []⟩

/-- `next` after one more wake-up time; `none` is `time_point::max()`. -/
def earlier (next : Option ℤ) (wake : ℤ) : Option ℤ :=
  match next with
  | none => some wake
  | some t => if wake < t then some wake else some t

/-- The body of the loop over the groups: the groups polled so far and `next`. -/
def visit (now : ℤ) (s : List ℕ × Option ℤ) (x : PacedGroup × ℕ) : List ℕ × Option ℤ :=
  if !x.1.enabled || x.1.items.isEmpty then s
  else (s.1 ++ [x.2], earlier s.2 (now + x.1.period))

/-- The loop over the groups. -/
def scan (groups : List PacedGroup) (now : ℤ) : List ℕ × Option ℤ :=
  groups.zipIdx.foldl (visit now) ([], none)

/-- One pass at a time the clock may have by then.  Without a group to wait for the thread
sleeps for 100 milliseconds. -/
def step (groups : List PacedGroup) (s : PollThread) (now : ℤ) : Option PollThread :=
  if (∀ t ∈ s.due, t ≤ now) ∧ ∀ pass ∈ s.passes.getLast?, pass.1 ≤ now then
    let (polled, next) := scan groups now
    some {
      due := some (next.getD (now + 100 * PacedGroup.millisecond))
      passes := s.passes ++ [(now, polled)] }
  else none

/-- The times of the passes that polled a group. -/
def pollTimes (s : PollThread) (i : ℕ) : List ℤ :=
  (s.passes.filter fun pass => decide (i ∈ pass.2)).map Prod.fst

/-- Two passes in a row that poll the group are its interval apart. -/
def KeepsPace (s : PollThread) (i : ℕ) (g : PacedGroup) : Prop :=
  (s.pollTimes i).IsChain fun a b => g.period ≤ b - a

/-! ## One pass -/

variable {now : ℤ} {groups : List PacedGroup}

/-- The groups a pass polls. -/
def activeIndices (groups : List PacedGroup) : List ℕ :=
  (groups.zipIdx.filter fun x => decide x.1.Active).map Prod.snd

/-- When the groups are due again. -/
def wakes (groups : List PacedGroup) (now : ℤ) : List ℤ :=
  (groups.filter fun g => decide g.Active).map fun g => now + g.period

theorem visit_of_active {s : List ℕ × Option ℤ} {x : PacedGroup × ℕ} (h : x.1.Active) :
    visit now s x = (s.1 ++ [x.2], earlier s.2 (now + x.1.period)) := by
  have hskip : (!x.1.enabled || x.1.items.isEmpty) = false := by
    simpa [PacedGroup.Active] using h
  rw [visit, hskip]
  rfl

theorem visit_of_not_active {s : List ℕ × Option ℤ} {x : PacedGroup × ℕ} (h : ¬ x.1.Active) :
    visit now s x = s := by
  have hskip : (!x.1.enabled || x.1.items.isEmpty) = true := by
    simpa [PacedGroup.Active, imp_iff_not_or] using h
  rw [visit, hskip, if_pos rfl]

/-- Each wake-up time is taken into the minimum. -/
theorem min?_earlier (next : Option ℤ) (wake : ℤ) (ws : List ℤ) :
    ((earlier next wake).toList ++ ws).min? = (next.toList ++ wake :: ws).min? := by
  cases next with
  | none => rfl
  | some t =>
      have hmin : earlier (some t) wake = some (min t wake) := by
        by_cases hlt : wake < t
        · simp [earlier, hlt, min_eq_right hlt.le]
        · simp [earlier, hlt, min_eq_left (not_lt.mp hlt)]
      rw [hmin]
      rfl

/-- The loop polls the active groups and computes the earliest of their wake-up times. -/
theorem foldl_visit (xs : List (PacedGroup × ℕ)) (s : List ℕ × Option ℤ) :
    xs.foldl (visit now) s =
      (s.1 ++ (xs.filter fun x => decide x.1.Active).map Prod.snd,
        (s.2.toList ++
          (xs.filter fun x => decide x.1.Active).map fun x => now + x.1.period).min?) := by
  induction xs generalizing s with
  | nil =>
      obtain ⟨polled, next⟩ := s
      cases next <;> simp
  | cons x xs ih =>
      rw [List.foldl_cons, ih]
      by_cases hx : x.1.Active
      · simp [visit_of_active hx, hx, min?_earlier]
      · simp [visit_of_not_active hx, hx]

/-- **A pass** polls the active groups, and the first of their wake-up times ends it. -/
theorem scan_eq (groups : List PacedGroup) (now : ℤ) :
    scan groups now = (activeIndices groups, (wakes groups now).min?) := by
  have hwakes : ((groups.zipIdx.filter fun x => decide x.1.Active).map fun x => now + x.1.period) =
      wakes groups now := by
    conv_rhs => rw [wakes, ← List.zipIdx_map_fst 0 groups, List.filter_map, List.map_map]
    rfl
  rw [scan, foldl_visit, hwakes]
  rfl

theorem mem_activeIndices {i : ℕ} :
    i ∈ activeIndices groups ↔ ∃ g, groups[i]? = some g ∧ g.Active := by
  simp [activeIndices, List.mk_mem_zipIdx_iff_getElem?]

theorem mem_wakes {w : ℤ} :
    w ∈ wakes groups now ↔ ∃ g ∈ groups, g.Active ∧ now + g.period = w := by
  simp [wakes, and_assoc]

/-- The earliest wake-up time is one, and none is before it. -/
theorem min?_wakes {w : ℤ} (h : (wakes groups now).min? = some w) :
    (∃ g ∈ groups, g.Active ∧ now + g.period = w) ∧
      ∀ g ∈ groups, g.Active → w ≤ now + g.period := by
  obtain ⟨hmem, hle⟩ := List.min?_eq_some_iff.mp h
  exact ⟨mem_wakes.mp hmem, fun g hg hact => hle _ (mem_wakes.mpr ⟨g, hg, hact, rfl⟩)⟩

theorem step_eq_some {s t : PollThread} (h : step groups s now = some t) :
    (∀ d ∈ s.due, d ≤ now) ∧
      t = ⟨some ((wakes groups now).min?.getD (now + 100 * PacedGroup.millisecond)),
        s.passes ++ [(now, activeIndices groups)]⟩ := by
  unfold step at h
  split at h
  · rename_i hguard
    rw [scan_eq] at h
    exact ⟨hguard.1, (Option.some.inj h).symm⟩
  · cases h

/-! ## Runs -/

/-- Every pass polls all active groups and comes no earlier than the first wake-up time of
the pass before it; the next one will not either. -/
structure Scheduled (groups : List PacedGroup) (s : PollThread) : Prop where
  polled : ∀ pass ∈ s.passes, pass.2 = activeIndices groups
  spaced : s.passes.IsChain fun a b => ∀ w ∈ (wakes groups a.1).min?, w ≤ b.1
  due : ∀ pass ∈ s.passes.getLast?, ∀ w ∈ (wakes groups pass.1).min?, s.due = some w

theorem scheduled_start : Scheduled groups start :=
  ⟨by simp [start], .nil, by simp [start]⟩

theorem scheduled_step {s t : PollThread} (h : Scheduled groups s)
    (hstep : step groups s now = some t) : Scheduled groups t := by
  obtain ⟨hdue, rfl⟩ := step_eq_some hstep
  refine ⟨?_, ?_, ?_⟩
  · intro pass hpass
    rcases List.mem_append.mp hpass with hpass | hpass
    · exact h.polled pass hpass
    · rw [List.mem_singleton.mp hpass]
  · refine List.isChain_append.mpr ⟨h.spaced, .singleton _, ?_⟩
    rintro a ha b hb w hw
    obtain rfl : (now, activeIndices groups) = b := by simpa using hb
    exact hdue w (h.due a ha w hw)
  · intro pass hpass w hw
    obtain rfl : (now, activeIndices groups) = pass := by simpa using hpass
    rw [hw.out]
    rfl

/-- An active group is polled in every pass. -/
theorem keepsPace_iff {s : PollThread} (h : Scheduled groups s) {i : ℕ} {g : PacedGroup}
    (hi : groups[i]? = some g) (hact : g.Active) :
    s.KeepsPace i g ↔ s.passes.IsChain fun a b => g.period ≤ b.1 - a.1 := by
  have hall : ∀ pass ∈ s.passes, decide (i ∈ pass.2) = true := by
    intro pass hpass
    rw [h.polled pass hpass, decide_eq_true_iff]
    exact mem_activeIndices.mpr ⟨g, hi, hact⟩
  rw [KeepsPace, pollTimes, List.filter_eq_self.mpr hall, List.isChain_map]

/-- Groups of one interval keep it: the first wake-up time is that of each of them. -/
theorem keepsPace_of_same {s : PollThread} (h : Scheduled groups s)
    (hsame : ∀ g ∈ groups, ∀ g' ∈ groups, g.Active → g'.Active → g.interval = g'.interval)
    {i : ℕ} {g : PacedGroup} (hi : groups[i]? = some g) (hact : g.Active) :
    s.KeepsPace i g := by
  have hg : g ∈ groups := List.mem_of_getElem? hi
  refine (keepsPace_iff h hi hact).mpr (h.spaced.imp fun a b hab => ?_)
  have hne : wakes groups a.1 ≠ [] :=
    List.ne_nil_of_mem (mem_wakes.mpr ⟨g, hg, hact, rfl⟩)
  obtain ⟨w, hw⟩ := Option.isSome_iff_exists.mp (List.isSome_min?_of_ne_nil hne)
  obtain ⟨⟨g', hg', hact', rfl⟩, -⟩ := min?_wakes hw
  have hperiod : g.period = g'.period := by
    rw [PacedGroup.period, PacedGroup.period, hsame g hg g' hg' hact hact']
  have hle := hab _ hw
  omega

/-- The thread can make a pass at time zero and the next as soon as it wakes up. -/
theorem exists_two_passes (hpos : ∀ g ∈ groups, 0 < g.interval) {w : ℤ}
    (hw : (wakes groups 0).min? = some w) :
    run (step groups) start [0, w] =
      some ⟨some ((wakes groups w).min?.getD (w + 100 * PacedGroup.millisecond)),
        [(0, activeIndices groups), (w, activeIndices groups)]⟩ := by
  obtain ⟨⟨g, hg, -, rfl⟩, -⟩ := min?_wakes hw
  have hperiod : 0 ≤ g.period := by
    have := hpos g hg
    rw [PacedGroup.period, PacedGroup.millisecond]
    omega
  simp [step, start, scan_eq, hw, hperiod]

/-- **All groups keep their pace in all runs** exactly if all active groups have the same
interval. -/
theorem paced_iff (groups : List PacedGroup) (hpos : ∀ g ∈ groups, 0 < g.interval) :
    (∀ (nows : List ℤ) (s : PollThread), run (step groups) start nows = some s →
      ∀ (i : ℕ) (g : PacedGroup), groups[i]? = some g → g.Active → s.KeepsPace i g) ↔
    ∀ g ∈ groups, ∀ g' ∈ groups, g.Active → g'.Active → g.interval = g'.interval := by
  constructor
  · intro hpace
    -- The second pass comes when the first group is due, which is early for a slower one.
    have hle : ∀ g ∈ groups, ∀ g' ∈ groups, g.Active → g'.Active → g.interval ≤ g'.interval := by
      intro g hg g' hg' hact hact'
      obtain ⟨i, hi⟩ := List.mem_iff_getElem?.mp hg
      have hne : wakes groups 0 ≠ [] := List.ne_nil_of_mem (mem_wakes.mpr ⟨g, hg, hact, rfl⟩)
      obtain ⟨w, hw⟩ := Option.isSome_iff_exists.mp (List.isSome_min?_of_ne_nil hne)
      have hrun := exists_two_passes hpos hw
      have hsched := run_invariant (fun _ _ _ h ht => scheduled_step h ht) scheduled_start hrun
      have hchain := (keepsPace_iff hsched hi hact).mp (hpace _ _ hrun i g hi hact)
      have hgap : g.period ≤ w - 0 := (List.isChain_cons_cons.mp hchain).1
      have hearly := (min?_wakes hw).2 g' hg' hact'
      rw [PacedGroup.period, PacedGroup.millisecond] at hgap hearly
      omega
    intro g hg g' hg' hact hact'
    exact le_antisymm (hle g hg g' hg' hact hact') (hle g' hg' g hg hact' hact)
  · intro hsame nows s hrun i g hi hact
    have hsched := run_invariant (fun _ _ _ h ht => scheduled_step h ht) scheduled_start hrun
    exact keepsPace_of_same hsched hsame hi hact

/-- A group of one variable. -/
private def group (name id : String) (interval : ℤ) (enabled : Bool) : PacedGroup :=
  ⟨⟨name, [⟨⟨0, id⟩, id⟩]⟩, interval, enabled⟩

/-- The groups of the demo: the slow one is polled again after 100 milliseconds. -/
theorem not_paced_demo :
    ¬ ∀ groups : List PacedGroup, (∀ g ∈ groups, 0 < g.interval) →
      ∀ (nows : List ℤ) (s : PollThread), run (step groups) start nows = some s →
        ∀ (i : ℕ) (g : PacedGroup), groups[i]? = some g → g.Active → s.KeepsPace i g := by
  intro h
  have hslow := h [group "fast_100ms" "1001" 100 true, group "slow_1000ms" "2001" 1000 true]
    (by decide) [0, 100000000] ⟨some 200000000, [(0, [0, 1]), (100000000, [0, 1])]⟩ rfl 1 _ rfl
    (by decide)
  exact absurd (List.isChain_cons_cons.mp hslow).1 (by decide)

/-- Of two groups of different intervals one is disabled. -/
theorem paced_alone :
    (⟨some 200000000, [(0, [0]), (100000000, [0])]⟩ : PollThread).KeepsPace 0
      (group "fast_100ms" "1001" 100 true) :=
  (paced_iff [group "fast_100ms" "1001" 100 true, group "slow_1000ms" "2001" 1000 false]
    (by decide)).mpr (by decide) [0, 100000000] _ rfl 0 _ rfl (by decide)

end PollThread
end Opencode.Opcua
