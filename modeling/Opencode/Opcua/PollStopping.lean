import Mathlib
import Opencode.Lib.History
import Opencode.Lib.Settle
import Opencode.Opcua.PollThreads

/-!
# Starting and stopping the poll thread

`start` creates the poll thread unless `running_` is set, and `stop` clears `running_` and
joins the thread.  The thread looks at `running_` only between its passes, so a pass may
begin after `stop` has cleared it, but no second one.  A thread that is waiting for the
mutex when it is stopped waits for those before it, each of which makes a whole pass; that
comes to an end when nothing more is called.

## Main definitions

* `Polling.Alive` — how `running_`, the thread and the calls of `start` and `stop` belong
  together.
* `passes_in_sessions` — when the poll thread makes passes.
* `Polling.AtRest` — no call is in progress and there is no poll thread.
* `stop_comesToRest` — `stop` returns, and so does every other call.
-/

namespace Opencode.Opcua

open Opencode.Lib
open scoped BigOperators

namespace Polling

variable {Tid : Type} {p : PlcPoller} {env : ℕ → Moment}

/-! ## Sessions -/

/-- There is a thread while `running_` is set, and until it is joined. -/
structure Alive (s : Polling Tid) : Prop where
  starting : ∀ t, s.life = some (t, .starting) → s.running = true ∧ s.thread = none
  joining : ∀ t, s.life = some (t, .joining) → s.running = false
  idle : s.life = none → (s.running = true ↔ s.thread ≠ none) ∧ s.thread ≠ some .ended

/-- What the history of the poll thread is like: it was started and not joined since as long
as there is one; `running_` is not set after a `stop`; and a thread that is about to make a
pass then has made none since. -/
structure Sessions (s : Polling Tid) : Prop where
  started : s.thread ≠ none → Standing .start .joined s.log
  runs : s.running = true → s.thread ≠ none → ¬ Standing .stop .start s.log
  last : s.thread = some .locking → s.running = false →
    LifeEvent.pass ∉ sinceLast (· = .stop) s.log
  passes : Justified (fun before e => e = .pass →
    Standing .start .joined before ∧
      (Standing .stop .start before → .pass ∉ sinceLast (· = .stop) before)) s.log

theorem alive_start (m : ℕ) (onChange : Bool) : Alive (start m onChange : Polling Tid) where
  starting := by simp [start]
  joining := by simp [start]
  idle := by simp [start]

theorem sessions_start (m : ℕ) (onChange : Bool) : Sessions (start m onChange : Polling Tid) where
  started := by simp [start]
  runs := by simp [start]
  last := by simp [start]
  passes := by simp [start]

/-- The steps that leave the thread, `running_` and the calls of `start` and `stop` alone. -/
theorem Alive.of_eq {s s' : Polling Tid} (h : Alive s) (hlife : s'.life = s.life)
    (hrunning : s'.running = s.running) (hthread : s'.thread = s.thread) : Alive s' := by
  constructor
  · rw [hlife, hrunning, hthread]
    exact h.starting
  · rw [hlife, hrunning]
    exact h.joining
  · rw [hlife, hrunning, hthread]
    exact h.idle

/-- The thread goes on, and to its end only when it is waited for. -/
theorem Alive.goes {s s' : Polling Tid} (h : Alive s) {x y : ThreadPc} (hlife : s'.life = s.life)
    (hrunning : s'.running = s.running) (hx : s.thread = some x) (hy : s'.thread = some y)
    (hended : y = .ended → s.life ≠ none) : Alive s' := by
  constructor
  · intro t ht
    have hnone := (h.starting t (hlife ▸ ht)).2
    rw [hx] at hnone
    cases hnone
  · rw [hlife, hrunning]
    exact h.joining
  · rw [hlife, hrunning, hy]
    intro hnone
    have hrun := (h.idle hnone).1
    rw [hx] at hrun
    refine ⟨by simpa using hrun, ?_⟩
    rintro heq
    exact hended (Option.some.inj heq) hnone

theorem Sessions.of_eq {s s' : Polling Tid} (h : Sessions s) (hlog : s'.log = s.log)
    (hrunning : s'.running = s.running) (hthread : s'.thread = s.thread) : Sessions s' := by
  constructor
  · rw [hthread, hlog]
    exact h.started
  · rw [hthread, hrunning, hlog]
    exact h.runs
  · rw [hthread, hrunning, hlog]
    exact h.last
  · rw [hlog]
    exact h.passes

/-- The thread goes on, and to the mutex only while `running_` is set. -/
theorem Sessions.goes {s s' : Polling Tid} (h : Sessions s) {x y : ThreadPc}
    (hlog : s'.log = s.log) (hrunning : s'.running = s.running) (hx : s.thread = some x)
    (hy : s'.thread = some y) (hlocking : y = .locking → s.running = true) : Sessions s' := by
  have hsome : s.thread ≠ none := by simp [hx]
  constructor
  · rw [hlog]
    exact fun _ => h.started hsome
  · rw [hlog, hrunning]
    exact fun hrun _ => h.runs hrun hsome
  · rw [hy, hrunning]
    intro heq hrun
    rw [hlocking (Option.some.inj heq)] at hrun
    cases hrun
  · rw [hlog]
    exact h.passes

variable [DecidableEq Tid]

theorem Alive.step {s s' : Polling Tid} {l : PollLabel Tid} (h : Alive s) (hheld : Held s)
    (hs : Steps p env s l s') : Alive s' := by
  cases hs with
  | call | change | pollOnce | advance | leave | runs => exact h.of_eq rfl rfl rfl
  | pass hmutex hthread => exact h.goes rfl rfl hthread rfl (by simp)
  | sleep hmutex => exact h.goes rfl rfl (hheld.thread.mpr ⟨_, hmutex⟩) rfl (by simp)
  | @start t hfree hlife hrunning =>
      have hidle := (h.idle hlife).1
      refine ⟨fun _ _ => ⟨rfl, ?_⟩, by simp, by simp⟩
      simpa [hrunning] using hidle
  | @launch t hlife hthread =>
      have hrunning := (h.starting t hlife).1
      exact ⟨by simp, by simp, fun _ => ⟨by simp [hrunning], by simp⟩⟩
  | stop hfree hlife => exact ⟨by simp, fun _ _ => rfl, by simp⟩
  | @join t hlife hthread =>
      have hrunning := h.joining t hlife
      exact ⟨by simp, by simp, fun _ => ⟨by simp [hrunning], by simp⟩⟩
  | check hthread =>
      refine h.goes rfl rfl hthread rfl fun hended hlife => ?_
      have hrunning := (h.idle hlife).1.mpr (by simp [hthread])
      simp [hrunning] at hended
  | wake hthread => exact h.goes rfl rfl hthread rfl (by simp)

theorem Sessions.step {s s' : Polling Tid} {l : PollLabel Tid} (h : Sessions s) (hheld : Held s)
    (halive : Alive s) (hs : Steps p env s l s') : Sessions s' := by
  cases hs with
  | call | change | pollOnce | advance | leave | runs => exact h.of_eq rfl rfl rfl
  | pass hmutex hthread =>
      have hstarted := h.started (by simp [hthread])
      constructor
      · exact fun _ => standing_concat_iff.mpr (.inr ⟨hstarted, by simp⟩)
      · intro hrunning _ hstop
        rcases standing_concat_iff.mp hstop with heq | hstop
        · cases heq
        · exact h.runs hrunning (by simp [hthread]) hstop.1
      · simp
      · refine justified_concat.mpr ⟨h.passes, fun _ => ⟨hstarted, fun hstop => ?_⟩⟩
        refine h.last hthread ?_
        by_contra hrunning
        exact h.runs (by simpa using hrunning) (by simp [hthread]) hstop
  | sleep hmutex => exact h.goes rfl rfl (hheld.thread.mpr ⟨_, hmutex⟩) rfl (by simp)
  | start hfree hlife hrunning =>
      have hthread : s.thread = none := by simpa [hrunning] using (halive.idle hlife).1
      exact ⟨h.started, fun _ hsome => absurd hthread hsome, by simp, h.passes⟩
  | launch hlife hthread =>
      constructor
      · exact fun _ => standing_concat_iff.mpr (.inl rfl)
      · intro _ _ hstop
        rcases standing_concat_iff.mp hstop with heq | hstop
        · cases heq
        · exact hstop.2 rfl
      · simp
      · exact justified_concat.mpr ⟨h.passes, by simp⟩
  | stop hfree hlife =>
      constructor
      · exact fun hsome => standing_concat_iff.mpr (.inr ⟨h.started hsome, by simp⟩)
      · simp
      · simp
      · exact justified_concat.mpr ⟨h.passes, by simp⟩
  | join hlife hthread => exact ⟨by simp, by simp, by simp, justified_concat.mpr ⟨h.passes, by simp⟩⟩
  | check hthread =>
      refine h.goes rfl rfl hthread rfl fun hlocking => ?_
      by_contra hrunning
      simp [hrunning] at hlocking
  | wake hthread => exact h.goes rfl rfl hthread rfl (by simp)

/-- The thread, the mutex and the history belong together. -/
theorem alive_throughout (m : ℕ) (onChange : Bool) (ls : List (PollLabel Tid)) :
    Throughout (step p env) (fun s => Held s ∧ Alive s ∧ Sessions s) (start m onChange) ls := by
  refine throughout_of_step (fun s l s' h hs => ?_)
    ⟨held_start m onChange, alive_start m onChange, sessions_start m onChange⟩ ls
  obtain ⟨hheld, halive, hsessions⟩ := h
  have hsteps := step_steps hs
  exact ⟨hheld.step hsteps, halive.step hheld hsteps, hsessions.step hheld halive hsteps⟩

/-- **When the poll thread makes passes.**  In every run, every pass of the poll thread
begins after a `start` and before the next `stop` returns, and it is the first one after
the call of that `stop`, if there was one; and while the thread makes a pass, no `stop` has
returned since it was started. -/
theorem passes_in_sessions (m : ℕ) (onChange : Bool) (ls : List (PollLabel Tid)) :
    Throughout (step p env)
      (fun s =>
        Justified (fun before e => e = .pass →
          Standing .start .joined before ∧
            (Standing .stop .start before → .pass ∉ sinceLast (· = .stop) before)) s.log ∧
        ∀ pc, s.mutex = some (.thread, pc) → Standing .start .joined s.log)
      (start m onChange) ls := by
  refine (alive_throughout m onChange ls).imp fun s ⟨hheld, _, hsessions⟩ => ?_
  refine ⟨hsessions.passes, fun pc hmutex => hsessions.started ?_⟩
  rw [hheld.thread.mpr ⟨pc, hmutex⟩]
  simp

/-! ## What is left to do -/

end Polling

/-- The steps of the polls of groups: two for each item, and two for each group. -/
def costs (groups : List PollGroup) : ℕ := (groups.map fun g => 2 * g.items.length + 2).sum

/-- The steps of a pass that has come this far, the release of the mutex among them. -/
def PassPc.remaining : PassPc → ℕ
  | .between rest => costs rest + 1
  | .polling _ _ items rest => 2 * items.length + costs rest + 2
  | .putting _ _ _ _ items rest => 2 * items.length + costs rest + 3

/-- The steps that a group which is about to be added costs a pass. -/
def Ctl.adds : Ctl → ℕ
  | .waiting (.groups (.addGroup g)) => costs [g.toPollGroup]
  | _ => 0

def Ctl.passes : Ctl → ℕ
  | .waiting (.pollOnce _) => 1
  | _ => 0

def Ctl.changes : Ctl → ℕ
  | .waiting (.groups _) => 1
  | _ => 0

namespace ThreadPc

def passes : ThreadPc → ℕ
  | .locking => 1
  | _ => 0

/-- The steps of the thread until its end, without those of a pass. -/
def remaining : ThreadPc → ℕ
  | .ended => 0
  | .check => 1
  | .sleeping | .polling | .locking => 2

end ThreadPc

theorem costs_append (gs gs' : List PollGroup) : costs (gs ++ gs') = costs gs + costs gs' := by
  simp [costs]

theorem costs_le_of_sublist {gs gs' : List PollGroup} (h : gs.Sublist gs') :
    costs gs ≤ costs gs' :=
  (h.map _).sum_le_sum fun _ _ => Nat.zero_le _

/-- A pass costs no more than all groups. -/
theorem costs_visits_le (pass : Pass) (groups : List PacedGroup) :
    costs (pass.visits groups) ≤ costs (groups.map PacedGroup.toPollGroup) :=
  costs_le_of_sublist (List.filter_sublist.map _)

theorem costs_onFirst (name : String) {f : PacedGroup → PacedGroup}
    (hf : ∀ g, (f g).toPollGroup = g.toPollGroup) (groups : List PacedGroup) :
    costs ((onFirst name f groups).map PacedGroup.toPollGroup) =
      costs (groups.map PacedGroup.toPollGroup) := by
  congr 1
  induction groups with
  | nil => rfl
  | cons g gs ih =>
      rw [onFirst]
      split
      · simp [hf]
      · simp [ih]

/-- An operation adds no more than the group it adds. -/
theorem costs_apply_le (op : GroupOp) (groups : List PacedGroup) :
    costs ((op.apply groups).map PacedGroup.toPollGroup) ≤
      costs (groups.map PacedGroup.toPollGroup) + (Ctl.waiting (.groups op)).adds := by
  cases op with
  | addGroup g => simp [GroupOp.apply, costs_append, Ctl.adds]
  | removeGroup name =>
      exact (costs_le_of_sublist (List.filter_sublist.map _)).trans (Nat.le_add_right _ _)
  | setGroupInterval name ms => exact (costs_onFirst name (by simp) groups).le
  | setGroupEnabled name enabled => exact (costs_onFirst name (by simp) groups).le

namespace NodeCache

variable {ν : Type*} [Inhabited ν] {c : NodeCache ν}

theorem maxSize_of_putLocked {c' : NodeCache ν} {key : NodeKey} {val : CachedValue ν}
    {order : List NodeKey} {chs : List (Change ν)}
    (h : c.putLocked key val order = some (c', chs)) : c'.maxSize = c.maxSize := by
  unfold putLocked at h
  split at h
  · cases h
    rfl
  · obtain ⟨data, -, heq⟩ := Option.map_eq_some_iff.mp h
    cases heq
    rfl

/-- A bound that is not zero leaves an entry to evict. -/
theorem exists_putLocked (hmax : 1 ≤ c.maxSize) (key : NodeKey) (val : CachedValue ν)
    {order : List NodeKey} (horder : order.Perm c.data.keys) :
    ∃ c' chs, c.putLocked key val order = some (c', chs) := by
  unfold putLocked
  split
  · exact ⟨_, _, rfl⟩
  · by_cases hfull : c.maxSize ≤ c.data.entries.length
    · have hne : order ≠ [] := by
        rintro rfl
        have hlen := horder.length_eq
        have hsize := c.size_eq_length_keys
        simp only [size, List.length_nil] at hsize hlen
        omega
      obtain ⟨victim, -, hvictim, -⟩ := c.oldest_spec hne
      exact ⟨_, _, by simp only [makeRoom, hfull, if_true, hvictim, Option.map_some]; rfl⟩
    · exact ⟨_, _, by simp only [makeRoom, hfull, if_false, Option.map_some]; rfl⟩

end NodeCache

namespace Monitor

variable {p : PlcPoller} {env : ℕ → Moment}

/-- A step of a pass takes one off and leaves the groups and the bound of the cache. -/
theorem advance_spec {s s' : Monitor} {pc pc' : PassPc}
    (h : advance p env s pc = some (s', pc')) :
    pc'.remaining + 1 = pc.remaining ∧ s'.groups = s.groups ∧
      s'.cache.maxSize = s.cache.maxSize := by
  cases pc with
  | between rest =>
      cases rest with
      | nil => cases h
      | cons g rest =>
          cases h
          refine ⟨?_, rfl, rfl⟩
          simp only [PassPc.remaining, costs, List.map_cons, List.sum_cons]
          omega
  | polling name ok items rest =>
      cases items with
      | nil =>
          cases h
          exact ⟨by simp [PassPc.remaining], rfl, rfl⟩
      | cons item items =>
          obtain ⟨r, hr, heq⟩ := Option.map_eq_some_iff.mp h
          obtain ⟨cv, -, rfl⟩ := Option.map_eq_some_iff.mp hr
          cases heq
          refine ⟨?_, rfl, rfl⟩
          simp only [PassPc.remaining, List.length_cons]
          omega
  | putting name ok item val items rest =>
      obtain ⟨s₁, hs, heq⟩ := Option.map_eq_some_iff.mp h
      obtain ⟨⟨c, chs⟩, hput, rfl⟩ := Option.map_eq_some_iff.mp hs
      cases heq
      exact ⟨rfl, rfl, NodeCache.maxSize_of_putLocked hput⟩

/-- A pass that is not over goes on, if its reads return. -/
theorem exists_advance (hread : ∀ k item, ((env k).value item).isSome) {s : Monitor}
    (hmax : 1 ≤ s.cache.maxSize) {pc : PassPc} (hpc : pc ≠ .between []) :
    ∃ s' pc', advance p env s pc = some (s', pc') := by
  cases pc with
  | between rest =>
      cases rest with
      | nil => exact absurd rfl hpc
      | cons g rest => exact ⟨_, _, rfl⟩
  | polling name ok items rest =>
      cases items with
      | nil => exact ⟨_, _, rfl⟩
      | cons item items =>
          obtain ⟨cv, hcv⟩ := Option.isSome_iff_exists.mp (hread s.reads item)
          have hvalue : (env s.reads).client.read (env s.reads).service item.nodeId item.name =
              some cv := hcv
          simp only [advance, readItem, PlcPoller.readNode_eq, Moment.turn, hvalue]
          exact ⟨_, _, rfl⟩
  | putting name ok item val items rest =>
      obtain ⟨c, chs, hput⟩ := NodeCache.exists_putLocked hmax item.key val
        ((env s.reads).perm s.cache.data.keys)
      simp only [advance, storeItem, hput]
      exact ⟨_, _, rfl⟩

end Monitor

/-! ## Coming to rest -/

/-- A step that carries on a call, or a step of the poll thread. -/
def PollLabel.own {Tid : Type} : PollLabel Tid → Bool
  | .call _ _ | .start _ | .stop _ => false
  | _ => true

namespace Polling

variable {Tid : Type} {p : PlcPoller} {env : ℕ → Moment}

/-- No call is in progress, and there is no poll thread. -/
def AtRest (s : Polling Tid) : Prop :=
  (∀ t, s.ctl t = .idle) ∧ s.life = none ∧ s.thread = none

/-- The sum of something over the calls of these threads. -/
def total (f : Ctl → ℕ) (T : Finset Tid) (s : Polling Tid) : ℕ := ∑ t ∈ T, f (s.ctl t)

/-- What a pass costs at most, now or after the operations that are waiting. -/
def passCost (T : Finset Tid) (s : Polling Tid) : ℕ :=
  costs (s.mon.groups.map PacedGroup.toPollGroup) + total Ctl.adds T s + 2

/-- The passes that are waiting for the mutex. -/
def passes (T : Finset Tid) (s : Polling Tid) : ℕ :=
  total Ctl.passes T s + s.thread.elim 0 ThreadPc.passes

/-- The steps before the poller is at rest, without the passes that are waiting. -/
def rest (T : Finset Tid) (s : Polling Tid) : ℕ :=
  total Ctl.changes T s + s.thread.elim 0 ThreadPc.remaining + s.life.elim 0 (fun _ => 1) +
    s.mutex.elim 0 (fun x => x.2.remaining)

/-- The steps before the poller is at rest. -/
def remaining (T : Finset Tid) (s : Polling Tid) : ℕ := passes T s * passCost T s + rest T s

/-- A step that begins no pass. -/
theorem remaining_lt_of_rest {T : Finset Tid} {s s' : Polling Tid}
    (hpasses : passes T s' = passes T s) (hcost : passCost T s' ≤ passCost T s)
    (hrest : rest T s' < rest T s) : remaining T s' < remaining T s := by
  have hproduct := Nat.mul_le_mul hpasses.le hcost
  unfold remaining
  omega

/-- A pass begins, and is paid for. -/
theorem remaining_lt_of_pass {T : Finset Tid} {s s' : Polling Tid}
    (hpasses : passes T s' + 1 = passes T s) (hcost : passCost T s' = passCost T s)
    (hrest : rest T s' < rest T s + passCost T s) : remaining T s' < remaining T s := by
  have hproduct : passes T s * passCost T s = passes T s' * passCost T s + passCost T s := by
    rw [← hpasses, Nat.succ_mul]
  unfold remaining
  rw [hcost, hproduct]
  omega

/-- The poller is being stopped: no other threads than these are in calls, and the cache can
hold something. -/
structure Stopping (T : Finset Tid) (s : Polling Tid) : Prop where
  held : Held s
  alive : Alive s
  stopped : s.running = false
  room : 1 ≤ s.mon.cache.maxSize
  within : ∀ t ∉ T, s.ctl t = .idle

theorem Stopping.mem {T : Finset Tid} {s : Polling Tid} (h : Stopping T s) {t : Tid}
    (ht : s.ctl t ≠ .idle) : t ∈ T := by
  by_contra hT
  exact ht (h.within t hT)

variable [DecidableEq Tid]

theorem within_goto {T : Finset Tid} {s : Polling Tid} (h : ∀ t ∉ T, s.ctl t = .idle) {t : Tid}
    (ht : t ∈ T) (c : Ctl) (u : Tid) (hu : u ∉ T) : (s.goto t c).ctl u = .idle := by
  rw [ctl_goto, if_neg (ne_of_mem_of_not_mem ht hu).symm]
  exact h u hu

/-- A thread goes on with its call. -/
theorem total_goto (f : Ctl → ℕ) {T : Finset Tid} {t : Tid} (ht : t ∈ T) (s : Polling Tid)
    (c : Ctl) : total f T (s.goto t c) + f (s.ctl t) = total f T s + f c :=
  sum_update ht f s.ctl c

/-- Own steps go on stopping. -/
theorem Stopping.step {T : Finset Tid} {s s' : Polling Tid} {l : PollLabel Tid}
    (h : Stopping T s) (hown : l.own = true) (hs : Steps p env s l s') : Stopping T s' := by
  have hheld := h.held.step hs
  have halive := h.alive.step h.held hs
  cases hs with
  | call | runs | start | stop => cases hown
  | change hmutex hctl =>
      exact ⟨hheld, halive, h.stopped, h.room, within_goto h.within (h.mem (by simp [hctl])) _⟩
  | pollOnce hmutex hctl =>
      exact ⟨hheld, halive, h.stopped, h.room, within_goto h.within (h.mem (by simp [hctl])) _⟩
  | advance hmutex hadvance =>
      obtain ⟨-, -, hmax⟩ := Monitor.advance_spec hadvance
      exact ⟨hheld, halive, h.stopped, hmax ▸ h.room, h.within⟩
  | @leave t hmutex =>
      have hpolling := (h.held.caller t).mpr ⟨_, hmutex⟩
      exact ⟨hheld, halive, h.stopped, h.room,
        within_goto h.within (h.mem (by simp [hpolling])) _⟩
  | pass | sleep | launch | join | check | wake =>
      exact ⟨hheld, halive, h.stopped, h.room, h.within⟩

/-- Every own step takes something off. -/
theorem Stopping.remaining_lt {T : Finset Tid} {s s' : Polling Tid} {l : PollLabel Tid}
    (h : Stopping T s) (hown : l.own = true) (hs : Steps p env s l s') :
    remaining T s' < remaining T s := by
  cases hs with
  | call | runs | start | stop => cases hown
  | @change t op hmutex hctl =>
      have ht : t ∈ T := h.mem (by simp [hctl])
      have hadds := total_goto Ctl.adds ht s .idle
      have hpasses := total_goto Ctl.passes ht s .idle
      have hchanges := total_goto Ctl.changes ht s .idle
      have hcost := costs_apply_le op s.mon.groups
      have hidle : Ctl.idle.adds = 0 := rfl
      rw [hctl] at hadds hpasses hchanges
      simp only [Ctl.passes, Ctl.changes, add_zero] at hpasses hchanges
      refine remaining_lt_of_rest ?_ ?_ ?_
      · show total Ctl.passes T (s.goto t .idle) + _ = _
        rw [hpasses]
        rfl
      · show costs ((op.apply s.mon.groups).map PacedGroup.toPollGroup) +
          total Ctl.adds T (s.goto t .idle) + 2 ≤ passCost T s
        unfold passCost
        omega
      · show total Ctl.changes T (s.goto t .idle) + s.thread.elim 0 ThreadPc.remaining +
          s.life.elim 0 (fun _ => 1) + s.mutex.elim 0 (fun x => x.2.remaining) < rest T s
        unfold rest
        omega
  | @pollOnce t name hmutex hctl =>
      have ht : t ∈ T := h.mem (by simp [hctl])
      have hadds := total_goto Ctl.adds ht s .polling
      have hpasses := total_goto Ctl.passes ht s .polling
      have hchanges := total_goto Ctl.changes ht s .polling
      have hcost := costs_visits_le (.pollOnce name) s.mon.groups
      rw [hctl] at hadds hpasses hchanges
      simp only [Ctl.adds, Ctl.passes, Ctl.changes, add_zero] at hadds hpasses hchanges
      refine remaining_lt_of_pass ?_ ?_ ?_
      · show total Ctl.passes T (s.goto t .polling) + s.thread.elim 0 ThreadPc.passes + 1 =
          passes T s
        unfold passes
        omega
      · show _ + total Ctl.adds T (s.goto t .polling) + 2 = _
        rw [hadds]
        rfl
      · show total Ctl.changes T (s.goto t .polling) + s.thread.elim 0 ThreadPc.remaining +
          s.life.elim 0 (fun _ => 1) + (costs ((Pass.pollOnce name).visits s.mon.groups) + 1) <
          rest T s + passCost T s
        unfold rest passCost
        omega
  | pass hmutex hthread =>
      have hcost := costs_visits_le .pollThread s.mon.groups
      refine remaining_lt_of_pass ?_ rfl ?_
      · show total Ctl.passes T s + ThreadPc.polling.passes + 1 = passes T s
        rw [passes, hthread]
        rfl
      · show total Ctl.changes T s + ThreadPc.polling.remaining + s.life.elim 0 (fun _ => 1) +
          (costs (Pass.pollThread.visits s.mon.groups) + 1) < rest T s + passCost T s
        simp only [rest, passCost, hthread, Option.elim_some, ThreadPc.remaining]
        omega
  | @advance a pc pc' mon hmutex hadvance =>
      obtain ⟨hpc, hgroups, -⟩ := Monitor.advance_spec hadvance
      refine remaining_lt_of_rest rfl ?_ ?_
      · simp [passCost, total, hgroups]
      · simp only [rest, total, hmutex, Option.elim_some]
        omega
  | @leave t hmutex =>
      have hpolling := (h.held.caller t).mpr ⟨_, hmutex⟩
      have ht : t ∈ T := h.mem (by simp [hpolling])
      have hsame : ∀ f : Ctl → ℕ, f .idle = f .polling →
          total f T (s.goto t .idle) = total f T s := by
        intro f hf
        have hsum := total_goto f ht s .idle
        rw [hpolling, hf] at hsum
        omega
      refine remaining_lt_of_rest ?_ (le_of_eq ?_) ?_
      · show total Ctl.passes T (s.goto t .idle) + _ = _
        rw [hsame _ rfl]
        rfl
      · show _ + total Ctl.adds T (s.goto t .idle) + 2 = _
        rw [hsame _ rfl]
        rfl
      · show total Ctl.changes T (s.goto t .idle) + s.thread.elim 0 ThreadPc.remaining +
          s.life.elim 0 (fun _ => 1) + 0 < rest T s
        rw [hsame _ rfl, rest, hmutex]
        simp only [Option.elim_some, PassPc.remaining]
        omega
  | sleep hmutex =>
      have hthread := h.held.thread.mpr ⟨_, hmutex⟩
      refine remaining_lt_of_rest ?_ le_rfl ?_
      · simp [passes, total, hthread, ThreadPc.passes]
      · simp [rest, total, hthread, hmutex, ThreadPc.remaining, PassPc.remaining]
  | @launch t hlife hthread =>
      have hrunning := (h.alive.starting t hlife).1
      rw [h.stopped] at hrunning
      cases hrunning
  | @join t hlife hthread =>
      refine remaining_lt_of_rest ?_ le_rfl ?_
      · rcases hthread with hthread | hthread <;> simp [passes, total, hthread, ThreadPc.passes]
      · rcases hthread with hthread | hthread <;>
          simp [rest, total, hthread, hlife, ThreadPc.remaining]
  | check hthread =>
      refine remaining_lt_of_rest ?_ le_rfl ?_
      · simp [passes, total, hthread, h.stopped, ThreadPc.passes]
      · simp [rest, total, hthread, h.stopped, ThreadPc.remaining]
  | wake hthread =>
      refine remaining_lt_of_rest ?_ le_rfl ?_
      · simp [passes, total, hthread, ThreadPc.passes]
      · simp [rest, total, hthread, ThreadPc.remaining]

/-- Someone can go on: the holder of the mutex, or one that waits for it, or else the poll
thread or the one that waits for it. -/
theorem Stopping.moves (hread : ∀ k item, ((env k).value item).isSome) {T : Finset Tid}
    {s : Polling Tid} (h : Stopping T s) :
    AtRest s ∨ ∃ l s', PollLabel.own l = true ∧ s.step p env l = some s' := by
  cases hmutex : s.mutex with
  | some x =>
      obtain ⟨a, pc⟩ := x
      right
      by_cases hpc : pc = .between []
      · subst hpc
        exact ⟨.leave, _, rfl, by simp only [Polling.step, hmutex]; rfl⟩
      · obtain ⟨mon, pc', hadvance⟩ := Monitor.exists_advance (p := p) hread h.room hpc
        exact ⟨.advance, _, rfl, by simp only [Polling.step, hmutex, hadvance]; rfl⟩
  | none =>
      have hnone : s.mutex.isNone = true := by simp [hmutex]
      by_cases hidle : ∀ t, s.ctl t = .idle
      · cases hthread : s.thread with
        | none =>
            cases hlife : s.life with
            | none => exact .inl ⟨hidle, hlife, hthread⟩
            | some x =>
                obtain ⟨t, life⟩ := x
                right
                cases life with
                | starting =>
                    have hrunning := (h.alive.starting t hlife).1
                    rw [h.stopped] at hrunning
                    cases hrunning
                | joining =>
                    exact ⟨.join, _, rfl, by simp only [Polling.step, hlife, hthread]; rfl⟩
        | some pc =>
            right
            cases pc with
            | check => exact ⟨.check, _, rfl, if_pos hthread⟩
            | locking =>
                exact ⟨.enter .thread, _, rfl, by
                  simp only [Polling.step, hnone, if_true, enter, hthread]; rfl⟩
            | polling =>
                obtain ⟨pc, hpc⟩ := h.held.thread.mp hthread
                rw [hmutex] at hpc
                cases hpc
            | sleeping => exact ⟨.wake, _, rfl, if_pos hthread⟩
            | ended =>
                cases hlife : s.life with
                | none => exact absurd hthread (h.alive.idle hlife).2
                | some x =>
                    obtain ⟨t, life⟩ := x
                    cases life with
                    | starting =>
                        have hstarting := (h.alive.starting t hlife).2
                        rw [hthread] at hstarting
                        cases hstarting
                    | joining =>
                        exact ⟨.join, _, rfl, by simp only [Polling.step, hlife, hthread]; rfl⟩
      · obtain ⟨t, ht⟩ := not_forall.mp hidle
        right
        cases hctl : s.ctl t with
        | idle => exact absurd hctl ht
        | polling =>
            obtain ⟨pc, hpc⟩ := (h.held.caller t).mp hctl
            rw [hmutex] at hpc
            cases hpc
        | waiting c =>
            cases c with
            | groups op =>
                exact ⟨.enter (.caller t), _, rfl, by
                  simp only [Polling.step, hnone, if_true, enter, hctl]; rfl⟩
            | pollOnce name =>
                exact ⟨.enter (.caller t), _, rfl, by
                  simp only [Polling.step, hnone, if_true, enter, hctl]; rfl⟩

theorem settles (hread : ∀ k item, ((env k).value item).isSome) (T : Finset Tid) :
    Settles (step p env) PollLabel.own (fun _ => false) (Stopping T) AtRest (remaining T) where
  keeps s l s' h hl hs := by
    have hown : l.own = true := by simpa using hl
    exact h.step hown (step_steps hs)
  lowers s l s' h hown hs := h.remaining_lt hown (step_steps hs)
  calm_le s l s' h hcalm := by cases hcalm
  moves s h := h.moves hread

/-- Only so many threads are in calls, and the bound of the cache stays. -/
theorem within_throughout (m : ℕ) (onChange : Bool) (ls : List (PollLabel Tid)) :
    Throughout (step p env)
      (fun s => s.mon.cache.maxSize = m ∧ ∃ T : Finset Tid, ∀ t ∉ T, s.ctl t = .idle)
      (start m onChange) ls := by
  refine throughout_of_step (fun s l s' h hs => ?_) ⟨rfl, ∅, fun _ _ => rfl⟩ ls
  obtain ⟨hmax, T, hT⟩ := h
  have hinsert : ∀ t c, ∀ u ∉ insert t T, (s.goto t c).ctl u = .idle := by
    intro t c
    exact within_goto (fun u hu => hT u fun hmem => hu (Finset.mem_insert_of_mem hmem))
      (Finset.mem_insert_self t T) c
  cases step_steps hs with
  | @call t c | @change t | @pollOnce t | @leave t => exact ⟨hmax, insert t T, hinsert t _⟩
  | advance hmutex hadvance =>
      obtain ⟨-, -, hkeeps⟩ := Monitor.advance_spec hadvance
      exact ⟨hkeeps.trans hmax, T, hT⟩
  | pass | sleep | runs | start | launch | stop | join | check | wake => exact ⟨hmax, T, hT⟩

/-- **`stop` returns**, and so does every other call.  From every state of every run in
which `running_` is not set, if nothing more is called, the poller comes to rest, however
the threads are scheduled and whoever gets the mutex first; the poll thread, which may be
about to make a pass, is joined.  The reads must return, and the cache must be able to hold
something. -/
theorem stop_comesToRest {m : ℕ} (hm : 1 ≤ m)
    (hread : ∀ k item, ((env k).value item).isSome) (onChange : Bool)
    (ls : List (PollLabel Tid)) :
    Throughout (step p env)
      (fun s => s.running = false →
        ComesToRest (step p env) PollLabel.own (fun _ => false) AtRest s)
      (start m onChange) ls := by
  refine ((alive_throughout m onChange ls).and (within_throughout m onChange ls)).imp
    fun s h hstopped => ?_
  obtain ⟨⟨hheld, halive, -⟩, hmax, T, hT⟩ := h
  exact (settles hread T).comesToRest ⟨hheld, halive, hstopped, hmax ▸ hm, hT⟩

/-- The poll thread is stopped when it is about to make a pass, and another thread waits for
the mutex as well. -/
theorem stop_comesToRest_plcGroup :
    Throughout (step ⟨true, true⟩ plcMoment)
      (fun s => s.running = false →
        ComesToRest (step ⟨true, true⟩ plcMoment) PollLabel.own (fun _ => false) AtRest s)
      (start 10 true : Polling Bool)
      [.call true (.groups (.addGroup ⟨plcGroup, 1000, true⟩)), .enter (.caller true),
        .start false, .launch, .check, .call true (.pollOnce "plc"), .stop false] :=
  stop_comesToRest (by decide) (fun _ _ => by rfl) true _

end Polling
end Opencode.Opcua
