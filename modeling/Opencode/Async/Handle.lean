import Opencode.Async.Loop

/-!
# The handle of the processing thread

`start_async` decides by `running_` whether to create a loop, and `stop_async` clears
`running_` before it joins the old one.  In between the handle is still joinable: a
`start_async` that comes then assigns over it, which ends the program with two loops alive.
That is the only way: without it, every live loop is the one of the handle.

## Main definitions

* `Owned` — the invariant that ties the loops, the handle and the threads in `stop_async`
  together.
* `AsyncMachine.Collides` — the `start_async` that assigns over a joinable handle.
* `oneLoop_iff_not_collides` — exactly its absence keeps the program at one loop.
-/

namespace Opencode.Async

open Opencode.Fsm Opencode.Lib

namespace AsyncMachine

variable {S E A G B Tid : Type}

/-! ## Small facts about a step's effect -/

@[simp] theorem loop_setLoop_self (s : AsyncMachine S E A G B Tid) (i : ℕ) (l : Loop E) :
    (s.setLoop i l).loop i = l := by
  simp [setLoop]

theorem loop_setLoop_of_ne (s : AsyncMachine S E A G B Tid) {i j : ℕ} (l : Loop E) (h : j ≠ i) :
    (s.setLoop i l).loop j = s.loop j := by
  simp [setLoop, h]

/-- A live loop that moves on was alive before. -/
theorem alive_of_setLoop {s : AsyncMachine S E A G B Tid} {i : ℕ} {l : Loop E}
    (hi : s.loop i ≠ .exited) (j : ℕ) (hj : (s.setLoop i l).loop j ≠ .exited) :
    s.loop j ≠ .exited := by
  by_cases hji : j = i
  · exact hji ▸ hi
  · rwa [loop_setLoop_of_ne s l hji] at hj

/-- A loop that moves on without exiting leaves all loops alive that were. -/
theorem alive_setLoop {s : AsyncMachine S E A G B Tid} {i : ℕ} {l : Loop E}
    (hl : l ≠ .exited) (j : ℕ) (hj : s.loop j ≠ .exited) :
    (s.setLoop i l).loop j ≠ .exited := by
  by_cases hji : j = i
  · rwa [hji, loop_setLoop_self]
  · rwa [loop_setLoop_of_ne s l hji]

theorem alive_notifyAll {s : AsyncMachine S E A G B Tid} {i : ℕ} :
    s.notifyAll.loop i ≠ .exited ↔ s.loop i ≠ .exited := by
  cases h : s.loop i <;> simp [notifyAll, h, Loop.notified]

section

variable [DecidableEq Tid]

@[simp] theorem ctl_goto_self (s : AsyncMachine S E A G B Tid) (t : Tid) (c : Ctl) :
    (s.goto t c).ctl t = c := by
  simp [goto]

theorem ctl_goto_of_ne (s : AsyncMachine S E A G B Tid) {t u : Tid} (c : Ctl) (h : u ≠ t) :
    (s.goto t c).ctl u = s.ctl u := by
  simp [goto, h]

/-- A thread that stays in, or stays out of, the critical part of `stop_async`. -/
theorem isStopping_goto {s : AsyncMachine S E A G B Tid} {t : Tid} {c : Ctl}
    (h : c.isStopping = (s.ctl t).isStopping) (u : Tid) :
    ((s.goto t c).ctl u).isStopping = (s.ctl u).isStopping := by
  by_cases hu : u = t
  · rw [hu, ctl_goto_self, h]
  · rw [ctl_goto_of_ne s c hu]

end

/-! ## The invariant -/

/-- Only the loop of the handle is alive, and it is while `running_` is set; and
`running_` is clear beside a joinable handle exactly while one thread is in `stop_async`. -/
structure Owned (s : AsyncMachine S E A G B Tid) : Prop where
  fresh : ∀ i, s.spawned ≤ i → s.loop i = .exited
  alive : ∀ i, s.loop i ≠ .exited → s.handle = some i
  running : s.running = true → ∃ i, s.handle = some i ∧ s.loop i ≠ .exited
  stopping : ∀ t, (s.ctl t).isStopping = true → s.running = false ∧ s.handle.isSome
  unique : ∀ t u, (s.ctl t).isStopping = true → (s.ctl u).isStopping = true → t = u
  stopper : s.running = false → s.handle.isSome → ∃ t, (s.ctl t).isStopping = true

theorem Owned.init (m : EventDrivenStateMachine S E A G B) :
    Owned ({ machine := m } : AsyncMachine S E A G B Tid) := by
  constructor <;> simp [Ctl.isStopping]

/-- A step that keeps the handle and the threads in `stop_async`, creates no loop and ends
none while `running_` is set. -/
theorem Owned.frame {s s' : AsyncMachine S E A G B Tid} (h : Owned s)
    (hspawned : s'.spawned = s.spawned) (hhandle : s'.handle = s.handle)
    (hrunning : s'.running = s.running)
    (hctl : ∀ t, (s'.ctl t).isStopping = (s.ctl t).isStopping)
    (hold : ∀ i, s'.loop i ≠ .exited → s.loop i ≠ .exited)
    (hlive : s.running = true → ∀ i, s.loop i ≠ .exited → s'.loop i ≠ .exited) : Owned s' where
  fresh i hi := by
    by_contra hne
    exact hold i hne (h.fresh i (hspawned ▸ hi))
  alive i hi := hhandle.trans (h.alive i (hold i hi))
  running hr := by
    rw [hrunning] at hr
    obtain ⟨i, hi, hl⟩ := h.running hr
    exact ⟨i, hhandle.trans hi, hlive hr i hl⟩
  stopping t ht := by
    rw [hrunning, hhandle]
    exact h.stopping t (hctl t ▸ ht)
  unique t u ht hu := h.unique t u (hctl t ▸ ht) (hctl u ▸ hu)
  stopper hr hs := by
    rw [hrunning] at hr
    rw [hhandle] at hs
    simpa only [hctl] using h.stopper hr hs

/-- The two loops that are alive are the same one. -/
theorem Owned.alive_unique {s : AsyncMachine S E A G B Tid} (h : Owned s) {i j : ℕ}
    (hi : s.loop i ≠ .exited) (hj : s.loop j ≠ .exited) : i = j :=
  Option.some.inj ((h.alive i hi).symm.trans (h.alive j hj))

/-- A `start_async` that creates a loop while the handle is free. -/
theorem Owned.started {s : AsyncMachine S E A G B Tid} (h : Owned s) (hhandle : s.handle = none) :
    Owned { s with
      running := true
      loop := Function.update s.loop s.spawned .ready
      spawned := s.spawned + 1
      handle := some (s.handle.getD s.spawned)
      terminated := s.handle.isSome } := by
  have hnone : ∀ i, s.loop i = .exited := by
    intro i
    by_contra hi
    rw [h.alive i hi] at hhandle
    cases hhandle
  have hidle : ∀ t, (s.ctl t).isStopping = true → False := by
    intro t ht
    simpa [hhandle] using (h.stopping t ht).2
  refine ⟨fun i hi => ?_, fun i hi => ?_, fun _ => ⟨s.spawned, ?_, ?_⟩, fun t ht => ?_,
    fun t u ht => ?_, fun hr => ?_⟩
  · have hne : i ≠ s.spawned := by simp only at hi; omega
    simpa [hne] using hnone i
  · by_cases hne : i = s.spawned
    · simp [hne, hhandle]
    · simp [hne, hnone i] at hi
  · simp [hhandle]
  · simp
  · exact (hidle t ht).elim
  · exact (hidle t ht).elim
  · cases hr

variable [DecidableEq Tid]

/-- The section of `stop_async`: from here on there is one thread in it. -/
theorem Owned.stopped {s : AsyncMachine S E A G B Tid} (h : Owned s) {t : Tid}
    (hr : s.running = true) : Owned ({ s with running := false }.goto t .stopping) := by
  obtain ⟨i, hi, -⟩ := h.running hr
  have honly : ∀ u, (({ s with running := false }.goto t .stopping).ctl u).isStopping = true →
      u = t := by
    intro u hu
    by_contra hne
    rw [ctl_goto_of_ne _ _ hne] at hu
    rw [(h.stopping u hu).1] at hr
    cases hr
  refine ⟨h.fresh, h.alive, fun hr' => ?_, fun u _ => ⟨rfl, ?_⟩, fun u v hu hv => ?_,
    fun _ _ => ⟨t, ?_⟩⟩
  · cases hr'
  · simp [goto, hi]
  · exact (honly u hu).trans (honly v hv).symm
  · rw [ctl_goto_self]
    rfl

/-- The end of `stop_async`: the handle is free and nobody is in it. -/
theorem Owned.joined {s : AsyncMachine S E A G B Tid} (h : Owned s) {t : Tid} {i : ℕ}
    (hc : s.ctl t = .joining) (hh : s.handle = some i) (hl : s.loop i = .exited) :
    Owned ({ s with handle := none }.goto t .idle) := by
  have ht : (s.ctl t).isStopping = true := by rw [hc]; rfl
  have hnone : ∀ j, s.loop j = .exited := by
    intro j
    by_contra hj
    have heq := h.alive j hj
    rw [hh] at heq
    cases heq
    exact hj hl
  have hout : ∀ u, (({ s with handle := none }.goto t .idle).ctl u).isStopping = true → False := by
    intro u hu
    by_cases hne : u = t
    · rw [hne, ctl_goto_self] at hu
      cases hu
    · rw [ctl_goto_of_ne _ _ hne] at hu
      exact hne (h.unique u t hu ht)
  refine ⟨h.fresh, fun j hj => absurd (hnone j) hj, fun hr => ?_, fun u hu => (hout u hu).elim,
    fun u v hu => (hout u hu).elim, fun _ hs => ?_⟩
  · have hr' : s.running = true := hr
    rw [(h.stopping t ht).1] at hr'
    cases hr'
  · cases hs

variable [DecidableEq S] [DecidableEq E] {guards : G → Bool}

/-- A step keeps the invariant, unless it assigns over a joinable handle. -/
theorem Owned.step {s s' : AsyncMachine S E A G B Tid} {l : Label E Tid} (h : Owned s)
    (hterm : s'.terminated = false) (hs : Steps guards s l s') : Owned s' := by
  cases hs with
  | post event hc =>
      exact h.frame rfl rfl rfl (isStopping_goto (by simp [postEvent, hc, Ctl.isStopping]))
        (fun _ hi => hi) fun _ _ hi => hi
  | woken hc hl =>
      exact h.frame rfl rfl rfl (isStopping_goto (by simp [setLoop, hc, Ctl.isStopping]))
        (alive_of_setLoop (by simp [hl])) fun _ => alive_setLoop (by simp)
  | unheard hc hl =>
      exact h.frame rfl rfl rfl (isStopping_goto (by simp [hc, Ctl.isStopping]))
        (fun _ hi => hi) fun _ _ hi => hi
  | deferred hp | requeued =>
      exact h.frame rfl rfl rfl (fun _ => rfl) (fun _ hi => hi) fun _ _ hi => hi
  | notDeferred _ | startRefused _ | stopRefused _ => exact h
  | started hr => exact h.started (by simpa using hterm)
  | stopped hc hr => exact h.stopped hr
  | notifyAll hc =>
      exact h.frame rfl rfl rfl (isStopping_goto (by simp [notifyAll, hc, Ctl.isStopping]))
        (fun _ => alive_notifyAll.mp) fun _ _ => alive_notifyAll.mpr
  | notJoined hc hh =>
      have hsome := (h.stopping _ (by rw [hc]; rfl)).2
      rw [hh] at hsome
      cases hsome
  | joined hc hh hl => exact h.joined hc hh hl
  | slept hl _ _ | popped hl _ | wake hl =>
      exact h.frame rfl rfl rfl (fun _ => rfl) (alive_of_setLoop (by simp [hl]))
        fun _ => alive_setLoop (by simp)
  | left hl hq hr =>
      refine h.frame rfl rfl rfl (fun _ => rfl) (alive_of_setLoop (by simp [hl])) fun hr' => ?_
      rw [hr] at hr'
      cases hr'
  | handled hl =>
      exact h.frame rfl rfl rfl (fun _ => rfl)
        (alive_of_setLoop (s := s.handleEvent guards _) (by simp [handleEvent, hl]))
        fun _ => alive_setLoop (s := s.handleEvent guards _) (by simp)

/-! ## One loop -/

/-- The program has not been terminated, and no two loops are alive. -/
def OneLoop (s : AsyncMachine S E A G B Tid) : Prop :=
  s.terminated = false ∧
    ∀ i j, s.loop i ≠ .exited → s.loop j ≠ .exited → i = j

/-- The section of a `start_async` runs while another thread has cleared `running_` and
not yet joined. -/
def Collides (s : AsyncMachine S E A G B Tid) : Label E Tid → Prop
  | .start _ => ∃ u, (s.ctl u).isStopping = true
  | _ => False

/-- A `start_async` that collides assigns over a joinable handle. -/
theorem Owned.terminated_iff {s s' : AsyncMachine S E A G B Tid} {l : Label E Tid} (h : Owned s)
    (hterm : s.terminated = false) (hs : Steps guards s l s') :
    s'.terminated = false ↔ ¬ s.Collides l := by
  cases hs with
  | started hr =>
      have hiff : s.handle.isSome = true ↔ ∃ u, (s.ctl u).isStopping = true :=
        ⟨h.stopper hr, fun ⟨u, hu⟩ => (h.stopping u hu).2⟩
      simp only [Collides, ← hiff]
      simp
  | startRefused hr =>
      refine iff_of_true hterm ?_
      rintro ⟨u, hu⟩
      rw [(h.stopping u hu).1] at hr
      cases hr
  | _ => exact iff_of_true hterm id

/-- **At most one processing loop**, and no termination, exactly in the runs in which no
`start_async` comes between another thread's clearing of `running_` and the end of its
join. -/
theorem oneLoop_iff_not_collides (m : EventDrivenStateMachine S E A G B) (guards : G → Bool)
    (ls : List (Label E Tid)) :
    Throughout (step guards) OneLoop { machine := m } ls ↔
      Along (step guards) (fun s l => ¬ s.Collides l) { machine := m } ls := by
  refine throughout_iff_along (I := fun s => s.terminated = false → Owned s) ?_ ?_
    (fun _ => Owned.init m) ⟨rfl, fun i j hi => absurd rfl hi⟩
  · intro s l s' hI hstep hterm
    exact (hI (terminated_of_step hstep)).step hterm (step_steps hstep)
  · intro s l s' hI hQ hstep
    have howned := hI hQ.1
    have hs := step_steps hstep
    refine ⟨fun h => (howned.terminated_iff hQ.1 hs).mp h.1, fun h => ?_⟩
    have hterm := (howned.terminated_iff hQ.1 hs).mpr h
    exact ⟨hterm, fun i j => (howned.step hterm hs).alive_unique⟩

/-- One thread stops the machine, and another starts it before the first has joined. -/
theorem not_oneLoop_of_restart :
    ¬ Throughout (step fun _ : Unit => true) OneLoop
      ({ machine := ⟨(), ∅, ∅, ∅, []⟩ } : AsyncMachine Unit Unit Unit Unit Unit Bool)
      [.start true, .stop true, .start false] := by
  refine not_throughout_of_end (R := fun s => s.terminated = true) (by decide +kernel) ?_
  intro s hterm hone
  rw [hone.1] at hterm
  cases hterm

end AsyncMachine

end Opencode.Async
