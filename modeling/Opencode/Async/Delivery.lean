import Opencode.Async.Handle

/-!
# The order of delivery

As long as no event is put aside, the events the loop handles, the one between its two
sections and the queue are, in this order, the posted events: nothing is lost, doubled or
overtaken, for any number of posters and whatever they interleave with.  A loop exits with
an empty queue.

## Main definitions

* `AsyncMachine.Defers` — the step puts an event aside.
* `Delivered` — the invariant behind the order; `Delivered.step` keeps it.
* `Delivered.drained` — what a loop that exits leaves behind.
-/

namespace Opencode.Async

open Opencode.Fsm Opencode.Lib

variable {S E A G B Tid : Type}

/-! ## The log -/

@[simp] theorem posts_append (log log' : List (Entry E)) :
    posts (log ++ log') = posts log ++ posts log' := by
  simp [posts]

@[simp] theorem dispatches_append (log log' : List (Entry E)) :
    dispatches (log ++ log') = dispatches log ++ dispatches log' := by
  simp [dispatches]

@[simp] theorem posts_posted (item : Item E) : posts [.posted item] = [item] := rfl

@[simp] theorem posts_dispatched (item : Item E) (b : Bool) :
    posts [.dispatched item b] = [] := rfl

@[simp] theorem dispatches_posted (item : Item E) : dispatches [.posted item] = [] := rfl

@[simp] theorem dispatches_dispatched (item : Item E) (b : Bool) :
    dispatches [.dispatched item b] = [item] := rfl

theorem mem_dispatches {item : Item E} {b : Bool} {log : List (Entry E)}
    (h : .dispatched item b ∈ log) : item ∈ dispatches log :=
  List.mem_filterMap.mpr ⟨_, h, rfl⟩

namespace AsyncMachine

/-- The step puts an event aside. -/
def Defers (s : AsyncMachine S E A G B Tid) : Label E Tid → Prop
  | .defer _ => s.processing.isSome = true
  | _ => False

instance (s : AsyncMachine S E A G B Tid) : ∀ l : Label E Tid, Decidable (s.Defers l)
  | .defer _ => inferInstanceAs (Decidable (s.processing.isSome = true))
  | .post _ _ | .notifyOne _ _ | .processDeferred _ | .start _ | .stop _ | .notifyAll _
  | .join _ | .loop _ | .wake _ => .isFalse id

/-! ## Order -/

/-- Nothing has been put aside; `current_processing_event_` is the event of the loop between
its sections; and the handled events, that one and the queue are the posts, which are
numbered in order. -/
structure Delivered (s : AsyncMachine S E A G B Tid) : Prop where
  deferred : s.deferred = []
  unmarked : ∀ item, .deferred item ∉ s.log
  current : ∀ i item, s.loop i = .popped item → s.processing = some item
  between : ∀ item, s.processing = some item → ∃ i, s.loop i = .popped item
  order : dispatches s.log ++ s.processing.toList ++ s.queue = posts s.log
  numbered : (posts s.log).map Item.occurrence = List.range (posts s.log).length

theorem Delivered.init (m : EventDrivenStateMachine S E A G B) :
    Delivered ({ machine := m } : AsyncMachine S E A G B Tid) := by
  constructor <;> simp [posts, dispatches]

/-- A step that leaves the queues and the log, and no loop between its sections. -/
theorem Delivered.frame {s s' : AsyncMachine S E A G B Tid} (h : Delivered s)
    (hdeferred : s'.deferred = s.deferred) (hlog : s'.log = s.log)
    (hproc : s'.processing = s.processing) (hqueue : s'.queue = s.queue)
    (hloop : ∀ i item, s'.loop i = .popped item ↔ s.loop i = .popped item) : Delivered s' where
  deferred := hdeferred.trans h.deferred
  unmarked := by rw [hlog]; exact h.unmarked
  current i item hi := hproc.trans (h.current i item ((hloop i item).mp hi))
  between item hp := by
    obtain ⟨i, hi⟩ := h.between item (hproc.symm.trans hp)
    exact ⟨i, (hloop i item).mpr hi⟩
  order := by rw [hlog, hproc, hqueue]; exact h.order
  numbered := by rw [hlog]; exact h.numbered

/-- A loop that was and is not between its sections moves on. -/
theorem popped_setLoop {s : AsyncMachine S E A G B Tid} {i : ℕ} {l : Loop E}
    (hi : ∀ item, s.loop i ≠ .popped item) (hl : ∀ item, l ≠ .popped item) (j : ℕ)
    (item : Item E) : (s.setLoop i l).loop j = .popped item ↔ s.loop j = .popped item := by
  by_cases hj : j = i
  · rw [hj, loop_setLoop_self]
    exact iff_of_false (hl item) (hi item)
  · rw [loop_setLoop_of_ne s l hj]

theorem popped_notifyAll (s : AsyncMachine S E A G B Tid) (i : ℕ) (item : Item E) :
    s.notifyAll.loop i = .popped item ↔ s.loop i = .popped item := by
  cases h : s.loop i <;> simp [notifyAll, h, Loop.notified]

/-- While the only live loop looks for work, no event is between the sections. -/
theorem Delivered.processing_eq_none {s : AsyncMachine S E A G B Tid} (h : Delivered s)
    (ho : Owned s) {i : ℕ} (hi : s.loop i = .ready) : s.processing = none := by
  cases hp : s.processing with
  | none => rfl
  | some item =>
      obtain ⟨j, hj⟩ := h.between item hp
      have hji : j = i := ho.alive_unique (by simp [hj]) (by simp [hi])
      rw [hji, hi] at hj
      cases hj

/-- A handled event has not been handled before. -/
theorem Delivered.fresh {s : AsyncMachine S E A G B Tid} (h : Delivered s) {item : Item E}
    (hp : s.processing = some item) :
    ∀ item' ∈ dispatches s.log, item'.occurrence ≠ item.occurrence := by
  have hnodup : ((posts s.log).map Item.occurrence).Nodup := h.numbered ▸ List.nodup_range
  rw [← h.order, hp] at hnodup
  simp only [Option.toList_some, List.append_assoc, List.map_append, List.nodup_append,
    List.singleton_append, List.map_cons] at hnodup
  intro item' hmem heq
  exact hnodup.2.2 _ (List.mem_map_of_mem hmem) _ List.mem_cons_self heq

theorem Delivered.post {s : AsyncMachine S E A G B Tid} (h : Delivered s) (event : E) :
    Delivered (s.postEvent event) where
  deferred := h.deferred
  unmarked item := by
    simp only [postEvent, List.mem_append, List.mem_singleton]
    simpa using h.unmarked item
  current := h.current
  between := h.between
  order := by
    have horder := h.order
    simp only [postEvent, posts_append, posts_posted, dispatches_append, dispatches_posted,
      List.append_nil]
    rw [← List.append_assoc, horder]
  numbered := by
    simp only [postEvent, posts_append, posts_posted, List.map_append, h.numbered, List.map_cons,
      List.map_nil, List.length_append, List.length_singleton, List.range_succ]

theorem Delivered.popped {s : AsyncMachine S E A G B Tid} (h : Delivered s) (ho : Owned s)
    {i : ℕ} {item : Item E} {rest : List (Item E)} (hl : s.loop i = .ready)
    (hq : s.queue = item :: rest) :
    Delivered { s.setLoop i (.popped item) with queue := rest, processing := some item } where
  deferred := h.deferred
  unmarked := h.unmarked
  current j item' hj := by
    by_cases hji : j = i
    · rw [hji] at hj
      have heq : Loop.popped item = .popped item' := (loop_setLoop_self s i _).symm.trans hj
      cases heq
      rfl
    · have hpop : s.loop j = .popped item' := (loop_setLoop_of_ne s _ hji).symm.trans hj
      exact absurd (ho.alive_unique (by simp [hpop]) (by simp [hl])) hji
  between item' hp := by
    cases hp
    exact ⟨i, loop_setLoop_self s i _⟩
  order := by
    have horder := h.order
    rw [h.processing_eq_none ho hl, hq] at horder
    simpa [setLoop] using horder
  numbered := h.numbered

theorem Delivered.handled [DecidableEq S] [DecidableEq E] {guards : G → Bool}
    {s : AsyncMachine S E A G B Tid} (h : Delivered s) (ho : Owned s) {i : ℕ} {item : Item E}
    (hl : s.loop i = .popped item) :
    Delivered ((s.handleEvent guards item).setLoop i .ready) where
  deferred := h.deferred
  unmarked item' := by
    simp only [setLoop, handleEvent, List.mem_append, List.mem_singleton]
    simpa using h.unmarked item'
  current j item' hj := by
    by_cases hji : j = i
    · rw [hji, loop_setLoop_self] at hj
      cases hj
    · rw [loop_setLoop_of_ne _ _ hji] at hj
      have hpop : s.loop j = .popped item' := hj
      exact absurd (ho.alive_unique (by simp [hpop]) (by simp [hl])) hji
  between item' hp := by cases hp
  order := by
    have horder := h.order
    rw [h.current i item hl] at horder
    simpa [setLoop, handleEvent] using horder
  numbered := by
    simpa [setLoop, handleEvent] using h.numbered

variable [DecidableEq S] [DecidableEq E] [DecidableEq Tid] {guards : G → Bool}

/-- Every step but a deferral keeps the order. -/
theorem Delivered.step {s s' : AsyncMachine S E A G B Tid} {l : Label E Tid} (h : Delivered s)
    (ho : Owned s) (hfree : ¬ s.Defers l) (hs : Steps guards s l s') : Delivered s' := by
  cases hs with
  | post event hc => exact (h.post event).frame rfl rfl rfl rfl fun _ _ => Iff.rfl
  | deferred hp => exact absurd (by simp [Defers, hp]) hfree
  | notDeferred _ | startRefused _ | stopRefused _ => exact h
  | requeued =>
      exact h.frame (by simp [processDeferredEvents, h.deferred])
        (by simp [processDeferredEvents, h.deferred]) rfl
        (by simp [processDeferredEvents, h.deferred]) fun _ _ => Iff.rfl
  | started hr =>
      refine h.frame rfl rfl rfl rfl fun i item => ?_
      by_cases hne : i = s.spawned
      · simp [hne, ho.fresh s.spawned le_rfl]
      · simp [hne]
  | unheard _ _ | stopped _ _ | notJoined _ _ | joined _ _ _ =>
      exact h.frame rfl rfl rfl rfl fun _ _ => Iff.rfl
  | notifyAll hc => exact h.frame rfl rfl rfl rfl (popped_notifyAll s)
  | woken _ hl | slept hl _ _ | left hl _ _ | wake hl =>
      exact h.frame rfl rfl rfl rfl (popped_setLoop (by simp [hl]) (by simp))
  | popped hl hq => exact h.popped ho hl hq
  | handled hl => exact h.handled ho hl

/-! ## Exit -/

/-- A loop only ends where it finds `running_` clear and the queue empty, and leaves the
log as it is. -/
theorem exits_of_steps {s s' : AsyncMachine S E A G B Tid} {l : Label E Tid} {i : ℕ}
    (hs : Steps guards s l s') (hi : s.loop i ≠ .exited) (hi' : s'.loop i = .exited) :
    s.loop i = .ready ∧ s.queue = [] ∧ s'.running = false ∧ s'.queue = [] ∧ s'.log = s.log := by
  cases hs with
  | @left j hl hq hr =>
      by_cases hij : i = j
      · exact ⟨hij ▸ hl, hq, hr, hq, rfl⟩
      · rw [loop_setLoop_of_ne _ _ hij] at hi'
        exact absurd hi' hi
  | woken hc hl | slept hl hq hr | popped hl hq | handled hl | wake hl =>
      exact absurd hi' (alive_setLoop (by simp) i hi)
  | notifyAll hc => exact absurd hi' (alive_notifyAll.mpr hi)
  | started hr =>
      by_cases hne : i = s.spawned
      · simp [hne] at hi'
      · exact absurd (by simpa [hne] using hi') hi
  | _ => exact absurd hi' hi

/-- While `running_` is set, a loop is alive. -/
theorem live_of_steps {s s' : AsyncMachine S E A G B Tid} {l : Label E Tid} (ho : Owned s)
    (hs : Steps guards s l s') (hr : s'.running = true) : ∃ i, s'.loop i ≠ .exited := by
  have hlive : s.running = true → ∃ i, s'.loop i ≠ .exited := by
    intro hrunning
    obtain ⟨i, -, hi⟩ := ho.running hrunning
    refine ⟨i, fun hi' => ?_⟩
    rw [(exits_of_steps hs hi hi').2.2.1] at hr
    cases hr
  cases hs with
  | started hr => exact ⟨s.spawned, by simp⟩
  | stopped hc _ => cases hr
  | _ => exact hlive hr

/-- When a loop exits, everything posted so far has been handled. -/
theorem Delivered.drained {s s' : AsyncMachine S E A G B Tid} {l : Label E Tid}
    (h : Delivered s) (ho : Owned s) (hs : Steps guards s l s') {i : ℕ}
    (hi : s.loop i ≠ .exited) (hi' : s'.loop i = .exited) :
    s'.queue = [] ∧ dispatches s'.log = posts s'.log := by
  obtain ⟨hl, hq, -, hq', hlog⟩ := exits_of_steps hs hi hi'
  have horder := h.order
  rw [h.processing_eq_none ho hl, hq] at horder
  exact ⟨hq', by rw [hlog]; simpa using horder⟩

/-- The log only grows. -/
theorem log_of_steps {s s' : AsyncMachine S E A G B Tid} {l : Label E Tid}
    (hs : Steps guards s l s') : s.log <+: s'.log := by
  cases hs <;> first
    | exact List.prefix_rfl
    | exact List.prefix_append _ _

end AsyncMachine

end Opencode.Async
