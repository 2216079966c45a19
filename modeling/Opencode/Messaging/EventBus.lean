import Mathlib
import Opencode.Lib.History
import Opencode.Lib.Settle

/-!
# The event bus

Aggregates publish domain events on the bus, and the handlers that have subscribed are
called one after the other on the publishing thread.  The list of handlers is guarded by a
mutex; `publish` copies it under the mutex and calls the handlers of the copy without it.
So a handler may subscribe and publish itself, and other threads may at any time.

A section under the mutex, a call of a handler and its return are one step each.  A thread
uses the bus when it is outside of it or inside a handler.  A handler may also throw, as the
call of an empty function does at once.  The exception leaves the loop of `publish`, the
rest of the copy is not called, and whoever published has it: the handler of an outer
publication, which goes on or lets it pass, or the code outside the bus.  That the copy and
the entry of a handler find memory is taken for granted.

## Main definitions

* `EventBus` — the handlers, the publications in progress on each thread, and the log.
* `EventBus.step` — the step relation.
* `snapshots` — the publications of a log, each with the handlers subscribed before it.
* `called_iff_subscribed` — who is called for a publication.
* `publications_return` — every publication ends.
-/

namespace Opencode.Messaging

open Opencode.Lib
open scoped BigOperators

variable {H E Tid : Type}

/-- A `publish` in progress: its number, the event, the handlers of the copy that are still
to be called, and whether one of them is running. -/
structure Publication (H E : Type) where
  number : ℕ
  event : E
  rest : List H
  calling : Bool

/-- The steps of a publication: a call and a return for each handler, and its own return. -/
def Publication.remaining (p : Publication H E) : ℕ :=
  2 * p.rest.length + p.calling.toNat + 1

/-- What happens on the bus. -/
inductive Entry (H E Tid : Type)
  | subscribed (h : H)
  | published (t : Tid) (e : E)
  /-- A handler is called with the event of a publication. -/
  | called (number : ℕ) (h : H) (e : E)
  /-- An exception of a handler ends a publication. -/
  | threw (number : ℕ)

/-- The handlers subscribed, in order. -/
def subscribers (log : List (Entry H E Tid)) : List H :=
  log.filterMap fun
    | .subscribed h => some h
    | _ => none

/-- The handlers called for a publication, each with the event it was given. -/
def callsOf (number : ℕ) (log : List (Entry H E Tid)) : List (H × E) :=
  log.filterMap fun
    | .called n h e => if n = number then some (h, e) else none
    | _ => none

/-- The publications, each with its thread, its event and the handlers before it. -/
def snapshotsAfter (hs : List H) : List (Entry H E Tid) → List (Tid × E × List H)
  | [] => []
  | .subscribed h :: log => snapshotsAfter (hs ++ [h]) log
  | .published t e :: log => (t, e, hs) :: snapshotsAfter hs log
  | .called _ _ _ :: log => snapshotsAfter hs log
  | .threw _ :: log => snapshotsAfter hs log

def snapshots (log : List (Entry H E Tid)) : List (Tid × E × List H) := snapshotsAfter [] log

/-- Nothing is called for a publication once a handler has thrown in it. -/
def SilentOnceThrown (log : List (Entry H E Tid)) : Prop :=
  Justified (fun before entry => ∀ n h e, entry = .called n h e → .threw n ∉ before) log

/-- The bus, the publications in progress on each thread, the innermost first, and the
log. -/
structure EventBus (H E Tid : Type) where
  handlers : List H := []
  running : Tid → List (Publication H E) := fun _ => []
  /-- How many publications there were. -/
  published : ℕ := 0
  /-- Ghost: the history. -/
  log : List (Entry H E Tid) := []

inductive Label (H E Tid : Type)
  /-- The section of `subscribe`. -/
  | subscribe (t : Tid) (h : H)
  /-- The section of `publish`. -/
  | publish (t : Tid) (e : E)
  /-- The loop of `publish` calls the next handler. -/
  | call (t : Tid)
  /-- The handler returns. -/
  | finish (t : Tid)
  /-- The handler throws. -/
  | throw (t : Tid)
  /-- `publish` returns. -/
  | ret (t : Tid)

/-- A step of a publication in progress. -/
def Label.own : Label H E Tid → Bool
  | .call _ | .finish _ | .throw _ | .ret _ => true
  | _ => false

def Label.isSubscribe : Label H E Tid → Bool
  | .subscribe _ _ => true
  | _ => false

namespace EventBus

/-- The thread is outside the bus, or inside a handler. -/
def free (s : EventBus H E Tid) (t : Tid) : Bool :=
  match s.running t with
  | [] => true
  | p :: _ => p.calling

def subscribe (s : EventBus H E Tid) (h : H) : EventBus H E Tid :=
  { s with handlers := s.handlers ++ [h], log := s.log ++ [.subscribed h] }

variable [DecidableEq Tid]

def goto (s : EventBus H E Tid) (t : Tid) (ps : List (Publication H E)) : EventBus H E Tid :=
  { s with running := Function.update s.running t ps }

/-- The copy is taken. -/
def publish (s : EventBus H E Tid) (t : Tid) (e : E) : EventBus H E Tid :=
  { s.goto t (⟨s.published, e, s.handlers, false⟩ :: s.running t) with
    published := s.published + 1
    log := s.log ++ [.published t e] }

/-- The next step of the innermost publication of a thread, which must be at the call of a
handler, inside one, or at its end. -/
def resume (s : EventBus H E Tid) (t : Tid) : Label H E Tid → Option (EventBus H E Tid)
  | .call _ =>
      match s.running t with
      | ⟨n, e, h :: rest, false⟩ :: ps =>
          some { s.goto t (⟨n, e, rest, true⟩ :: ps) with log := s.log ++ [.called n h e] }
      | _ => none
  | .finish _ =>
      match s.running t with
      | ⟨n, e, rest, true⟩ :: ps => some (s.goto t (⟨n, e, rest, false⟩ :: ps))
      | _ => none
  | .throw _ =>
      match s.running t with
      | ⟨n, _, _, true⟩ :: ps => some { s.goto t ps with log := s.log ++ [.threw n] }
      | _ => none
  | .ret _ =>
      match s.running t with
      | ⟨_, _, [], false⟩ :: ps => some (s.goto t ps)
      | _ => none
  | _ => none

/-- **The step relation.** -/
def step (s : EventBus H E Tid) : Label H E Tid → Option (EventBus H E Tid)
  | .subscribe t h => if s.free t then some (s.subscribe h) else none
  | .publish t e => if s.free t then some (s.publish t e) else none
  | .call t => s.resume t (.call t)
  | .finish t => s.resume t (.finish t)
  | .throw t => s.resume t (.throw t)
  | .ret t => s.resume t (.ret t)

/-- The outcomes of a step. -/
inductive Steps (s : EventBus H E Tid) : Label H E Tid → EventBus H E Tid → Prop
  | subscribe {t : Tid} (h : H) : Steps s (.subscribe t h) (s.subscribe h)
  | publish {t : Tid} (e : E) : Steps s (.publish t e) (s.publish t e)
  | call {t : Tid} {n : ℕ} {e : E} {h : H} {rest : List H} {ps : List (Publication H E)}
      (hrunning : s.running t = ⟨n, e, h :: rest, false⟩ :: ps) :
      Steps s (.call t)
        { s.goto t (⟨n, e, rest, true⟩ :: ps) with log := s.log ++ [.called n h e] }
  | finish {t : Tid} {n : ℕ} {e : E} {rest : List H} {ps : List (Publication H E)}
      (hrunning : s.running t = ⟨n, e, rest, true⟩ :: ps) :
      Steps s (.finish t) (s.goto t (⟨n, e, rest, false⟩ :: ps))
  | throw {t : Tid} {n : ℕ} {e : E} {rest : List H} {ps : List (Publication H E)}
      (hrunning : s.running t = ⟨n, e, rest, true⟩ :: ps) :
      Steps s (.throw t) { s.goto t ps with log := s.log ++ [.threw n] }
  | ret {t : Tid} {n : ℕ} {e : E} {ps : List (Publication H E)}
      (hrunning : s.running t = ⟨n, e, [], false⟩ :: ps) :
      Steps s (.ret t) (s.goto t ps)

theorem step_steps {s s' : EventBus H E Tid} {l : Label H E Tid} (h : s.step l = some s') :
    Steps s l s' := by
  cases l with
  | subscribe t hd =>
      obtain ⟨-, hs⟩ := Option.ite_none_right_eq_some.mp h
      cases hs
      exact .subscribe hd
  | publish t e =>
      obtain ⟨-, hs⟩ := Option.ite_none_right_eq_some.mp h
      cases hs
      exact .publish e
  | call t =>
      simp only [step, resume] at h
      split at h <;> cases h
      exact .call ‹_›
  | finish t =>
      simp only [step, resume] at h
      split at h <;> cases h
      exact .finish ‹_›
  | throw t =>
      simp only [step, resume] at h
      split at h <;> cases h
      exact .throw ‹_›
  | ret t =>
      simp only [step, resume] at h
      split at h <;> cases h
      exact .ret ‹_›

end EventBus

/-! ## Logs -/

section Logs

variable (log : List (Entry H E Tid))

@[simp] theorem subscribers_concat_subscribed (h : H) :
    subscribers (log ++ [.subscribed h]) = subscribers log ++ [h] := by
  simp [subscribers]

@[simp] theorem subscribers_concat_published (t : Tid) (e : E) :
    subscribers (log ++ [.published t e]) = subscribers log := by
  simp [subscribers]

@[simp] theorem subscribers_concat_called (n : ℕ) (h : H) (e : E) :
    subscribers (log ++ [.called n h e]) = subscribers log := by
  simp [subscribers]

@[simp] theorem subscribers_concat_threw (n : ℕ) :
    subscribers (log ++ [.threw n]) = subscribers log := by
  simp [subscribers]

@[simp] theorem callsOf_concat_subscribed (n : ℕ) (h : H) :
    callsOf n (log ++ [.subscribed h]) = callsOf n log := by
  simp [callsOf]

@[simp] theorem callsOf_concat_published (n : ℕ) (t : Tid) (e : E) :
    callsOf n (log ++ [.published t e]) = callsOf n log := by
  simp [callsOf]

@[simp] theorem callsOf_concat_threw (n m : ℕ) :
    callsOf n (log ++ [.threw m]) = callsOf n log := by
  simp [callsOf]

theorem callsOf_concat_called (n m : ℕ) (h : H) (e : E) :
    callsOf n (log ++ [.called m h e]) =
      if m = n then callsOf n log ++ [(h, e)] else callsOf n log := by
  by_cases hm : m = n <;> simp [callsOf, hm]

/-- Later entries see the handlers of the earlier ones. -/
theorem snapshotsAfter_append (hs : List H) (log' : List (Entry H E Tid)) :
    snapshotsAfter hs (log ++ log') =
      snapshotsAfter hs log ++ snapshotsAfter (hs ++ subscribers log) log' := by
  induction log generalizing hs with
  | nil => simp [snapshotsAfter, subscribers]
  | cons entry log ih =>
      cases entry <;> simp [snapshotsAfter, subscribers, ih]

@[simp] theorem snapshots_concat_subscribed (h : H) :
    snapshots (log ++ [.subscribed h]) = snapshots log := by
  simp [snapshots, snapshotsAfter_append, snapshotsAfter]

@[simp] theorem snapshots_concat_published (t : Tid) (e : E) :
    snapshots (log ++ [.published t e]) = snapshots log ++ [(t, e, subscribers log)] := by
  simp [snapshots, snapshotsAfter_append, snapshotsAfter]

@[simp] theorem snapshots_concat_called (n : ℕ) (h : H) (e : E) :
    snapshots (log ++ [.called n h e]) = snapshots log := by
  simp [snapshots, snapshotsAfter_append, snapshotsAfter]

@[simp] theorem snapshots_concat_threw (n : ℕ) :
    snapshots (log ++ [.threw n]) = snapshots log := by
  simp [snapshots, snapshotsAfter_append, snapshotsAfter]

/-- A publication is one of those before, or it is the new one. -/
theorem snapshots_concat_cases {log : List (Entry H E Tid)} {t u : Tid} {e e' : E} {hs : List H}
    {n : ℕ} (h : (snapshots (log ++ [.published t e]))[n]? = some (u, e', hs)) :
    (snapshots log)[n]? = some (u, e', hs) ∨ n = (snapshots log).length ∧ t = u ∧ e = e' := by
  rw [snapshots_concat_published] at h
  rcases lt_or_ge n (snapshots log).length with hlt | hge
  · rw [List.getElem?_append_left hlt] at h
    exact .inl h
  · rw [List.getElem?_append_right hge, List.getElem?_singleton] at h
    right
    split at h
    case isTrue hzero =>
      cases h
      exact ⟨by omega, rfl, rfl⟩
    case isFalse => cases h

/-- A publication in the middle of a log. -/
theorem getElem?_snapshots (before after : List (Entry H E Tid)) (t : Tid) (e : E) :
    (snapshots (before ++ .published t e :: after))[(snapshots before).length]? =
      some (t, e, subscribers before) := by
  simp [snapshots, snapshotsAfter_append, snapshotsAfter]

@[simp] theorem silentOnceThrown_concat (entry : Entry H E Tid) :
    SilentOnceThrown (log ++ [entry]) ↔
      SilentOnceThrown log ∧ ∀ n h e, entry = .called n h e → .threw n ∉ log :=
  justified_concat

end Logs

namespace EventBus

variable [DecidableEq Tid]

/-! ## The invariant -/

/-- A publication in progress: what was called for it and what is still to be called are
the handlers before it. -/
def Tracks (log : List (Entry H E Tid)) (t : Tid) (p : Publication H E) : Prop :=
  ∃ hs, (snapshots log)[p.number]? = some (t, p.event, hs) ∧
    callsOf p.number log ++ p.rest.map (·, p.event) = hs.map (·, p.event)

/-- Every publication is in progress on its thread, once, or has called its handlers, or a
handler has thrown in it. -/
structure Faithful (s : EventBus H E Tid) : Prop where
  handlers : s.handlers = subscribers s.log
  published : s.published = (snapshots s.log).length
  tracks : ∀ t, ∀ p ∈ s.running t, Tracks s.log t p
  nested : ∀ t, (s.running t).Pairwise fun p q => q.number < p.number
  first : ∀ (n : ℕ) (t : Tid) (e : E) (hs : List H), (snapshots s.log)[n]? = some (t, e, hs) →
    callsOf n s.log <+: hs.map (·, e)
  done : ∀ (n : ℕ) (t : Tid) (e : E) (hs : List H), (snapshots s.log)[n]? = some (t, e, hs) →
    (∀ p ∈ s.running t, p.number ≠ n) → .threw n ∉ s.log → callsOf n s.log = hs.map (·, e)
  fresh : ∀ n, s.published ≤ n → callsOf n s.log = []
  thrown : ∀ n, .threw n ∈ s.log →
    n < s.published ∧ ∀ t, ∀ p ∈ s.running t, p.number ≠ n
  silent : SilentOnceThrown s.log

theorem mem_goto {s : EventBus H E Tid} {t u : Tid} {ps : List (Publication H E)}
    {p : Publication H E} (h : p ∈ (s.goto t ps).running u) :
    u = t ∧ p ∈ ps ∨ u ≠ t ∧ p ∈ s.running u := by
  by_cases hu : u = t
  · subst hu
    exact .inl ⟨rfl, by simpa [goto] using h⟩
  · exact .inr ⟨hu, by simpa [goto, hu] using h⟩

omit [DecidableEq Tid] in
/-- The publications in progress are among the first. -/
theorem Tracks.number_lt {log : List (Entry H E Tid)} {t : Tid} {p : Publication H E}
    (h : Tracks log t p) : p.number < (snapshots log).length := by
  obtain ⟨hs, hsnap, -⟩ := h
  exact (List.getElem?_eq_some_iff.mp hsnap).1

omit [DecidableEq Tid] in
/-- They are told apart by their numbers: other threads have others. -/
theorem Tracks.thread_eq {log : List (Entry H E Tid)} {t u : Tid} {p q : Publication H E}
    (hp : Tracks log t p) (hq : Tracks log u q) (h : p.number = q.number) : t = u := by
  obtain ⟨hs, hsnap, -⟩ := hp
  obtain ⟨hs', hsnap', -⟩ := hq
  rw [h, hsnap'] at hsnap
  exact (congrArg Prod.fst (Option.some.inj hsnap)).symm

omit [DecidableEq Tid] in
/-- What was called for it comes first. -/
theorem Tracks.first {log : List (Entry H E Tid)} {t u : Tid} {p : Publication H E} {e : E}
    {hs : List H} (h : Tracks log t p) (hsnap : (snapshots log)[p.number]? = some (u, e, hs)) :
    callsOf p.number log <+: hs.map (·, e) := by
  obtain ⟨hs', hsnap', hcalls⟩ := h
  obtain ⟨-, rfl, rfl⟩ : u = t ∧ e = p.event ∧ hs = hs' := by
    rw [hsnap] at hsnap'
    simpa using hsnap'
  exact ⟨p.rest.map (·, p.event), hcalls⟩

omit [DecidableEq Tid] in
theorem Faithful.init : Faithful ({} : EventBus H E Tid) where
  handlers := rfl
  published := rfl
  tracks := by simp
  nested := by simp
  first := by simp [snapshots, snapshotsAfter]
  done := by simp [snapshots, snapshotsAfter]
  fresh := fun _ _ => rfl
  thrown := by simp
  silent := justified_nil _

omit [DecidableEq Tid] in
theorem Faithful.subscribe {s : EventBus H E Tid} (h : Faithful s) (hd : H) :
    Faithful (s.subscribe hd) where
  handlers := by simp [EventBus.subscribe, h.handlers]
  published := by simp [EventBus.subscribe, h.published]
  tracks t p hp := by simpa [EventBus.subscribe, Tracks] using h.tracks t p hp
  nested := h.nested
  first n t e hs hn := by
    simp only [EventBus.subscribe, snapshots_concat_subscribed, callsOf_concat_subscribed] at hn ⊢
    exact h.first n t e hs hn
  done n t e hs hn hp hthrew := by
    simp only [EventBus.subscribe, snapshots_concat_subscribed, callsOf_concat_subscribed] at hn ⊢
    exact h.done n t e hs hn hp fun hmem => hthrew (List.mem_append_left _ hmem)
  fresh n hn := by
    simp only [EventBus.subscribe, callsOf_concat_subscribed] at hn ⊢
    exact h.fresh n hn
  thrown n hn := h.thrown n (by simpa [EventBus.subscribe] using hn)
  silent := by simp [EventBus.subscribe, h.silent]

theorem mem_publish {s : EventBus H E Tid} {t u : Tid} {e : E} {p : Publication H E}
    (hp : p ∈ (s.publish t e).running u) :
    u = t ∧ p = ⟨s.published, e, s.handlers, false⟩ ∨ p ∈ s.running u := by
  rcases mem_goto (s := s) hp with ⟨rfl, hp⟩ | ⟨-, hp⟩
  · exact (List.mem_cons.mp hp).imp_left fun h => ⟨rfl, h⟩
  · exact .inr hp

theorem mem_publish_self (s : EventBus H E Tid) (t : Tid) (e : E) :
    ⟨s.published, e, s.handlers, false⟩ ∈ (s.publish t e).running t := by
  simp [EventBus.publish, goto]

theorem mem_publish_of_mem {s : EventBus H E Tid} {u : Tid} {p : Publication H E}
    (hp : p ∈ s.running u) (t : Tid) (e : E) : p ∈ (s.publish t e).running u := by
  by_cases hu : u = t
  · subst hu
    simp [EventBus.publish, goto, hp]
  · simpa [EventBus.publish, goto, hu] using hp

theorem Faithful.publish {s : EventBus H E Tid} (h : Faithful s) (t : Tid) (e : E) :
    Faithful (s.publish t e) where
  handlers := by simp [EventBus.publish, goto, h.handlers]
  published := by simp [EventBus.publish, h.published]
  tracks u p hp := by
    rcases mem_publish hp with ⟨rfl, rfl⟩ | hp
    · refine ⟨subscribers s.log, ?_, ?_⟩
      · simp [EventBus.publish, h.published]
      · simp [EventBus.publish, h.fresh, h.handlers]
    · obtain ⟨hs, hsnap, hcalls⟩ := h.tracks u p hp
      refine ⟨hs, ?_, by simpa [EventBus.publish] using hcalls⟩
      simp only [EventBus.publish, snapshots_concat_published]
      rw [List.getElem?_append_left (h.tracks u p hp).number_lt, hsnap]
  nested u := by
    by_cases hu : u = t
    · subst hu
      have hnew : (s.publish u e).running u =
          ⟨s.published, e, s.handlers, false⟩ :: s.running u := by simp [EventBus.publish, goto]
      rw [hnew]
      refine List.pairwise_cons.mpr ⟨fun p hp => ?_, h.nested u⟩
      rw [h.published]
      exact (h.tracks u p hp).number_lt
    · simpa [EventBus.publish, goto, hu] using h.nested u
  first n u e' hs hn := by
    simp only [EventBus.publish, callsOf_concat_published] at hn ⊢
    cases snapshots_concat_cases hn with
    | inl hold => exact h.first n u e' hs hold
    | inr hnew =>
        rw [h.fresh n (h.published.trans hnew.1.symm).le]
        exact List.nil_prefix
  done n u e' hs hn hidle hthrew := by
    simp only [EventBus.publish, callsOf_concat_published] at hn ⊢
    cases snapshots_concat_cases hn with
    | inl hold =>
        apply h.done n u e' hs hold
        · exact fun p hp => hidle p (mem_publish_of_mem hp t e)
        · exact fun hmem => hthrew (List.mem_append_left _ hmem)
    | inr hnew =>
        -- the new publication is in progress
        obtain ⟨hnum, rfl, -⟩ := hnew
        have hne := hidle _ (s.mem_publish_self t e)
        exact absurd (h.published.trans hnum.symm) hne
  fresh n hn := by
    simp only [EventBus.publish, callsOf_concat_published] at hn ⊢
    exact h.fresh n (Nat.le_of_succ_le hn)
  thrown n hn := by
    obtain ⟨hlt, hidle⟩ := h.thrown n (by simpa [EventBus.publish] using hn)
    refine ⟨Nat.lt_succ_of_lt hlt, fun u p hp => ?_⟩
    rcases mem_publish hp with ⟨-, rfl⟩ | hp
    · exact hlt.ne'
    · exact hidle u p hp
  silent := by simp [EventBus.publish, h.silent]

/-- What a step of the innermost publication of a thread does: the publication moves on, or
it ends, with all its handlers called or by the exception of one. -/
structure Advance (s : EventBus H E Tid) (t : Tid) (p : Publication H E)
    (ps qs : List (Publication H E)) (log : List (Entry H E Tid)) : Prop where
  running : s.running t = p :: ps
  subs : subscribers log = subscribers s.log
  snaps : snapshots log = snapshots s.log
  calls : ∀ n, n ≠ p.number → callsOf n log = callsOf n s.log
  silent : SilentOnceThrown log
  old : ∀ n, .threw n ∈ s.log → .threw n ∈ log
  new : ∀ n, .threw n ∈ log → .threw n ∈ s.log ∨ n = p.number ∧ qs = ps
  ends : qs = ps ∧ callsOf p.number log = callsOf p.number s.log ∧
      (.threw p.number ∈ log ∨ p.rest = []) ∨
    ∃ q, qs = q :: ps ∧ q.number = p.number ∧ Tracks log t q

section Advance

variable {s : EventBus H E Tid} {t u : Tid} {p q : Publication H E}
  {ps qs : List (Publication H E)} {log : List (Entry H E Tid)}

omit [DecidableEq Tid] in
theorem Advance.mem (a : Advance s t p ps qs log) : p ∈ s.running t := by
  rw [a.running]
  exact List.mem_cons_self

omit [DecidableEq Tid] in
/-- The publications around it have smaller numbers. -/
theorem Advance.lt (a : Advance s t p ps qs log) (h : Faithful s) (hq : q ∈ ps) :
    q.number < p.number := by
  have hnested := h.nested t
  rw [a.running] at hnested
  exact (List.pairwise_cons.mp hnested).1 q hq

/-- Afterwards a publication in progress is the one that moved on, or another one, which has
another number. -/
theorem Advance.cases (a : Advance s t p ps qs log) (h : Faithful s)
    (hmem : q ∈ (s.goto t qs).running u) :
    u = t ∧ qs = q :: ps ∧ q.number = p.number ∧ Tracks log t q ∨
      q ∈ s.running u ∧ q.number ≠ p.number := by
  have hbelow : q ∈ ps → q ∈ s.running t ∧ q.number ≠ p.number := by
    intro hq
    refine ⟨?_, (a.lt h hq).ne⟩
    rw [a.running]
    exact List.mem_cons_of_mem _ hq
  rcases mem_goto hmem with ⟨rfl, hq⟩ | ⟨hu, hq⟩
  · rcases a.ends with ⟨rfl, -⟩ | ⟨q', rfl, hnum, htracks⟩
    · exact .inr (hbelow hq)
    · cases List.mem_cons.mp hq with
      | inl heq => exact .inl ⟨rfl, by rw [heq], heq ▸ hnum, heq ▸ htracks⟩
      | inr hq => exact .inr (hbelow hq)
  · exact .inr ⟨hq, fun heq => hu ((h.tracks u q hq).thread_eq (h.tracks t p a.mem) heq)⟩

/-- The other ones stay in progress. -/
theorem Advance.keeps (a : Advance s t p ps qs log) (hq : q ∈ s.running u)
    (hne : q.number ≠ p.number) : q ∈ (s.goto t qs).running u := by
  by_cases hu : u = t
  · subst hu
    rw [a.running] at hq
    have hps : q ∈ ps := (List.mem_cons.mp hq).resolve_left fun heq => hne (congrArg _ heq)
    have hqs : q ∈ qs := by
      rcases a.ends with ⟨rfl, -⟩ | ⟨q', rfl, -, -⟩
      · exact hps
      · exact List.mem_cons_of_mem _ hps
    simpa [goto] using hqs
  · simpa [goto, hu] using hq

theorem Advance.nested (a : Advance s t p ps qs log) (h : Faithful s) (u : Tid) :
    ((s.goto t qs).running u).Pairwise fun p q => q.number < p.number := by
  have hnested := h.nested u
  by_cases hu : u = t
  · subst hu
    rw [a.running] at hnested
    have hps := (List.pairwise_cons.mp hnested).2
    have hqs : qs.Pairwise fun p q => q.number < p.number := by
      rcases a.ends with ⟨rfl, -⟩ | ⟨q', rfl, hnum, -⟩
      · exact hps
      · exact List.pairwise_cons.mpr ⟨fun q hq => hnum ▸ a.lt h hq, hps⟩
    simpa [goto] using hqs
  · simpa [goto, hu] using hnested

omit [DecidableEq Tid] in
theorem Advance.first (a : Advance s t p ps qs log) (h : Faithful s) {n : ℕ} {e : E}
    {hs : List H} (hn : (snapshots log)[n]? = some (u, e, hs)) :
    callsOf n log <+: hs.map (·, e) := by
  have hn' : (snapshots s.log)[n]? = some (u, e, hs) := a.snaps ▸ hn
  by_cases hnum : n = p.number
  · subst hnum
    rcases a.ends with ⟨-, hsame, -⟩ | ⟨q, -, hq, htracks⟩
    · rw [hsame]
      exact h.first _ u e hs hn'
    · rw [← hq] at hn ⊢
      exact htracks.first hn
  · rw [a.calls n hnum]
    exact h.first n u e hs hn'

/-- Only the exception of a handler ends a publication before all are called. -/
theorem Advance.done (a : Advance s t p ps qs log) (h : Faithful s) {n : ℕ} {e : E}
    {hs : List H} (hn : (snapshots log)[n]? = some (u, e, hs))
    (hidle : ∀ q ∈ (s.goto t qs).running u, q.number ≠ n) (hthrew : .threw n ∉ log) :
    callsOf n log = hs.map (·, e) := by
  rw [a.snaps] at hn
  by_cases hnum : n = p.number
  · subst hnum
    obtain ⟨hs', hsnap, htracks⟩ := h.tracks t p a.mem
    obtain ⟨rfl, rfl, rfl⟩ : t = u ∧ p.event = e ∧ hs' = hs := by
      rw [hsnap] at hn
      simpa using hn
    rcases a.ends with ⟨-, hsame, hmem | hrest⟩ | ⟨q, rfl, hq, -⟩
    · exact absurd hmem hthrew
    · rwa [hsame, ← List.append_nil (callsOf _ _), ← List.map_nil, ← hrest]
    · exact absurd hq (hidle q (by simp [goto]))
  · rw [a.calls n hnum]
    refine h.done n u e hs hn (fun q hq heq => ?_) fun hmem => hthrew (a.old n hmem)
    exact hidle q (a.keeps hq fun hq => hnum (heq.symm.trans hq)) heq

/-- A publication in which a handler has thrown is over. -/
theorem Advance.thrown (a : Advance s t p ps qs log) (h : Faithful s) {n : ℕ}
    (hmem : .threw n ∈ log) :
    n < s.published ∧ ∀ u, ∀ q ∈ (s.goto t qs).running u, q.number ≠ n := by
  cases a.new n hmem with
  | inl hold =>
      obtain ⟨hlt, hidle⟩ := h.thrown n hold
      refine ⟨hlt, fun u q hq => ?_⟩
      rcases a.cases h hq with ⟨-, -, hnum, -⟩ | ⟨hq, -⟩
      · exact hnum ▸ hidle t p a.mem
      · exact hidle u q hq
  | inr hthrows =>
      obtain ⟨rfl, hqs⟩ := hthrows
      refine ⟨(h.tracks t p a.mem).number_lt.trans_eq h.published.symm, fun u q hq => ?_⟩
      rcases a.cases h hq with ⟨-, hcons, -, -⟩ | ⟨-, hne⟩
      · exact absurd (hcons.symm.trans hqs) (List.cons_ne_self q ps)
      · exact hne

theorem Faithful.advance (h : Faithful s) (a : Advance s t p ps qs log) :
    Faithful { s.goto t qs with log := log } where
  handlers := h.handlers.trans a.subs.symm
  published := h.published.trans (congrArg List.length a.snaps.symm)
  tracks u q hq := by
    rcases a.cases h hq with ⟨rfl, -, -, htracks⟩ | ⟨hmem, hne⟩
    · exact htracks
    · obtain ⟨hs, hsnap, hcalls⟩ := h.tracks u q hmem
      exact ⟨hs, by rw [a.snaps, hsnap], by rw [a.calls _ hne, hcalls]⟩
  nested := a.nested h
  first _ _ _ _ hn := a.first h hn
  done _ _ _ _ hn hidle hthrew := a.done h hn hidle hthrew
  fresh n hn := by
    have hlt := (h.tracks t p a.mem).number_lt
    have hn : s.published ≤ n := hn
    have hne : n ≠ p.number := by
      have hpublished := h.published
      omega
    exact (a.calls n hne).trans (h.fresh n hn)
  thrown _ hmem := a.thrown h hmem
  silent := a.silent

end Advance

omit [DecidableEq Tid] in
/-- The next handler is called. -/
theorem Advance.of_call {s : EventBus H E Tid} (h : Faithful s) {t : Tid} {n : ℕ} {e : E} {hd : H}
    {rest : List H} {ps : List (Publication H E)}
    (hrunning : s.running t = ⟨n, e, hd :: rest, false⟩ :: ps) :
    Advance s t ⟨n, e, hd :: rest, false⟩ ps (⟨n, e, rest, true⟩ :: ps)
      (s.log ++ [.called n hd e]) := by
  have hmem : ⟨n, e, hd :: rest, false⟩ ∈ s.running t := by
    rw [hrunning]
    exact List.mem_cons_self
  obtain ⟨hs, hsnap, hcalls⟩ := h.tracks t _ hmem
  have htracks : Tracks (s.log ++ [.called n hd e]) t ⟨n, e, rest, true⟩ :=
    ⟨hs, by simpa using hsnap, by simpa [callsOf_concat_called] using hcalls⟩
  have hsilent : SilentOnceThrown (s.log ++ [.called n hd e]) := by
    apply (silentOnceThrown_concat _ _).mpr
    refine ⟨h.silent, fun m hd' e' heq hthrew => ?_⟩
    cases heq
    exact (h.thrown n hthrew).2 t _ hmem rfl
  exact {
    running := hrunning
    subs := by simp
    snaps := by simp
    calls := fun m hm => (callsOf_concat_called _ _ _ _ _).trans (if_neg (Ne.symm hm))
    silent := hsilent
    old := by simp
    new := by simp
    ends := .inr ⟨_, rfl, rfl, htracks⟩ }

omit [DecidableEq Tid] in
/-- A handler throws. -/
theorem Advance.of_throw {s : EventBus H E Tid} (h : Faithful s) {t : Tid} {p : Publication H E}
    {ps : List (Publication H E)} (hrunning : s.running t = p :: ps) :
    Advance s t p ps ps (s.log ++ [.threw p.number]) where
  running := hrunning
  subs := by simp
  snaps := by simp
  calls := by simp
  silent := by simp [h.silent]
  old n hn := List.mem_append_left _ hn
  new := by simp
  ends := .inl ⟨rfl, by simp, .inl (by simp)⟩

omit [DecidableEq Tid] in
/-- A handler returns, or `publish` does. -/
theorem Advance.of_return {s : EventBus H E Tid} (h : Faithful s) {t : Tid} {p : Publication H E}
    {ps qs : List (Publication H E)} (hrunning : s.running t = p :: ps)
    (hends : qs = ps ∧ p.rest = [] ∨ qs = { p with calling := false } :: ps) :
    Advance s t p ps qs s.log where
  running := hrunning
  subs := rfl
  snaps := rfl
  calls _ _ := rfl
  silent := h.silent
  old _ := id
  new _ := .inl
  ends := by
    cases hends with
    | inl hret => exact .inl ⟨hret.1, rfl, .inr hret.2⟩
    | inr hfinish =>
        exact .inr ⟨_, hfinish, rfl, h.tracks t p (by rw [hrunning]; exact List.mem_cons_self)⟩

theorem Faithful.step {s s' : EventBus H E Tid} {l : Label H E Tid} (h : Faithful s)
    (hs : s.step l = some s') : Faithful s' := by
  cases step_steps hs with
  | subscribe hd => exact h.subscribe hd
  | publish e => exact h.publish _ e
  | call hrunning => exact h.advance (.of_call h hrunning)
  | finish hrunning => exact h.advance (.of_return h hrunning (.inr rfl))
  | throw hrunning => exact h.advance (.of_throw h hrunning)
  | ret hrunning => exact h.advance (.of_return h hrunning (.inl ⟨rfl, rfl⟩))

/-- **Who is called for a publication.**  In every run, for every publication: the handlers
called for it are the first ones of those subscribed before it, in the order in which they
subscribed, each once and with its event, and all of them when it is no longer in progress
on its thread, unless one of them threw.  Once one has, no other is called.  Whatever is
subscribed and published meanwhile, by handlers or other threads, makes no difference. -/
theorem called_iff_subscribed (ls : List (Label H E Tid)) :
    Throughout EventBus.step
      (fun s =>
        (∀ before t e after, s.log = before ++ .published t e :: after →
          let n := (snapshots before).length
          let due := (subscribers before).map (·, e)
          callsOf n s.log <+: due ∧
            ((∀ p ∈ s.running t, p.number ≠ n) → .threw n ∉ s.log → callsOf n s.log = due)) ∧
        SilentOnceThrown s.log)
      ({} : EventBus H E Tid) ls := by
  refine (throughout_of_step (fun s l s' h hs => h.step hs) Faithful.init ls).imp ?_
  refine fun s h => ⟨fun before t e after hlog => ?_, h.silent⟩
  intro n due
  have hsnap : (snapshots s.log)[n]? = some (t, e, subscribers before) := by
    rw [hlog]
    exact getElem?_snapshots before after t e
  exact ⟨h.first n t e _ hsnap, h.done n t e _ hsnap⟩

/-! ## Publications return -/

/-- The steps of the publications of these threads. -/
def remaining (T : Finset Tid) (s : EventBus H E Tid) : ℕ :=
  ∑ t ∈ T, ((s.running t).map Publication.remaining).sum

/-- Outside these threads nothing is published. -/
def Within (T : Finset Tid) (s : EventBus H E Tid) : Prop := ∀ t ∉ T, s.running t = []

omit [DecidableEq Tid] in
theorem Within.mem {T : Finset Tid} {s : EventBus H E Tid} (h : Within T s) {t : Tid}
    (ht : s.running t ≠ []) : t ∈ T := by
  by_contra hT
  exact ht (h t hT)

theorem Within.goto {T : Finset Tid} {s : EventBus H E Tid} (h : Within T s) {t : Tid}
    (ht : t ∈ T) (ps : List (Publication H E)) : Within T (s.goto t ps) := by
  intro u hu
  exact (Function.update_of_ne (ne_of_mem_of_not_mem ht hu).symm _ _).trans (h u hu)

/-- The publications of one thread go on. -/
theorem sum_goto {T : Finset Tid} {t : Tid} (ht : t ∈ T) (s : EventBus H E Tid)
    (ps : List (Publication H E)) :
    remaining T (s.goto t ps) + ((s.running t).map Publication.remaining).sum =
      remaining T s + (ps.map Publication.remaining).sum :=
  sum_update ht (fun ps => (ps.map Publication.remaining).sum) s.running ps

/-- Every step of a publication leaves less to do, on the same threads. -/
theorem remaining_lt {T : Finset Tid} {s s' : EventBus H E Tid} {l : Label H E Tid}
    (hT : Within T s) (hown : l.own = true) (hs : Steps s l s') :
    Within T s' ∧ remaining T s' < remaining T s := by
  cases hs with
  | subscribe | publish => cases hown
  | @call t n e h rest ps hrunning =>
      have ht : t ∈ T := hT.mem (by simp [hrunning])
      have hsum := sum_goto ht s (⟨n, e, rest, true⟩ :: ps)
      refine ⟨hT.goto ht _, ?_⟩
      simp only [hrunning, List.map_cons, List.sum_cons, Publication.remaining, List.length_cons,
        Bool.toNat_true, Bool.toNat_false] at hsum
      show remaining T (s.goto t (⟨n, e, rest, true⟩ :: ps)) < remaining T s
      omega
  | @finish t n e rest ps hrunning =>
      have ht : t ∈ T := hT.mem (by simp [hrunning])
      have hsum := sum_goto ht s (⟨n, e, rest, false⟩ :: ps)
      refine ⟨hT.goto ht _, ?_⟩
      simp only [hrunning, List.map_cons, List.sum_cons, Publication.remaining,
        Bool.toNat_true, Bool.toNat_false] at hsum
      omega
  | @throw t n e rest ps hrunning =>
      have ht : t ∈ T := hT.mem (by simp [hrunning])
      have hsum := sum_goto ht s ps
      refine ⟨hT.goto ht _, ?_⟩
      simp only [hrunning, List.map_cons, List.sum_cons, Publication.remaining] at hsum
      show remaining T (s.goto t ps) < remaining T s
      omega
  | @ret t n e ps hrunning =>
      have ht : t ∈ T := hT.mem (by simp [hrunning])
      have hsum := sum_goto ht s ps
      refine ⟨hT.goto ht _, ?_⟩
      simp only [hrunning, List.map_cons, List.sum_cons, Publication.remaining,
        List.length_nil, Bool.toNat_false] at hsum
      omega

/-- A publication in progress can go on. -/
theorem moves (s : EventBus H E Tid) :
    (∀ t, s.running t = []) ∨ ∃ l s', l.own = true ∧ s.step l = some s' := by
  by_cases hidle : ∀ t, s.running t = []
  · exact .inl hidle
  · obtain ⟨t, ht⟩ := not_forall.mp hidle
    obtain ⟨⟨n, e, rest, calling⟩, ps, hrunning⟩ := List.exists_cons_of_ne_nil ht
    right
    cases calling with
    | true => exact ⟨.finish t, _, rfl, by simp only [EventBus.step, resume, hrunning]; rfl⟩
    | false =>
        cases rest with
        | nil => exact ⟨.ret t, _, rfl, by simp only [EventBus.step, resume, hrunning]; rfl⟩
        | cons h rest => exact ⟨.call t, _, rfl, by simp only [EventBus.step, resume, hrunning]; rfl⟩

theorem settles (T : Finset Tid) :
    Settles (@step H E Tid _) Label.own Label.isSubscribe (Within T)
      (fun s => ∀ t, s.running t = []) (remaining T) where
  keeps s l s' hT hl hs := by
    have hsteps := step_steps hs
    rcases hl with hown | hsub
    · exact (remaining_lt hT hown hsteps).1
    · cases hsteps with
      | subscribe h => exact hT
      | _ => cases hsub
  lowers s l s' hT hown hs := (remaining_lt hT hown (step_steps hs)).2
  calm_le s l s' hT hsub hs := by
    cases step_steps hs with
    | subscribe h => exact le_rfl
    | _ => cases hsub
  moves s _ := s.moves

/-- **Publications end**, if the calls of the handlers do and publish no more: from every
state of every run, however the threads are scheduled and whoever subscribes meanwhile.  No
handler and no thread waits for another. -/
theorem publications_return (ls : List (Label H E Tid)) :
    Throughout EventBus.step
      (ComesToRest EventBus.step Label.own Label.isSubscribe fun s => ∀ t, s.running t = [])
      ({} : EventBus H E Tid) ls := by
  have hwithin : Throughout EventBus.step (fun s => ∃ T, Within T s)
      ({} : EventBus H E Tid) ls := by
    refine throughout_of_step (fun s l s' h hs => ?_) ⟨∅, fun _ _ => rfl⟩ ls
    obtain ⟨T, hT⟩ := h
    cases step_steps hs with
    | subscribe hd => exact ⟨T, hT⟩
    | @publish t | @call t | @finish t | @throw t | @ret t =>
        refine ⟨insert t T, fun u hu => ?_⟩
        obtain ⟨hut, hu⟩ : u ≠ t ∧ u ∉ T := by simpa using hu
        exact (Function.update_of_ne hut _ _).trans (hT u hu)
  exact hwithin.imp fun s ⟨T, hT⟩ => (settles T).comesToRest hT

end EventBus
end Opencode.Messaging
