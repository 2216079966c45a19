import Opencode.Lib.Run
import Opencode.Orders.Service

/-!
# Two clients on one order

Every command is an unversioned read-modify-write of a whole order, so two of them
can both read before either writes.  This module runs two clients' commands on one
order under an arbitrary schedule of their repository steps and says exactly which
schedules are serial: unless both reads come first and both commands are accepted
by the order they read, and then only when the first to save is a `submit` and the
second a `cancel`.

The reason for the one exception is that `cancel` on the order as it was before the
submission leaves the same order as `cancel` after it.

## Main definitions

* `Client`, `Phase`, `Duo`, `Duo.step` — two clients at the repository.
* `Duo.Serial` — the outcome is that of one of the two serial orders.
* `Overlapping` — both reads come before the first write.
-/

namespace Opencode.Orders

open Opencode.Lib Opencode.Orders.Order

/-! ## Two accepted commands -/

namespace Request

/-- By how much an accepted command changes the number of items. -/
def growth : Request → ℤ
  | .addItem _ _ _ => 1
  | .removeItem _ => -1
  | _ => 0

theorem length_after {o : Order} {req : Request} (h : req.operation.Accepted o) :
    ((req.operation.after o).items.length : ℤ) = o.items.length + req.growth := by
  cases req with
  | addItem product qty price =>
      obtain ⟨hs, hq, hp⟩ := h
      simp [operation, Operation.after, Operation.edit, growth, hs, create_of_valid hq hp]
  | removeItem idx =>
      obtain ⟨hs, hi⟩ := h
      simp only [operation, Operation.after, Operation.edit, growth, hs, if_false]
      rw [List.length_eraseIdx_of_lt hi]
      omega
  | _ => simp [operation, Operation.after, Operation.edit, growth]

theorem status_after (o : Order) (req : Request) :
    (req.operation.after o).status = req.operation.target.getD o.status := rfl

/-- An accepted command that moves the status moves it away from where it is. -/
theorem target_ne {o : Order} {req : Request} {next : OrderStatus}
    (h : req.operation.Accepted o) (ht : req.operation.target = some next) :
    next ≠ o.status := by
  cases req <;> simp_all [operation, Operation.target, Operation.Accepted] <;> aesop

/-- A successful command never leaves the order as it was. -/
theorem after_ne {o : Order} {req : Request} (h : req.operation.Accepted o) :
    req.operation.after o ≠ o := by
  intro heq
  have hlen := length_after h
  rw [heq] at hlen
  cases ht : req.operation.target with
  | none => cases req <;> simp_all [operation, Operation.target, growth]
  | some next =>
      have hst := status_after o req
      rw [heq, ht, Option.getD_some] at hst
      exact target_ne h ht hst.symm

/-- **The one pair that hides an overlap.**  If a second command leaves the same
order whether or not the first one ran before it, the first is a `submit` and the
second a `cancel`. -/
theorem absorbs_iff {o : Order} {first second : Request} (h₁ : first.operation.Accepted o)
    (h₂ : second.operation.Accepted o) :
    (second.operation.Accepted (first.operation.after o) ∧
      second.operation.after (first.operation.after o) = second.operation.after o) ↔
      first = .submit ∧ ∃ reason, second = .cancel reason := by
  constructor
  · rintro ⟨h₂', heq⟩
    -- The item counts agree only if the first command changes none.
    have hgrow : first.growth = 0 := by
      have e₁ := length_after h₁
      have e₂ := length_after h₂
      have e₂' := length_after h₂'
      rw [heq] at e₂'
      omega
    obtain ⟨next, hnext⟩ : ∃ next, first.operation.target = some next := by
      cases first <;> simp_all [growth, operation, Operation.target]
    have hst : (first.operation.after o).status = next := by
      rw [status_after, hnext, Option.getD_some]
    have hne : next ≠ o.status := target_ne h₁ hnext
    have hstatus : second.operation.target.getD next = second.operation.target.getD o.status := by
      have := congrArg Order.status heq
      simpa only [status_after, hnext, Option.getD_some] using this
    -- So both move the status, and the second one from two different statuses.
    cases second with
    | addItem product qty price => exact absurd hstatus hne
    | removeItem idx => exact absurd hstatus hne
    | submit => exact absurd (hst.symm.trans h₂'.1) (by rw [← h₂.1]; exact hne)
    | ship =>
        have e : next = .confirmed := hst.symm.trans h₂'
        have e' : o.status = .confirmed := h₂
        exact absurd (e.trans e'.symm) hne
    | complete =>
        have e : next = .shipped := hst.symm.trans h₂'
        have e' : o.status = .shipped := h₂
        exact absurd (e.trans e'.symm) hne
    | cancel reason =>
        refine ⟨?_, reason, rfl⟩
        have hfrom : next = .created ∨ next = .confirmed := by
          rw [← hst]; exact h₂'
        rcases hfrom with rfl | rfl <;> cases first <;>
          simp_all [operation, Operation.target]
  · rintro ⟨rfl, reason, rfl⟩
    have hs : o.status = .created := h₁.1
    refine ⟨.inr rfl, ?_⟩
    simp [operation, Operation.after, Operation.target, Operation.edit, hs]

end Request

/-! ## Two clients at the repository -/

/-- The two clients. -/
inductive Client
  | left
  | right
  deriving DecidableEq, Repr

def Client.other : Client → Client
  | .left => .right
  | .right => .left

/-- How far a client's command has come. -/
inductive Phase
  | waiting
  | loaded (out : Outcome)
  | finished (r : Result Reply)

/-- The shared service and the two clients. -/
structure Duo where
  service : OrderApplicationService
  phase : Client → Phase

namespace Duo

variable (id : OrderId) (reqs : Client → Request)

def start (s : OrderApplicationService) : Duo := ⟨s, fun _ => .waiting⟩

/-- The next repository step of a client: its read, with the operation and the event
behind it, or its write.  A command that fails has no second step. -/
def step (d : Duo) (c : Client) : Option Duo :=
  match d.phase c with
  | .waiting =>
      match d.service.load id (reqs c) with
      | .error e => some { d with phase := Function.update d.phase c (.finished (.error e)) }
      | .ok out => some
          ⟨d.service.publish out.event, Function.update d.phase c (.loaded out)⟩
  | .loaded out => some
      ⟨d.service.store out, Function.update d.phase c (.finished (.ok out.reply))⟩
  | .finished _ => none

/-- Both commands have returned. -/
def Finished (d : Duo) : Prop := ∀ c, ∃ r, d.phase c = .finished r

/-- The commands gave what running `c` first and the other client second gives. -/
def SerialFrom (s : OrderApplicationService) (d : Duo) (c : Client) : Prop :=
  let one := s.execute id (reqs c)
  let two := one.2.execute id (reqs c.other)
  d.phase c = .finished one.1 ∧ d.phase c.other = .finished two.1 ∧
    ∀ k, d.service.repo.findById k = two.2.repo.findById k

/-- The stored orders and the two results are those of one of the serial orders. -/
def Serial (s : OrderApplicationService) (d : Duo) : Prop :=
  ∃ c, SerialFrom id reqs s d c

end Duo

@[simp] theorem Client.other_other (c : Client) : c.other.other = c := by cases c <;> rfl

@[simp] theorem Client.other_ne (c : Client) : c.other ≠ c := by cases c <;> decide

@[simp] theorem Client.ne_other (c : Client) : c ≠ c.other := by cases c <;> decide

theorem Client.eq_or_eq_other (c x : Client) : x = c ∨ x = c.other := by
  cases c <;> cases x <;> decide

/-- The first two repository steps belong to different clients, so that both reads
come before the first write. -/
def Overlapping (sched : List Client) : Prop := sched[0]? ≠ sched[1]?

/-! ## Finishing a schedule -/

namespace Duo

variable {id : OrderId} {reqs : Client → Request} {d d' : Duo} {sched : List Client}

theorem step_of_error {c : Client} {e : DomainError} (hc : d.phase c = .waiting)
    (h : d.service.load id (reqs c) = .error e) : step id reqs d c =
      some { d with phase := Function.update d.phase c (.finished (.error e)) } := by
  simp [step, hc, h]

theorem step_of_ok {c : Client} {out : Outcome} (hc : d.phase c = .waiting)
    (h : d.service.load id (reqs c) = .ok out) : step id reqs d c =
      some ⟨d.service.publish out.event, Function.update d.phase c (.loaded out)⟩ := by
  simp [step, hc, h]

theorem step_of_loaded {c : Client} {out : Outcome} (hc : d.phase c = .loaded out) :
    step id reqs d c = some
      ⟨d.service.store out, Function.update d.phase c (.finished (.ok out.reply))⟩ := by
  simp [step, hc]

theorem step_eq_none {c : Client} {r : Result Reply} (h : d.phase c = .finished r) :
    step id reqs d c = none := by
  simp [step, h]

/-- Nothing is left to schedule once both commands have returned. -/
theorem run_finished (h : Finished d) (hrun : run (step id reqs) d sched = some d') :
    sched = [] ∧ d' = d := by
  cases sched with
  | nil => exact ⟨rfl, by simpa using hrun.symm⟩
  | cons c sched =>
      obtain ⟨r, hr⟩ := h c
      simp [step_eq_none hr] at hrun

private theorem finished_of {c : Client} {r r' : Result Reply} (h : d.phase c = .finished r)
    (h' : d.phase c.other = .finished r') : Finished d := by
  intro x
  rcases c.eq_or_eq_other x with rfl | rfl
  · exact ⟨r, h⟩
  · exact ⟨r', h'⟩

/-- A client that only has to save, while the other one is done. -/
theorem run_loaded {c : Client} {out : Outcome} {r : Result Reply}
    (hc : d.phase c = .loaded out) (ho : d.phase c.other = .finished r)
    (hrun : run (step id reqs) d sched = some d') (hfin : Finished d') :
    d'.phase c = .finished (.ok out.reply) ∧ d'.phase c.other = .finished r ∧
      d'.service = d.service.store out := by
  cases sched with
  | nil =>
      obtain rfl : d = d' := by simpa using hrun
      obtain ⟨r', hr'⟩ := hfin c
      rw [hc] at hr'
      cases hr'
  | cons x sched =>
      rcases c.eq_or_eq_other x with rfl | rfl
      · rw [run_cons, step_of_loaded hc, Option.bind_some] at hrun
        obtain ⟨-, rfl⟩ := run_finished
          (finished_of (c := x) (Function.update_self _ _ _) (by simpa using ho)) hrun
        exact ⟨by simp, by simpa using ho, rfl⟩
      · simp [step_eq_none ho] at hrun

/-- A client that has not begun, while the other one is done: it runs alone. -/
theorem run_waiting {c : Client} {r : Result Reply}
    (hc : d.phase c = .waiting) (ho : d.phase c.other = .finished r)
    (hrun : run (step id reqs) d sched = some d') (hfin : Finished d') :
    d'.phase c = .finished (d.service.execute id (reqs c)).1 ∧
      d'.phase c.other = .finished r ∧
      d'.service.repo = (d.service.execute id (reqs c)).2.repo := by
  cases sched with
  | nil =>
      obtain rfl : d = d' := by simpa using hrun
      obtain ⟨r', hr'⟩ := hfin c
      rw [hc] at hr'
      cases hr'
  | cons x sched =>
      rcases c.eq_or_eq_other x with rfl | rfl
      swap
      · simp [step_eq_none ho] at hrun
      cases hload : d.service.load id (reqs x) with
      | error e =>
          rw [run_cons, step_of_error hc hload, Option.bind_some] at hrun
          obtain ⟨-, rfl⟩ := run_finished
            (finished_of (c := x) (Function.update_self _ _ _) (by simpa using ho)) hrun
          rw [OrderApplicationService.execute_of_error hload]
          exact ⟨by simp, by simpa using ho, rfl⟩
      | ok out =>
          rw [run_cons, step_of_ok hc hload, Option.bind_some] at hrun
          obtain ⟨h1, h2, h3⟩ := run_loaded (c := x) (Function.update_self _ _ _)
            (by simpa using ho) hrun hfin
          rw [OrderApplicationService.execute_of_ok hload]
          exact ⟨h1, h2, by rw [h3]⟩

/-! ## The exact condition -/

/-- Both commands hold an outcome of the same read, and `x` saves first: the last
writer's copy replaces the first one's. -/
theorem serial_iff_of_overlap {s : OrderApplicationService} {o : Order} {x : Client}
    {out : Client → Outcome} (ho : s.repo.findById id = some o)
    (hload : ∀ c, s.load id (reqs c) = .ok (out c))
    (hres : ∀ c, d.phase c = .finished (.ok (out c).reply))
    (hrepo : d.service.repo = (s.repo.save (out x).order).save (out x.other).order) :
    Serial id reqs s d ↔ reqs x = .submit ∧ ∃ reason, reqs x.other = .cancel reason := by
  have hspec : ∀ c, (reqs c).operation.Accepted o ∧
      (out c).order = (reqs c).operation.after o ∧
      (out c).reply = (reqs c).reply (out c).order := by
    intro c
    obtain ⟨o', ho', hacc, horder, hreply, -⟩ := OrderApplicationService.load_eq_ok (hload c)
    obtain rfl : o = o' := by simpa [ho] using ho'
    exact ⟨hacc, horder, hreply⟩
  have hid : ∀ c, (out c).order.id = id := by
    intro c
    rw [(hspec c).2.1, id_after]
    exact InMemoryOrderRepository.id_of_findById ho
  have hfinal : d.service.repo.findById id = some (out x.other).order := by
    rw [hrepo]
    simp [hid]
  -- After `c` alone the repository holds its copy, and the other command reads that.
  have hafter : ∀ c, (s.execute id (reqs c)).2.repo.findById id = some (out c).order := by
    intro c
    rw [OrderApplicationService.execute_of_ok (hload c)]
    simp [hid]
  have hserial : ∀ c, SerialFrom id reqs s d c →
      (reqs c.other).operation.Accepted (out c).order ∧
      (out x.other).order = (reqs c.other).operation.after (out c).order := by
    rintro c ⟨-, h2, h3⟩
    rw [hres] at h2
    cases hl : (s.execute id (reqs c)).2.load id (reqs c.other) with
    | error e => simp [OrderApplicationService.execute_of_error hl] at h2
    | ok out' =>
        obtain ⟨o', ho', hacc, horder, -⟩ := OrderApplicationService.load_eq_ok hl
        obtain rfl : (out c).order = o' := by simpa [hafter c] using ho'
        refine ⟨hacc, ?_⟩
        have h4 := h3 id
        rw [hfinal, OrderApplicationService.execute_of_ok hl] at h4
        simpa [horder, hid c] using h4
  constructor
  · rintro ⟨c, hc⟩
    obtain ⟨hacc, heq⟩ := hserial c hc
    rcases x.eq_or_eq_other c with rfl | rfl
    · rw [(hspec c).2.1, (hspec c.other).2.1] at *
      exact (Request.absorbs_iff (hspec c).1 (hspec c.other).1).mp ⟨hacc, heq.symm⟩
    · -- The other order would need a successful command without effect.
      rw [Client.other_other] at hacc heq
      exact absurd heq.symm (Request.after_ne hacc)
  · intro h
    obtain ⟨hacc, heq⟩ := (Request.absorbs_iff (hspec x).1 (hspec x.other).1).mpr h
    rw [← (hspec x).2.1] at hacc heq
    obtain ⟨out', hl, horder, hreply⟩ := OrderApplicationService.load_of_accepted (hafter x) hacc
    have horder' : out'.order = (out x.other).order := by
      rw [horder, heq, (hspec x.other).2.1]
    have hreply' : out'.reply = (out x.other).reply := by
      rw [hreply, heq, (hspec x.other).2.2, (hspec x.other).2.1]
    refine ⟨x, ?_, ?_, ?_⟩
    · rw [hres, OrderApplicationService.execute_of_ok (hload x)]
    · rw [hres, OrderApplicationService.execute_of_ok hl, hreply']
    · intro k
      rw [OrderApplicationService.execute_of_ok hl, hrepo]
      simp [OrderApplicationService.execute_of_ok (hload x), horder']

private theorem not_finished {c : Client} {p : Phase} (hc : d.phase c = p)
    (hp : ∀ r, p ≠ .finished r) : ¬ Finished d := by
  intro hfin
  obtain ⟨r, hr⟩ := hfin c
  exact hp r (hc.symm.trans hr)

/-- One client has run alone and the other has not begun: the outcome is serial. -/
theorem serialFrom_of_waiting {s : OrderApplicationService} {c : Client}
    (hc : d.phase c = .finished (s.execute id (reqs c)).1)
    (hother : d.phase c.other = .waiting)
    (hservice : d.service = (s.execute id (reqs c)).2)
    (hrun : run (step id reqs) d sched = some d') (hfin : Finished d') :
    SerialFrom id reqs s d' c := by
  obtain ⟨h1, h2, h3⟩ := run_waiting hother (by rwa [Client.other_other]) hrun hfin
  rw [Client.other_other] at h2
  rw [hservice] at h1 h3
  exact ⟨h2, h1, fun k => by rw [h3]⟩

/-- The second reader has failed and the first one has still to save: the failure
serialises before it. -/
theorem serialFrom_of_failed {s : OrderApplicationService} {c : Client} {out : Outcome}
    {e : DomainError} (hload : s.load id (reqs c) = .ok out)
    (hload' : s.load id (reqs c.other) = .error e) (hc : d.phase c = .loaded out)
    (hother : d.phase c.other = .finished (.error e))
    (hservice : d.service = s.publish out.event)
    (hrun : run (step id reqs) d sched = some d') (hfin : Finished d') :
    SerialFrom id reqs s d' c.other := by
  obtain ⟨h1, h2, h3⟩ := run_loaded hc hother hrun hfin
  rw [SerialFrom, OrderApplicationService.execute_of_error hload', Client.other_other,
    OrderApplicationService.execute_of_ok hload]
  exact ⟨h2, h1, fun k => by rw [h3, hservice]⟩

/-- Both clients hold a copy of the same order: the next step is the first save, and it
decides. -/
theorem serial_iff_of_loaded {s : OrderApplicationService} {o : Order}
    {out : Client → Outcome} (ho : s.repo.findById id = some o)
    (hload : ∀ c, s.load id (reqs c) = .ok (out c))
    (hphase : ∀ c, d.phase c = .loaded (out c)) (hrepo : d.service.repo = s.repo)
    (hrun : run (step id reqs) d sched = some d') (hfin : Finished d') :
    ∃ x, sched[0]? = some x ∧ (Serial id reqs s d' ↔
      reqs x = .submit ∧ ∃ reason, reqs x.other = .cancel reason) := by
  cases sched with
  | nil =>
      obtain rfl : d = d' := by simpa using hrun
      exact absurd hfin (not_finished (hphase .left) (by simp))
  | cons x sched =>
      refine ⟨x, rfl, ?_⟩
      rw [run_cons, step_of_loaded (hphase x), Option.bind_some] at hrun
      obtain ⟨h1, h2, h3⟩ := run_loaded (c := x.other) (r := .ok (out x).reply)
        (by simpa using hphase x.other) (by simp) hrun hfin
      rw [Client.other_other] at h2
      have hres : ∀ y, d'.phase y = .finished (.ok (out y).reply) := by
        intro y
        rcases x.eq_or_eq_other y with rfl | rfl
        · exact h2
        · exact h1
      exact serial_iff_of_overlap ho hload hres (by rw [h3]; simp [hrepo])

/-- The same with the order and what it accepts spelled out. -/
theorem serial_iff_of_both {s : OrderApplicationService} {outs : Client → Outcome}
    (hphase : ∀ c, d.phase c = .loaded (outs c)) (hload : ∀ c, s.load id (reqs c) = .ok (outs c))
    (hrepo : d.service.repo = s.repo) (hrun : run (step id reqs) d sched = some d')
    (hfin : Finished d') :
    Serial id reqs s d' ↔
      ∀ o, s.repo.findById id = some o → (∀ c, (reqs c).operation.Accepted o) →
        ∃ c, sched[0]? = some c ∧ reqs c = .submit ∧ ∃ reason, reqs c.other = .cancel reason := by
  obtain ⟨o, ho, -⟩ := OrderApplicationService.load_eq_ok (hload .left)
  obtain ⟨x, hx, hiff⟩ := serial_iff_of_loaded ho hload hphase hrepo hrun hfin
  rw [hiff]
  constructor
  · rintro h o' - -
    exact ⟨x, hx, h⟩
  · intro h
    have hacc : ∀ y, (reqs y).operation.Accepted o := by
      intro y
      obtain ⟨o', ho', hacc, -⟩ := OrderApplicationService.load_eq_ok (hload y)
      obtain rfl : o = o' := by simpa [ho] using ho'
      exact hacc
    obtain ⟨y, hy, hsub⟩ := h o ho hacc
    obtain rfl : x = y := by simpa using hx.symm.trans hy
    exact hsub

/-- **When two commands on one order serialise.**  A complete schedule of the two
clients gives a serial outcome exactly when it is not the case that both reads come
first and the order accepts both commands, or else the first to save is a `submit`
and the second a `cancel`. -/
theorem serial_iff (s : OrderApplicationService) (id : OrderId) (reqs : Client → Request)
    (sched : List Client) (d : Duo) (hrun : run (step id reqs) (start s) sched = some d)
    (hfin : Finished d) :
    Serial id reqs s d ↔
      ∀ o, s.repo.findById id = some o → Overlapping sched →
        (∀ c, (reqs c).operation.Accepted o) →
        ∃ c, sched[2]? = some c ∧ reqs c = .submit ∧ ∃ reason, reqs c.other = .cancel reason := by
  have hw : ∀ x, (start s).phase x = .waiting := fun _ => rfl
  cases sched with
  | nil =>
      obtain rfl : start s = d := by simpa using hrun
      exact absurd hfin (not_finished (hw .left) (by simp))
  | cons c sched =>
  cases hload : s.load id (reqs c) with
  | error e =>
      -- The first reader fails: the other one runs alone.
      rw [run_cons, step_of_error (hw c) hload, Option.bind_some] at hrun
      have hexec := OrderApplicationService.execute_of_error hload
      refine iff_of_true ⟨c, ?_⟩ ?_
      · exact serialFrom_of_waiting (by simp [hexec]) (by simpa using hw c.other)
          (by rw [hexec]; rfl) hrun hfin
      · intro o ho _ hacc
        exact absurd (hacc c) (OrderApplicationService.load_eq_error hload ho)
  | ok out =>
  rw [run_cons, step_of_ok (hw c) hload, Option.bind_some] at hrun
  have hc : Function.update (start s).phase c (.loaded out) c = .loaded out :=
    Function.update_self _ _ _
  have hother : Function.update (start s).phase c (.loaded out) c.other = .waiting := by
    simpa using hw c.other
  cases sched with
  | nil =>
      obtain rfl : _ = d := by simpa using hrun
      exact absurd hfin (not_finished hc (by simp))
  | cons x sched =>
  rcases c.eq_or_eq_other x with rfl | rfl
  · -- The first reader saves before the other one reads.
    rw [run_cons, step_of_loaded hc, Option.bind_some] at hrun
    have hexec := OrderApplicationService.execute_of_ok hload
    refine iff_of_true ⟨x, ?_⟩ ?_
    · exact serialFrom_of_waiting (by simp [hexec]) (by simpa using hother)
        (by rw [hexec]; rfl) hrun hfin
    · intro o _ hover _
      exact absurd rfl hover
  · have hsame : (s.publish out.event).load id (reqs c.other) = s.load id (reqs c.other) :=
      OrderApplicationService.load_congr (by simp)
    cases hload' : s.load id (reqs c.other) with
    | error e =>
        rw [run_cons, step_of_error hother (hsame.trans hload'), Option.bind_some] at hrun
        refine iff_of_true ⟨c.other, ?_⟩ ?_
        · exact serialFrom_of_failed hload hload' (by simp) (by simp) rfl hrun hfin
        · intro o ho _ hacc
          exact absurd (hacc c.other) (OrderApplicationService.load_eq_error hload' ho)
    | ok out' =>
        -- Both reads come first and both commands are accepted.
        rw [run_cons, step_of_ok hother (hsame.trans hload'), Option.bind_some] at hrun
        obtain ⟨outs, hphase, hloads⟩ : ∃ outs : Client → Outcome,
            (∀ y, Function.update (Function.update (start s).phase c (.loaded out))
              c.other (.loaded out') y = .loaded (outs y)) ∧
            ∀ y, s.load id (reqs y) = .ok (outs y) := by
          refine ⟨fun y => if y = c then out else out', ?_, ?_⟩
          · intro y
            rcases c.eq_or_eq_other y with rfl | rfl <;> simp
          · intro y
            rcases c.eq_or_eq_other y with rfl | rfl <;> simp [hload, hload']
        rw [serial_iff_of_both hphase hloads (by simp [start]) hrun hfin]
        exact ⟨fun h o ho _ => h o ho, fun h o ho => h o ho (by simp [Overlapping])⟩

/-! ## Concrete schedules -/

/-- A service whose repository holds one new order with the given items. -/
private def sample (items : List OrderItem) : OrderApplicationService where
  repo := InMemoryOrderRepository.empty.save
    ⟨⟨"ORD-1"⟩, ⟨"C-1001"⟩, ⟨"Beijing", "Chaoyang", "1"⟩, .created, items⟩
  publisher := false
  published := []
  seq := 1

private def keyboard : OrderItem := ⟨"keyboard", 1, ⟨89900⟩, by decide, by decide⟩

private def twoAdds : Client → Request
  | .left => .addItem "mouse" 2 ⟨19900⟩
  | .right => .addItem "screen" 1 ⟨149900⟩

private def submitCancel : Client → Request
  | .left => .submit
  | .right => .cancel ""

/-- Two overlapping `addItem` commands both answer with success, and one of the two
items is gone: no serial order gives that. -/
theorem not_serial_addItem_addItem :
    ∃ d, run (step ⟨"ORD-1"⟩ twoAdds) (start (sample [])) [.left, .right, .left, .right] = some d ∧
      Finished d ∧ ¬ Serial ⟨"ORD-1"⟩ twoAdds (sample []) d := by
  refine ⟨_, rfl, ?_, ?_⟩
  · rintro (_ | _) <;> exact ⟨_, rfl⟩
  · rintro ⟨c, -, -, h⟩
    -- One item is stored after the overlap, two after either serial order.
    have hcount := congrArg (Option.map fun o => o.items.length) (h ⟨"ORD-1"⟩)
    cases c <;> exact absurd hcount (by decide)

/-- An overlapping `submit` and `cancel`, the submission saved first, is serial. -/
theorem serial_submit_cancel :
    ∃ d, run (step ⟨"ORD-1"⟩ submitCancel) (start (sample [keyboard]))
        [.left, .right, .left, .right] = some d ∧
      Serial ⟨"ORD-1"⟩ submitCancel (sample [keyboard]) d := by
  refine ⟨_, rfl, (serial_iff (sample [keyboard]) ⟨"ORD-1"⟩ submitCancel
    [.left, .right, .left, .right] _ rfl ?_).mpr ?_⟩
  · rintro (_ | _) <;> exact ⟨_, rfl⟩
  · intro o _ _ _
    exact ⟨.left, rfl, rfl, "", rfl⟩

end Duo
end Opencode.Orders
