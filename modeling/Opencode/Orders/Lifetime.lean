import Opencode.Lib.Run
import Opencode.Orders.Operations

/-!
# The item lock over a whole order lifetime

The domain rules lock the items of an order once it has been submitted.  The code
checks the lock in each mutator against the status `confirmed` alone, while the
status keeps moving after the submission.  This module says exactly which runs of
public operations keep the rule.

A `Lifetime` is an order together with a ghost record of what the first successful
`submit` saw.  `Kept` is the rule; `Slips` is the step the mutators let through, an
edit of a submitted order that is not in `confirmed` any more.
`kept_throughout_iff` proves that a lifetime keeps the rule exactly when none of
its steps slips.

## Main definitions

* `Lifetime`, `Lifetime.step` — an order with the record of its submission.
* `Lifetime.Kept` — the rule.
* `Lifetime.Slips` — the step that breaks it.
-/

namespace Opencode.Orders

open Opencode.Lib Opencode.Orders.Order

/-- An order and, once a `submit` has succeeded, the items and total it had then. -/
structure Lifetime where
  order : Order
  submitted : Option (List OrderItem × Option Money)

namespace Lifetime

/-- A new order. -/
def start (id : OrderId) (customer : CustomerId) (addr : Address) : Lifetime :=
  ⟨Order.create id customer addr, none⟩

/-- The record after an operation: the first successful `submit` writes it. -/
def record (l : Lifetime) : Operation → Option (List OrderItem × Option Money)
  | .submit =>
      match l.submitted, l.order.submit with
      | none, .ok (total, o) => some (o.items, total)
      | prior, _ => prior
  | _ => l.submitted

/-- One public operation. -/
def step (l : Lifetime) (op : Operation) : Option Lifetime :=
  some ⟨l.order.perform op, l.record op⟩

/-- The rule: items and total are those of the submission, and an order that got
as far as `confirmed` has an item. -/
def Kept (l : Lifetime) : Prop :=
  (∀ items total, l.submitted = some (items, total) →
    l.order.items = items ∧ l.order.total = total) ∧
  (l.order.status ∈ [.confirmed, .shipped, .completed] → l.order.items ≠ [])

/-- The operation is an edit of a submitted order whose status is not `confirmed`
any more. -/
def Slips (l : Lifetime) (op : Operation) : Prop :=
  l.submitted.isSome ∧ l.order.status ≠ .confirmed ∧ op.Edits l.order.items

/-- What the status says about the submission, whether the rule is kept or not. -/
structure Recorded (l : Lifetime) : Prop where
  of_status : l.order.status ∈ [.confirmed, .shipped, .completed] → l.submitted.isSome
  not_created : l.submitted.isSome → l.order.status ≠ .created
  nonempty : ∀ items total, l.submitted = some (items, total) → items ≠ []

/-! ## The record -/

theorem record_of_ne_submit {l : Lifetime} {op : Operation} (h : op ≠ .submit) :
    l.record op = l.submitted := by
  cases op <;> first | rfl | exact absurd rfl h

theorem record_of_submitted {l : Lifetime} (op : Operation) (h : l.submitted.isSome) :
    l.record op = l.submitted := by
  obtain ⟨snap, hs⟩ := Option.isSome_iff_exists.mp h
  cases op <;> simp [record, hs]

theorem record_submit {l : Lifetime} (hn : l.submitted = none)
    (h : Operation.Accepted l.order .submit) :
    l.record .submit = some (l.order.items, l.order.total) := by
  obtain ⟨hs, hne⟩ := h
  simp [record, hn, submit, hs, hne, OrderStatus.canTransit, Order.total]

theorem record_of_not_accepted {l : Lifetime} {op : Operation}
    (h : ¬ op.Accepted l.order) : l.record op = l.submitted := by
  cases op with
  | submit =>
      obtain ⟨e, he⟩ := apply_of_not_accepted h
      cases hs : l.order.submit with
      | ok r => simp [apply, hs, Except.map] at he
      | error e => cases hn : l.submitted <;> simp [record, hs, hn]
  | _ => rfl

/-! ## One step -/

/-- The status of an order only moves along the transition table. -/
theorem status_after {o : Order} {op : Operation} (h : op.Accepted o) :
    (op.after o).status = o.status ∨ o.status.canTransit (op.after o).status = true := by
  cases op with
  | submit => exact .inr (by simp [Operation.after, Operation.target, h.1, OrderStatus.canTransit])
  | ship =>
      have hs : o.status = .confirmed := h
      exact .inr (by simp [Operation.after, Operation.target, hs, OrderStatus.canTransit])
  | complete =>
      have hs : o.status = .shipped := h
      exact .inr (by simp [Operation.after, Operation.target, hs, OrderStatus.canTransit])
  | cancel reason =>
      rcases h with hs | hs <;>
        exact .inr (by simp [Operation.after, Operation.target, hs, OrderStatus.canTransit])
  | _ => exact .inl rfl

/-- Only `submit` moves an order to `confirmed`. -/
theorem after_confirmed {o : Order} {op : Operation} (hs : o.status ≠ .confirmed)
    (h : (op.after o).status = .confirmed) : op = .submit := by
  cases op <;> simp_all [Operation.after, Operation.target]

theorem recorded_start (id : OrderId) (customer : CustomerId) (addr : Address) :
    Recorded (start id customer addr) where
  of_status := by simp [start, Order.create]
  not_created := by simp [start]
  nonempty := by simp [start]

/-- The record and the status stay consistent under every operation. -/
theorem recorded_step {l l' : Lifetime} {op : Operation} (hl : Recorded l)
    (h : l.step op = some l') : Recorded l' := by
  obtain rfl : ⟨l.order.perform op, l.record op⟩ = l' := by simpa [step] using h
  by_cases hacc : op.Accepted l.order
  swap
  · -- A refused operation changes neither part.
    rw [perform_of_not_accepted hacc, record_of_not_accepted hacc]
    exact hl
  rw [perform_of_accepted hacc]
  by_cases hsub : op = .submit
  · -- A successful submission: the status becomes `confirmed` and the record exists.
    subst hsub
    have hn : l.submitted = none := by
      by_contra hn
      exact hl.not_created (Option.isSome_iff_ne_none.mpr hn) hacc.1
    rw [record_submit hn hacc]
    refine ⟨fun _ => rfl, fun _ => ?_, ?_⟩
    · simp [Operation.after, Operation.target]
    · rintro items total heq
      obtain ⟨rfl, rfl⟩ : l.order.items = items ∧ l.order.total = total := by simpa using heq
      exact hacc.2
  · rw [record_of_ne_submit hsub]
    rcases status_after hacc with hst | hst
    · refine ⟨?_, ?_, hl.nonempty⟩
      · rw [hst]; exact hl.of_status
      · rw [hst]; exact hl.not_created
    · have hnc : l.order.status ≠ .confirmed → (op.after l.order).status ≠ .confirmed :=
        fun hs h => hsub (after_confirmed hs h)
      have h1 := hl.of_status
      refine ⟨?_, ?_, hl.nonempty⟩
      · cases hs : l.order.status <;> cases hs' : (op.after l.order).status <;>
          simp_all [OrderStatus.canTransit]
      · cases hs : l.order.status <;> cases hs' : (op.after l.order).status <;>
          simp_all [OrderStatus.canTransit]

/-- Whether an operation changes the items of the order at all. -/
theorem items_perform_ne_iff (o : Order) (op : Operation) :
    (o.perform op).items ≠ o.items ↔ o.status ≠ .confirmed ∧ op.Edits o.items := by
  by_cases hacc : op.Accepted o
  · rw [perform_of_accepted hacc]
    by_cases hs : o.status = .confirmed
    · simp [Operation.after, hs]
    · simp only [Operation.after, hs, if_false, not_false_eq_true, ne_eq, true_and]
      exact edit_ne_iff op o.items
  · rw [perform_of_not_accepted hacc]
    cases op with
    | addItem product qty price => simpa [Operation.Accepted, Operation.Edits] using hacc
    | setQuantity idx qty => exact absurd trivial hacc
    | removeItem idx => simpa [Operation.Accepted, Operation.Edits] using hacc
    | _ => simp [Operation.Edits]

theorem total_congr {o o' : Order} (h : o.items = o'.items) : o.total = o'.total := by
  unfold Order.total
  rw [h]

/-- **One step keeps the rule exactly when it does not slip.** -/
theorem kept_step_iff {l l' : Lifetime} {op : Operation} (hr : Recorded l) (hk : Kept l)
    (h : l.step op = some l') : Kept l' ↔ ¬ Slips l op := by
  have hr' : Recorded l' := recorded_step hr h
  obtain rfl : ⟨l.order.perform op, l.record op⟩ = l' := by simpa [step] using h
  -- The second half of the rule follows from the first one and the record.
  have hsecond : (∀ items total, l.record op = some (items, total) →
      (l.order.perform op).items = items ∧ (l.order.perform op).total = total) →
      Kept ⟨l.order.perform op, l.record op⟩ := by
    intro hfirst
    refine ⟨hfirst, ?_⟩
    intro hst
    obtain ⟨⟨items, total⟩, hs⟩ := Option.isSome_iff_exists.mp (hr'.of_status hst)
    rw [(hfirst items total hs).1]
    exact hr'.nonempty items total hs
  cases hs : l.submitted with
  | none =>
      -- Nothing is locked yet, and a submission records what it leaves behind.
      refine ⟨fun _ hslip => by simp [Slips, hs] at hslip, fun _ => hsecond ?_⟩
      intro items total heq
      by_cases hacc : op = .submit ∧ op.Accepted l.order
      · obtain ⟨rfl, hacc⟩ := hacc
        rw [record_submit hs hacc] at heq
        obtain ⟨rfl, rfl⟩ : l.order.items = items ∧ l.order.total = total := by
          simpa using heq
        have hitems : (l.order.perform .submit).items = l.order.items := by
          rw [perform_of_accepted hacc]
          simp [Operation.after, Operation.edit]
        exact ⟨hitems, total_congr hitems⟩
      · have hnone : l.record op = l.submitted := by
          by_cases hsub : op = .submit
          · exact record_of_not_accepted fun hacc' => hacc ⟨hsub, hacc'⟩
          · exact record_of_ne_submit hsub
        rw [hnone, hs] at heq
        cases heq
  | some snap =>
      obtain ⟨items, total⟩ := snap
      have hsome : l.submitted.isSome := by simp [hs]
      have hrec : l.record op = some (items, total) := by rw [record_of_submitted op hsome, hs]
      obtain ⟨hitems, htotal⟩ := hk.1 items total hs
      constructor
      · intro hk' hslip
        have hsame := (hk'.1 items total hrec).1
        exact (items_perform_ne_iff l.order op).mpr hslip.2 (hsame.trans hitems.symm)
      · intro hslip
        have hsame : (l.order.perform op).items = l.order.items := by
          by_contra hne
          exact hslip ⟨hsome, (items_perform_ne_iff l.order op).mp hne⟩
        refine hsecond ?_
        intro items' total' heq
        rw [hrec] at heq
        obtain ⟨rfl, rfl⟩ : items = items' ∧ total = total' := by simpa using heq
        exact ⟨hsame.trans hitems, (total_congr hsame).trans htotal⟩

/-! ## Whole lifetimes -/

/-- **The item lock, exactly.**  From its creation on, an order keeps the rule
throughout a sequence of public operations exactly when no step of the sequence
edits the submitted order in a status other than `confirmed`. -/
theorem kept_throughout_iff (id : OrderId) (customer : CustomerId) (addr : Address)
    (ops : List Operation) :
    Throughout step Kept (start id customer addr) ops ↔
      Along step (fun l op => ¬ Slips l op) (start id customer addr) ops := by
  have h0 : Kept (start id customer addr) := by
    constructor <;> simp [start, Order.create]
  exact throughout_iff_along (fun _ _ _ hr hs => recorded_step hr hs)
    (fun _ _ _ hr hk hs => kept_step_iff hr hk hs) (recorded_start id customer addr) h0

/-- A shipped order accepts a second item: the lock is gone. -/
theorem not_kept_after_ship :
    ¬ Throughout step Kept (start ⟨"ORD-1"⟩ ⟨"C-1001"⟩ ⟨"Beijing", "Chaoyang", "1"⟩)
      [.addItem "P1" 1 ⟨100⟩, .submit, .ship, .addItem "P2" 1 ⟨100⟩] := by
  intro h
  have hlast := h.last rfl
  have hitems := (hlast.1 _ _ rfl).1
  exact absurd (congrArg List.length hitems) (by decide)

end Lifetime
end Opencode.Orders
