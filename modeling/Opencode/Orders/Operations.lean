import Opencode.Orders.Model

/-!
# What the operations of an order do

One description of all seven operations: when an operation is accepted, and the
order it then leaves behind.  `apply_eq_ok_iff` ties the description to the code;
later proofs about orders use its two halves, `apply_of_accepted` and
`apply_of_not_accepted`, instead of unfolding an operation.

## Main definitions

* `Operation.Accepted` — the status and argument conditions for success.
* `Operation.edit`, `Operation.target` — the effect on items and on the status.
* `Operation.after` — the order after an accepted operation.
* `Operation.Edits` — when `edit` really changes the list.
-/

namespace Opencode.Orders.Order

namespace Operation

/-- The item list after the operation, when the status does not refuse it. -/
def edit : Operation → List OrderItem → List OrderItem
  | .addItem product qty price, items =>
      match OrderItem.create product qty price with
      | .ok it => items ++ [it]
      | .error _ => items
  | .setQuantity idx qty, items => items.modify idx (·.setQuantity qty)
  | .removeItem idx, items => items.eraseIdx idx
  | _, items => items

/-- The status an operation moves to, for those that move it. -/
def target : Operation → Option OrderStatus
  | .submit => some .confirmed
  | .ship => some .shipped
  | .complete => some .completed
  | .cancel _ => some .cancelled
  | _ => none

/-- The operation succeeds on this order. -/
def Accepted (o : Order) : Operation → Prop
  | .addItem _ qty price => o.status ≠ .confirmed ∧ 0 < qty ∧ 0 ≤ price.cents
  | .setQuantity _ _ => True
  | .removeItem idx => o.status ≠ .confirmed ∧ idx < o.items.length
  | .submit => o.status = .created ∧ o.items ≠ []
  | .ship => o.status = .confirmed
  | .complete => o.status = .shipped
  | .cancel _ => o.status = .created ∨ o.status = .confirmed

instance (o : Order) (op : Operation) : Decidable (op.Accepted o) := by
  cases op <;> unfold Accepted <;> infer_instance

/-- The order an accepted operation leaves behind. -/
def after (o : Order) (op : Operation) : Order :=
  { o with
    status := op.target.getD o.status
    items := if o.status = .confirmed then o.items else op.edit o.items }

/-- The operation's arguments make it a real change of the given item list. -/
def Edits : Operation → List OrderItem → Prop
  | .addItem _ qty price, _ => 0 < qty ∧ 0 ≤ price.cents
  | .setQuantity idx qty, items => 0 < qty ∧ ∃ it, items[idx]? = some it ∧ it.quantity ≠ qty
  | .removeItem idx, items => idx < items.length
  | _, _ => False

end Operation

open Operation

@[simp] theorem id_after (o : Order) (op : Operation) : (op.after o).id = o.id := rfl

/-! ## Success and effect -/

theorem create_of_valid {product : String} {qty : Int32} {price : Money}
    (hq : 0 < qty) (hp : 0 ≤ price.cents) :
    OrderItem.create product qty price = .ok ⟨product, qty, price, hq, hp⟩ := by
  have hq' : ¬ qty ≤ 0 := Int32.not_le.mpr hq
  have hp' : ¬ price.cents < Money.zero.cents := Int64.not_lt.mpr hp
  simp only [OrderItem.create, hq', hp', dite_false]

theorem create_of_invalid (product : String) {qty : Int32} {price : Money}
    (h : ¬ (0 < qty ∧ 0 ≤ price.cents)) :
    ∃ e, OrderItem.create product qty price = .error e := by
  by_cases hq : qty ≤ 0
  · exact ⟨_, by simp only [OrderItem.create, hq, dite_true]; rfl⟩
  · have hp : price.cents < Money.zero.cents := by
      by_contra hp
      exact h ⟨Int32.not_le.mp hq, Int64.not_lt.mp hp⟩
    exact ⟨_, by simp only [OrderItem.create, hq, hp, dite_true, dite_false]; rfl⟩

theorem moveTo_of_not_canTransit {o : Order} {next : OrderStatus}
    (h : o.status.canTransit next = false) : o.moveTo next = err .statusTransition := by
  simp [moveTo, h]

/-- Every accepted operation succeeds and has the described effect. -/
theorem apply_of_accepted {o : Order} {op : Operation} (h : op.Accepted o) :
    o.apply op = .ok (op.after o) := by
  cases op with
  | addItem product qty price =>
      obtain ⟨hs, hq, hp⟩ := h
      simp [apply, addItem, after, edit, target, hs, create_of_valid hq hp, bind, Except.bind]
  | setQuantity idx qty =>
      by_cases hs : o.status = .confirmed
      · simp only [apply, setQuantity, after, target, hs, if_true, Option.getD_none]
        rw [← hs]
      · simp [apply, setQuantity, after, edit, target, hs]
  | removeItem idx =>
      obtain ⟨hs, hi⟩ := h
      simp [apply, removeItem, after, edit, target, hs, Nat.not_le.mpr hi]
  | submit =>
      obtain ⟨hs, hne⟩ := h
      simp [apply, submit, after, edit, target, hs, hne, OrderStatus.canTransit, Except.map]
  | ship =>
      have hs : o.status = .confirmed := h
      simp [apply, ship, moveTo, after, target, hs, OrderStatus.canTransit]
  | complete =>
      have hs : o.status = .shipped := h
      simp [apply, complete, moveTo, after, edit, target, hs, OrderStatus.canTransit]
  | cancel reason =>
      rcases h with hs | hs <;>
        simp [apply, cancel, moveTo, after, edit, target, hs, OrderStatus.canTransit]

/-- An operation that is not accepted returns an error. -/
theorem apply_of_not_accepted {o : Order} {op : Operation} (h : ¬ op.Accepted o) :
    ∃ e, o.apply op = .error e := by
  cases op with
  | addItem product qty price =>
      by_cases hs : o.status = .confirmed
      · exact ⟨_, by simp only [apply, addItem, hs, if_true]; rfl⟩
      · obtain ⟨e, he⟩ := create_of_invalid product fun hv => h ⟨hs, hv⟩
        exact ⟨e, by simp [apply, addItem, hs, he, bind, Except.bind]⟩
  | setQuantity idx qty => exact absurd trivial h
  | removeItem idx =>
      by_cases hs : o.status = .confirmed
      · exact ⟨_, by simp only [apply, removeItem, hs, if_true]; rfl⟩
      · have hi : o.items.length ≤ idx := Nat.not_lt.mp fun hi => h ⟨hs, hi⟩
        exact ⟨_, by simp only [apply, removeItem, hs, hi, if_true, if_false]; rfl⟩
  | submit =>
      by_cases hne : o.items = []
      · exact ⟨_, by simp only [apply, submit, hne, List.isEmpty_nil, if_true]; rfl⟩
      · have hs : o.status.canTransit .confirmed = false := by
          cases hst : o.status <;> simp_all [Accepted, OrderStatus.canTransit]
        exact ⟨_, by simp [apply, submit, hne, hs, Except.map, err]; rfl⟩
  | ship =>
      have hs : o.status.canTransit .shipped = false := by
        cases hst : o.status <;> simp_all [Accepted, OrderStatus.canTransit]
      exact ⟨_, moveTo_of_not_canTransit hs⟩
  | complete =>
      have hs : o.status.canTransit .completed = false := by
        cases hst : o.status <;> simp_all [Accepted, OrderStatus.canTransit]
      exact ⟨_, moveTo_of_not_canTransit hs⟩
  | cancel reason =>
      -- The two early checks of `cancel` answer for `shipped` and `cancelled`.
      cases hst : o.status with
      | created => exact absurd (.inl hst) h
      | confirmed => exact absurd (.inr hst) h
      | shipped => exact ⟨_, by simp only [apply, cancel, hst, if_true]; rfl⟩
      | completed => exact ⟨_, by simp [apply, cancel, moveTo, hst, OrderStatus.canTransit]; rfl⟩
      | cancelled => exact ⟨_, by simp [apply, cancel, hst]; rfl⟩

/-- **The operations, described.**  An operation succeeds exactly when it is
accepted, and then its effect is `after`. -/
theorem apply_eq_ok_iff {o o' : Order} {op : Operation} :
    o.apply op = .ok o' ↔ op.Accepted o ∧ o' = op.after o := by
  by_cases h : op.Accepted o
  · simp [apply_of_accepted h, h, eq_comm]
  · obtain ⟨e, he⟩ := apply_of_not_accepted h
    simp [he, h]

theorem perform_of_accepted {o : Order} {op : Operation} (h : op.Accepted o) :
    o.perform op = op.after o := by
  simp [perform, apply_of_accepted h]

theorem perform_of_not_accepted {o : Order} {op : Operation} (h : ¬ op.Accepted o) :
    o.perform op = o := by
  obtain ⟨e, he⟩ := apply_of_not_accepted h
  simp [perform, he]

/-! ## When an edit is a change -/

theorem setQuantity_ne_iff (it : OrderItem) (q : Int32) :
    it.setQuantity q ≠ it ↔ 0 < q ∧ it.quantity ≠ q := by
  by_cases hq : 0 < q
  · cases it
    simp [OrderItem.setQuantity, hq, eq_comm]
  · simp [OrderItem.setQuantity, hq]

private theorem modify_ne_iff {α : Type} (f : α → α) (l : List α) (i : ℕ) :
    l.modify i f ≠ l ↔ ∃ a, l[i]? = some a ∧ f a ≠ a := by
  induction l generalizing i with
  | nil => simp
  | cons x l ih =>
      cases i with
      | zero => simp
      | succ i => simpa using ih i

/-- `Edits` is exactly when `edit` changes the list. -/
theorem edit_ne_iff (op : Operation) (items : List OrderItem) :
    op.edit items ≠ items ↔ op.Edits items := by
  cases op with
  | addItem product qty price =>
      by_cases h : 0 < qty ∧ 0 ≤ price.cents
      · simp [edit, Edits, create_of_valid h.1 h.2, h]
      · obtain ⟨e, he⟩ := create_of_invalid product h
        simp [edit, Edits, he, h]
  | setQuantity idx qty =>
      simp only [edit, Edits, modify_ne_iff, setQuantity_ne_iff]
      constructor
      · rintro ⟨it, hi, hq, hne⟩
        exact ⟨hq, it, hi, hne⟩
      · rintro ⟨hq, it, hi, hne⟩
        exact ⟨it, hi, hq, hne⟩
  | removeItem idx =>
      simp only [edit, Edits]
      constructor
      · intro h
        by_contra hi
        exact h (List.eraseIdx_of_length_le (Nat.not_lt.mp hi))
      · intro hi heq
        have := congrArg List.length heq
        rw [List.length_eraseIdx_of_lt hi] at this
        omega
  | submit => simp [edit, Edits]
  | ship => simp [edit, Edits]
  | complete => simp [edit, Edits]
  | cancel reason => simp [edit, Edits]

end Opencode.Orders.Order
