import Opencode.Orders.Service
import Opencode.Orders.Totals

/-!
# What a command changes and answers

A command on an order either fails and leaves the service alone, or it replaces the one
order it is addressed to by what the aggregate's operation makes of it.  Four of the six
commands answer with the read model of the order they saved.

The read model counts the items in 32 bits and its amounts are those of `Money`, so it is
a description of the order only if the number of items and the sum fit.

## Main definitions

* `OrderDto.Describes` — the read model says what the order is.
* `OrderApplicationService.AtomicAndLocal` — what is promised of a command.
* `atomicAndLocal_iff` — it is kept, but for read models of orders that do not fit.
-/

namespace Opencode.Orders

/-! ## The read model -/

/-- A line of the read model says what the item is. -/
structure OrderItemDto.Describes (d : OrderItemDto) (it : OrderItem) : Prop where
  product : d.product = it.product
  quantity : d.quantity = it.quantity
  unitPrice : d.unitPrice = it.unitPrice
  lineTotal : ∃ m, d.lineTotal = some m ∧ m.cents.toInt = it.exactTotal

/-- The read model says what the order is. -/
structure OrderDto.Describes (d : OrderDto) (o : Order) : Prop where
  id : d.id = o.id.value
  customerId : d.customerId = o.customer.value
  status : d.status = o.status.label
  total : ∃ m, d.total = some m ∧ m.cents.toInt = o.exactTotal
  itemCount : d.itemCount.toInt = o.items.length
  items : List.Forall₂ OrderItemDto.Describes d.items o.items

/-- The number of items is an `int` and the sum over the items an amount. -/
def Order.Fits (o : Order) : Prop := o.items.length < 2 ^ 31 ∧ o.exactTotal < 2 ^ 63

/-- What the read model can describe fits. -/
theorem OrderDto.Describes.fits {d : OrderDto} {o : Order} (h : d.Describes o) : o.Fits := by
  obtain ⟨m, -, hm⟩ := h.total
  have hcount := d.itemCount.toInt_lt
  rw [h.itemCount] at hcount
  exact ⟨by exact_mod_cast hcount, hm ▸ m.cents.toInt_lt⟩

/-- The read model of an order describes it exactly when the order fits. -/
theorem toDto_describes_iff (o : Order) : (toDto o).Describes o ↔ o.Fits := by
  constructor
  · intro h
    exact h.fits
  · rintro ⟨hcount, hfits⟩
    have hexact := o.totalsExact_iff_fits.mpr hfits
    obtain ⟨m, hm, hsum, -⟩ := hexact.total
    refine ⟨rfl, rfl, rfl, ⟨m, hm, hsum⟩, Int32.toInt_ofNat_of_lt hcount, ?_⟩
    rw [toDto, List.forall₂_map_left_iff, List.forall₂_same]
    intro it hit
    obtain ⟨l, hl⟩ := hexact.lineTotal it hit
    exact ⟨rfl, rfl, rfl, l, hl, OrderItem.lineTotal_eq_some_iff.mp hl⟩

/-! ## Commands -/

/-- The commands that answer with a read model. -/
def Request.answersDto : Request → Bool
  | .addItem _ _ _ => false
  | .removeItem _ => false
  | _ => true

theorem reply_eq_dto_iff {req : Request} {o : Order} {d : OrderDto} :
    req.reply o = .dto d ↔ req.answersDto = true ∧ toDto o = d := by
  cases req <;> simp [Request.reply, Request.answersDto]

/-- The commands that answer with a read model leave the items alone. -/
theorem fits_after_iff {req : Request} (h : req.answersDto = true) (o : Order) :
    (req.operation.after o).Fits ↔ o.Fits := by
  have hitems : (req.operation.after o).items = o.items := by
    cases req with
    | addItem product qty price | removeItem idx => cases h
    | submit | cancel reason | ship | complete =>
        simp [Request.operation, Order.Operation.after, Order.Operation.edit]
  simp only [Order.Fits, Order.exactTotal, hitems]

namespace OrderApplicationService

variable {s : OrderApplicationService} {id : OrderId} {req : Request}

/-- A command that fails leaves the service as it was.  One that succeeds replaces the
order it is addressed to, and no other, by what the operation of the aggregate makes of
it, under the same number, customer and address; an answer describes that order. -/
def AtomicAndLocal (s : OrderApplicationService) (id : OrderId) (req : Request) : Prop :=
  match s.execute id req with
  | (.error _, t) => t = s
  | (.ok reply, t) =>
      ∃ o o', s.repo.findById id = some o ∧ o.apply req.operation = .ok o' ∧
        (∀ id', t.repo.findById id' = if id' = id then some o' else s.repo.findById id') ∧
        o'.id = o.id ∧ o'.customer = o.customer ∧ o'.addr = o.addr ∧
        ∀ d, reply = .dto d → d.Describes o'

theorem atomicAndLocal_of_error {e : DomainError} (h : s.load id req = .error e) :
    s.AtomicAndLocal id req := by
  rw [AtomicAndLocal, execute_of_error h]

/-- Of a command that succeeds, only the answer is in question. -/
theorem atomicAndLocal_of_ok {out : Outcome} {o : Order} (h : s.load id req = .ok out)
    (ho : s.repo.findById id = some o) (hacc : req.operation.Accepted o) :
    s.AtomicAndLocal id req ↔ (req.answersDto = true → o.Fits) := by
  obtain ⟨o₁, ho₁, -, hsaved, hreply, -⟩ := load_eq_ok h
  obtain rfl : o₁ = o := Option.some.inj (ho₁.symm.trans ho)
  have hid : o₁.id = id := InMemoryOrderRepository.id_of_findById ho
  have happly := Order.apply_of_accepted hacc
  have hanswer (d : OrderDto) : out.reply = .dto d ↔
      req.answersDto = true ∧ toDto (req.operation.after o₁) = d := by
    rw [hreply, reply_eq_dto_iff, hsaved]
  rw [AtomicAndLocal, execute_of_ok h]
  constructor
  · rintro ⟨o, o', ho', happly', -, -, -, -, hdescribes⟩ hdto
    obtain rfl : o = o₁ := Option.some.inj (ho'.symm.trans ho)
    obtain rfl : req.operation.after o = o' := Except.ok.inj (happly.symm.trans happly')
    have := hdescribes _ ((hanswer _).mpr ⟨hdto, rfl⟩)
    exact (fits_after_iff hdto o).mp ((toDto_describes_iff _).mp this)
  · intro hfits
    refine ⟨o₁, _, ho, happly, fun id' => ?_, rfl, rfl, rfl, fun d hd => ?_⟩
    · rw [repo_store, repo_publish, hsaved, InMemoryOrderRepository.findById_save,
        Order.id_after, hid]
      simp only [eq_comm]
    · obtain ⟨hdto, rfl⟩ := (hanswer d).mp hd
      exact (toDto_describes_iff _).mpr ((fits_after_iff hdto o₁).mpr (hfits hdto))

/-- **Commands are atomic and local**, and what a command answers describes the order it
saved, exactly as long as the orders it answers about fit. -/
theorem atomicAndLocal_iff (s : OrderApplicationService) (id : OrderId) (req : Request) :
    s.AtomicAndLocal id req ↔
      ∀ o, s.repo.findById id = some o → req.operation.Accepted o →
        req.answersDto = true → o.Fits := by
  cases hload : s.load id req with
  | error e =>
      refine iff_of_true (atomicAndLocal_of_error hload) fun o ho hacc => ?_
      exact absurd hacc (load_eq_error hload ho)
  | ok out =>
      obtain ⟨o, ho, hacc, -⟩ := load_eq_ok hload
      rw [atomicAndLocal_of_ok hload ho hacc]
      constructor
      · intro h o' ho' _
        obtain rfl : o = o' := Option.some.inj (ho.symm.trans ho')
        exact h
      · intro h
        exact h o ho hacc

/-- An order of two pieces at the largest price. -/
def dearOrder : Order := (Order.create ⟨"A"⟩ ⟨"C"⟩ ⟨"", "", ""⟩).perform Order.dearItem

/-- Submitting an order whose sum does not fit. -/
theorem not_atomicAndLocal_dearOrder :
    ¬ ∀ (s : OrderApplicationService) (id : OrderId) (req : Request), s.AtomicAndLocal id req := by
  intro h
  let s : OrderApplicationService := ⟨InMemoryOrderRepository.empty.save dearOrder, true, [], 0⟩
  have hfound : s.repo.findById ⟨"A"⟩ = some dearOrder :=
    InMemoryOrderRepository.findById_save .empty dearOrder ⟨"A"⟩
  have hacc : Request.submit.operation.Accepted dearOrder := by decide
  obtain ⟨out, hload, -⟩ := load_of_accepted hfound hacc
  have hsum := ((atomicAndLocal_of_ok hload hfound hacc).mp (h _ _ _) rfl).2
  revert hsum
  decide

end OrderApplicationService
end Opencode.Orders
