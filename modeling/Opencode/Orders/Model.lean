import Mathlib

/-!
# The order aggregate

The domain layer of the order service: money in cents, order items, the status
machine and the aggregate root `Order` with its public operations.

`Money` wraps the 64-bit integer of the source.  A signed overflow is undefined
behaviour there, so the arithmetic operators return an `Option` and `none` marks
an overflow; nothing below wraps around.  An `OrderItem` can only be built by
`OrderItem.create` and changed by `OrderItem.setQuantity`, so the two conditions
these check are fields of the structure.

An operation of `Order` returns the changed order, or the `DomainError` of the
path it left by; every error path of the source returns before its first write,
so an error carries no order.  `Order.perform` is the order a caller holds
afterwards.

## Main definitions

* `Money`, `OrderItem`, `OrderStatus`, `Order` — the aggregate.
* `DomainError` — error code and message.
* `Order.Operation`, `Order.apply`, `Order.perform` — the public operations, as
  one type of commands.
-/

namespace Opencode.Orders

/-! ## Errors -/

/-- The error codes of the domain layer. -/
inductive ErrorCode
  | none
  | notFound
  | emptyOrder
  | invalidQuantity
  | invalidUnitPrice
  | statusTransition
  | orderLocked
  | alreadyShipped
  | alreadyCancelled
  deriving DecidableEq, Repr

/-- The message a `DomainError` gets when none is given. -/
def ErrorCode.defaultMessage : ErrorCode → String
  | .notFound => "order not found"
  | .emptyOrder => "empty order cannot be submitted"
  | .invalidQuantity => "quantity must be positive"
  | .invalidUnitPrice => "unit price must be non-negative"
  | .statusTransition => "illegal status transition"
  | .orderLocked => "order items are locked after submission"
  | .alreadyShipped => "order already shipped and cannot be cancelled"
  | .alreadyCancelled => "order already cancelled"
  | .none => "unknown domain error"

/-- A domain error: a code and a message. -/
structure DomainError where
  code : ErrorCode
  message : String
  deriving DecidableEq, Repr

/-- `DomainError(code)`, with the default message. -/
def DomainError.ofCode (code : ErrorCode) : DomainError := ⟨code, code.defaultMessage⟩

/-- `Result<T>`: a value or a domain error. -/
abbrev Result (α : Type) := Except DomainError α

/-- `Result<T>::err(DomainError(code))`. -/
def err {α : Type} (code : ErrorCode) : Result α := .error (.ofCode code)

/-! ## Money -/

/-- An amount of money in cents. -/
structure Money where
  cents : Int64
  deriving DecidableEq, Repr

/-- The 64-bit value of an integer, when it has one. -/
def toInt64? (z : Int) : Option Int64 :=
  if -2 ^ 63 ≤ z ∧ z < 2 ^ 63 then some (Int64.ofInt z) else none

theorem toInt64?_eq_some_iff {z : Int} {x : Int64} : toInt64? z = some x ↔ x.toInt = z := by
  unfold toInt64?
  constructor
  · intro h
    split at h
    · rename_i hz
      obtain rfl : Int64.ofInt z = x := by simpa using h
      exact Int64.toInt_ofInt_of_le hz.1 hz.2
    · cases h
  · rintro rfl
    rw [if_pos ⟨x.le_toInt, x.toInt_lt⟩, Int64.ofInt_toInt]

namespace Money

def zero : Money := ⟨0⟩

/-- `operator+`; `none` on signed overflow. -/
def add (a b : Money) : Option Money := (toInt64? (a.cents.toInt + b.cents.toInt)).map Money.mk

/-- `operator*` by an `int`; `none` on signed overflow. -/
def mul (a : Money) (n : Int32) : Option Money :=
  (toInt64? (a.cents.toInt * n.toInt)).map Money.mk

/-- What fits 63 bits is an amount. -/
theorem exists_toInt_eq {z : Int} (hnonneg : 0 ≤ z) (hfits : z < 2 ^ 63) :
    ∃ m : Money, m.cents.toInt = z := by
  have hlow : -2 ^ 63 ≤ z := le_trans (by norm_num) hnonneg
  exact ⟨⟨.ofInt z⟩, Int64.toInt_ofInt_of_le hlow hfits⟩

end Money

/-! ## Items -/

/-- One line of an order.  The two proofs are what `create` and `setQuantity`
check before they let a value in. -/
structure OrderItem where
  product : String
  quantity : Int32
  unitPrice : Money
  quantity_pos : 0 < quantity
  unitPrice_nonneg : 0 ≤ unitPrice.cents
  deriving DecidableEq

namespace OrderItem

/-- `OrderItem::create`: the quantity is checked before the price. -/
def create (product : String) (qty : Int32) (unitPrice : Money) : Result OrderItem :=
  if hq : qty ≤ 0 then err .invalidQuantity
  else if hp : unitPrice.cents < Money.zero.cents then err .invalidUnitPrice
  else .ok ⟨product, qty, unitPrice, Int32.not_le.mp hq, Int64.not_lt.mp hp⟩

def lineTotal (it : OrderItem) : Option Money := it.unitPrice.mul it.quantity

/-- A quantity that is not positive is ignored. -/
def setQuantity (it : OrderItem) (q : Int32) : OrderItem :=
  if hq : 0 < q then { it with quantity := q, quantity_pos := hq } else it

end OrderItem

/-! ## Status -/

/-- The life-cycle states of an order. -/
inductive OrderStatus
  | created
  | confirmed
  | shipped
  | completed
  | cancelled
  deriving DecidableEq, Repr

namespace OrderStatus

/-- The transition table. -/
def canTransit : OrderStatus → OrderStatus → Bool
  | .created, next => next == .confirmed || next == .cancelled
  | .confirmed, next => next == .shipped || next == .cancelled
  | .shipped, next => next == .completed
  | .completed, _ => false
  | .cancelled, _ => false

def label : OrderStatus → String
  | .created => "Created"
  | .confirmed => "Confirmed"
  | .shipped => "Shipped"
  | .completed => "Completed"
  | .cancelled => "Cancelled"

end OrderStatus

/-! ## The aggregate root -/

/-- An order number. -/
@[ext] structure OrderId where
  value : String
  deriving DecidableEq, Repr

/-- A customer number. -/
structure CustomerId where
  value : String
  deriving DecidableEq, Repr

/-- A shipping address. -/
structure Address where
  city : String
  street : String
  detail : String
  deriving DecidableEq, Repr

/-- The aggregate root. -/
structure Order where
  id : OrderId
  customer : CustomerId
  addr : Address
  status : OrderStatus
  items : List OrderItem
  deriving DecidableEq

namespace Order

/-- The constructor: an empty order in status `created`. -/
def create (id : OrderId) (customer : CustomerId) (addr : Address) : Order :=
  ⟨id, customer, addr, .created, []⟩

/-- The order total, recomputed from the items; `none` on signed overflow. -/
def total (o : Order) : Option Money :=
  o.items.foldlM (fun t it => it.lineTotal.bind t.add) Money.zero

/-- `addItem`; only a confirmed order refuses. -/
def addItem (o : Order) (product : String) (qty : Int32) (price : Money) : Result Order :=
  if o.status = .confirmed then err .orderLocked
  else do
    let it ← OrderItem.create product qty price
    .ok { o with items := o.items ++ [it] }

/-- `setQuantity`; it reports nothing, whatever it did. -/
def setQuantity (o : Order) (idx : ℕ) (qty : Int32) : Order :=
  if o.status = .confirmed then o
  else { o with items := o.items.modify idx (·.setQuantity qty) }

/-- `removeItem`; only a confirmed order refuses. -/
def removeItem (o : Order) (idx : ℕ) : Result Order :=
  if o.status = .confirmed then err .orderLocked
  else if o.items.length ≤ idx then err .notFound
  else .ok { o with items := o.items.eraseIdx idx }

/-- `submit`: the order is confirmed and its total returned. -/
def submit (o : Order) : Result (Option Money × Order) :=
  if o.items.isEmpty then err .emptyOrder
  else if !o.status.canTransit .confirmed then err .statusTransition
  else
    let o' := { o with status := .confirmed }
    .ok (o'.total, o')

/-- The check and the write that `ship` and `complete` share. -/
def moveTo (o : Order) (next : OrderStatus) : Result Order :=
  if !o.status.canTransit next then err .statusTransition else .ok { o with status := next }

def ship (o : Order) : Result Order := o.moveTo .shipped

def complete (o : Order) : Result Order := o.moveTo .completed

/-- `cancel`; the reason is not used. -/
def cancel (o : Order) (_reason : String) : Result Order :=
  if o.status = .shipped then err .alreadyShipped
  else if o.status = .cancelled then err .alreadyCancelled
  else o.moveTo .cancelled

/-- The public operations with their arguments. -/
inductive Operation
  | addItem (product : String) (qty : Int32) (price : Money)
  | setQuantity (idx : ℕ) (qty : Int32)
  | removeItem (idx : ℕ)
  | submit
  | ship
  | complete
  | cancel (reason : String)
  deriving DecidableEq

/-- The operation's result: the order after it, or the error it returned. -/
def apply (o : Order) : Operation → Result Order
  | .addItem product qty price => o.addItem product qty price
  | .setQuantity idx qty => .ok (o.setQuantity idx qty)
  | .removeItem idx => o.removeItem idx
  | .submit => o.submit.map Prod.snd
  | .ship => o.ship
  | .complete => o.complete
  | .cancel reason => o.cancel reason

/-- The order the caller holds after the operation: a failed one wrote nothing. -/
def perform (o : Order) (op : Operation) : Order :=
  match o.apply op with
  | .ok o' => o'
  | .error _ => o

end Order
end Opencode.Orders
