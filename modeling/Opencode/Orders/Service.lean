import Opencode.Orders.Operations

/-!
# The order application service and its repository

`InMemoryOrderRepository` is the ordered map from order numbers to orders; `save`
files an order under its own number, and the structure carries that fact.

A command of `OrderApplicationService` reads the order (`findById`), runs one
operation of the aggregate on its copy, and writes the whole copy back (`save`);
when the order is missing or the operation fails, nothing is written.  `load` is
the part up to the write and `store` the write, so that `execute` is one command
run alone and the two halves can also be interleaved with another client's.

## Main definitions

* `InMemoryOrderRepository` — `findById`, `save`.
* `OrderDto` — the read model a command answers with.
* `Request`, `load`, `store`, `execute` — the commands.
* `createOrder` — the one command that makes a new order.
-/

namespace Opencode.Orders

/-! ## The repository -/

/-- The in-memory repository.  Every order is filed under its own number. -/
structure InMemoryOrderRepository where
  store : Std.TreeMap String Order
  keyed : ∀ (k : String) (o : Order), store[k]? = some o → o.id.value = k

namespace InMemoryOrderRepository

def empty : InMemoryOrderRepository := ⟨∅, by simp⟩

def findById (repo : InMemoryOrderRepository) (id : OrderId) : Option Order :=
  repo.store[id.value]?

/-- `insert_or_assign` under the order's own number. -/
def save (repo : InMemoryOrderRepository) (o : Order) : InMemoryOrderRepository where
  store := repo.store.insert o.id.value o
  keyed := by
    intro k o' h
    rw [Std.TreeMap.getElem?_insert] at h
    split at h
    · rename_i hk
      obtain rfl : o = o' := by simpa using h
      simpa using hk
    · exact repo.keyed k o' h

@[simp] theorem findById_save (repo : InMemoryOrderRepository) (o : Order) (id : OrderId) :
    (repo.save o).findById id = if o.id = id then some o else repo.findById id := by
  have hiff : compare o.id.value id.value = .eq ↔ o.id = id := by
    rw [Std.LawfulEqCmp.compare_eq_iff_eq, OrderId.ext_iff]
  simp only [findById, save, Std.TreeMap.getElem?_insert, hiff]

/-- Only a new number takes an entry of its own. -/
theorem size_save (repo : InMemoryOrderRepository) (o : Order) :
    (repo.save o).store.size =
      if (repo.findById o.id).isSome then repo.store.size else repo.store.size + 1 := by
  rw [save, findById, Std.TreeMap.size_insert, Std.TreeMap.contains_eq_isSome_getElem?]

/-- `size()` of a `std::map` is a 64-bit number. -/
def FitsMap (repo : InMemoryOrderRepository) : Prop := repo.store.size < 2 ^ 64

instance (repo : InMemoryOrderRepository) : Decidable repo.FitsMap :=
  inferInstanceAs (Decidable (repo.store.size < 2 ^ 64))

/-- What is found under a number carries that number. -/
theorem id_of_findById {repo : InMemoryOrderRepository} {id : OrderId} {o : Order}
    (h : repo.findById id = some o) : o.id = id :=
  OrderId.ext (repo.keyed id.value o h)

end InMemoryOrderRepository

/-! ## The read model -/

/-- One line of the read model. -/
structure OrderItemDto where
  product : String
  quantity : Int32
  unitPrice : Money
  lineTotal : Option Money
  deriving DecidableEq

/-- The read model of an order; `none` amounts are the overflows of `Money`. -/
structure OrderDto where
  id : String
  customerId : String
  status : String
  total : Option Money
  itemCount : Int32
  items : List OrderItemDto
  deriving DecidableEq

def toDto (o : Order) : OrderDto where
  id := o.id.value
  customerId := o.customer.value
  status := o.status.label
  total := o.total
  itemCount := Int32.ofNat o.items.length
  items := o.items.map fun it => ⟨it.product, it.quantity, it.unitPrice, it.lineTotal⟩

/-! ## Commands -/

/-- The domain events a publisher receives. -/
inductive DomainEvent
  | orderSubmitted (id : OrderId) (total : Option Money)
  | orderCancelled (id : OrderId)
  deriving DecidableEq

/-- The commands on an existing order, with their arguments. -/
inductive Request
  | addItem (product : String) (qty : Int32) (price : Money)
  | removeItem (idx : ℕ)
  | submit
  | cancel (reason : String)
  | ship
  | complete
  deriving DecidableEq

/-- The aggregate operation a command runs. -/
def Request.operation : Request → Order.Operation
  | .addItem product qty price => .addItem product qty price
  | .removeItem idx => .removeItem idx
  | .submit => .submit
  | .cancel reason => .cancel reason
  | .ship => .ship
  | .complete => .complete

/-- What a successful command answers. -/
inductive Reply
  | void
  | dto (d : OrderDto)
  deriving DecidableEq

/-- A command that has run its operation and has yet to save. -/
structure Outcome where
  order : Order
  reply : Reply
  event : Option DomainEvent

/-- The part of a command between the read and the write. -/
def Request.handle (id : OrderId) (o : Order) : Request → Result Outcome
  | .addItem product qty price => (o.addItem product qty price).map (⟨·, .void, none⟩)
  | .removeItem idx => (o.removeItem idx).map (⟨·, .void, none⟩)
  | .submit => o.submit.map fun r => ⟨r.2, .dto (toDto r.2), some (.orderSubmitted id r.1)⟩
  | .cancel reason =>
      (o.cancel reason).map fun o' => ⟨o', .dto (toDto o'), some (.orderCancelled id)⟩
  | .ship => o.ship.map fun o' => ⟨o', .dto (toDto o'), none⟩
  | .complete => o.complete.map fun o' => ⟨o', .dto (toDto o'), none⟩

/-- The service: its repository, the publisher with what it has received, and the
counter new order numbers are drawn from. -/
structure OrderApplicationService where
  repo : InMemoryOrderRepository
  publisher : Bool
  published : List DomainEvent
  seq : Int64

namespace OrderApplicationService

/-- A new order under the next number of this service's counter. -/
def createOrder (s : OrderApplicationService) (customer : CustomerId) (addr : Address) :
    Result OrderId × OrderApplicationService :=
  let seq := s.seq + 1
  let id : OrderId := ⟨"ORD-" ++ toString seq.toInt⟩
  (.ok id, { s with seq := seq, repo := s.repo.save (Order.create id customer addr) })

/-- Read the order and run the operation on the copy. -/
def load (s : OrderApplicationService) (id : OrderId) (req : Request) : Result Outcome :=
  match s.repo.findById id with
  | none => err .notFound
  | some o => req.handle id o

/-- Hand the event to the publisher, if there are both. -/
def publish (s : OrderApplicationService) : Option DomainEvent → OrderApplicationService
  | some e => if s.publisher then { s with published := s.published ++ [e] } else s
  | none => s

/-- Write the whole copy back. -/
def store (s : OrderApplicationService) (out : Outcome) : OrderApplicationService :=
  { s with repo := s.repo.save out.order }

/-- One command from its read to its write, with nothing in between. -/
def execute (s : OrderApplicationService) (id : OrderId) (req : Request) :
    Result Reply × OrderApplicationService :=
  match s.load id req with
  | .error e => (.error e, s)
  | .ok out => (.ok out.reply, (s.publish out.event).store out)

def addItem (s : OrderApplicationService) (id : OrderId) (product : String) (qty : Int32)
    (price : Money) : Result Reply × OrderApplicationService :=
  s.execute id (.addItem product qty price)

def removeItem (s : OrderApplicationService) (id : OrderId) (idx : ℕ) :
    Result Reply × OrderApplicationService :=
  s.execute id (.removeItem idx)

def submit (s : OrderApplicationService) (id : OrderId) :
    Result Reply × OrderApplicationService :=
  s.execute id .submit

def cancel (s : OrderApplicationService) (id : OrderId) (reason : String) :
    Result Reply × OrderApplicationService :=
  s.execute id (.cancel reason)

def ship (s : OrderApplicationService) (id : OrderId) :
    Result Reply × OrderApplicationService :=
  s.execute id .ship

def complete (s : OrderApplicationService) (id : OrderId) :
    Result Reply × OrderApplicationService :=
  s.execute id .complete

@[simp] theorem repo_publish (s : OrderApplicationService) (e : Option DomainEvent) :
    (s.publish e).repo = s.repo := by
  cases e with
  | none => rfl
  | some e => by_cases h : s.publisher <;> simp [publish, h]

@[simp] theorem repo_store (s : OrderApplicationService) (out : Outcome) :
    (s.store out).repo = s.repo.save out.order := rfl

end OrderApplicationService

/-! ## What a command answers -/

/-- The reply of an accepted command, computed from the order it saves. -/
def Request.reply (o' : Order) : Request → Reply
  | .addItem _ _ _ => .void
  | .removeItem _ => .void
  | _ => .dto (toDto o')

/-- The total `submit` returns is that of the order it leaves. -/
theorem total_of_submit {o : Order} {r : Option Money × Order} (h : o.submit = .ok r) :
    r.1 = r.2.total := by
  simp only [Order.submit] at h
  repeat' split at h
  all_goals cases h
  rfl

/-- The event of an accepted command, computed from the order it saves. -/
def Request.event (id : OrderId) (o' : Order) : Request → Option DomainEvent
  | .submit => some (.orderSubmitted id o'.total)
  | .cancel _ => some (.orderCancelled id)
  | _ => none

/-- A command succeeds exactly when its operation is accepted; it then saves the
changed order, answers with that order's read model and announces what it did. -/
theorem handle_of_accepted (id : OrderId) {o : Order} {req : Request}
    (h : req.operation.Accepted o) :
    req.handle id o = .ok ⟨req.operation.after o, req.reply (req.operation.after o),
      req.event id (req.operation.after o)⟩ := by
  have happ := Order.apply_of_accepted h
  cases req with
  | submit =>
      cases hs : o.submit with
      | error e => simp [Request.operation, Order.apply, hs, Except.map] at happ
      | ok r =>
          have hr : r.2 = Request.submit.operation.after o := by
            simpa [Request.operation, Order.apply, hs, Except.map] using happ
          have htotal : r.1 = r.2.total := total_of_submit hs
          simp only [Request.handle, hs, Except.map, htotal, hr]
          rfl
  | _ =>
      simp only [Request.operation, Order.apply] at happ
      simp only [Request.handle, happ, Except.map]
      rfl

theorem handle_of_not_accepted (id : OrderId) {o : Order} {req : Request}
    (h : ¬ req.operation.Accepted o) : ∃ e, req.handle id o = .error e := by
  obtain ⟨e, he⟩ := Order.apply_of_not_accepted h
  cases req with
  | submit =>
      cases hs : o.submit with
      | ok r => simp [Request.operation, Order.apply, hs, Except.map] at he
      | error e' => exact ⟨e', by simp [Request.handle, hs, Except.map]⟩
  | _ =>
      simp only [Request.operation, Order.apply] at he
      exact ⟨e, by simp [Request.handle, he, Except.map]⟩

/-! ## One command alone -/

namespace OrderApplicationService

variable {s t : OrderApplicationService} {id : OrderId} {req : Request}

theorem execute_of_error {e : DomainError} (h : s.load id req = .error e) :
    s.execute id req = (.error e, s) := by
  simp [execute, h]

theorem execute_of_ok {out : Outcome} (h : s.load id req = .ok out) :
    s.execute id req = (.ok out.reply, (s.publish out.event).store out) := by
  simp [execute, h]

/-- A command reads nothing but the order under its number. -/
theorem load_congr (h : s.repo.findById id = t.repo.findById id) :
    s.load id req = t.load id req := by
  simp [load, h]

/-- A command gets past its read exactly when the order is there and accepts it. -/
theorem load_eq_ok {out : Outcome} (h : s.load id req = .ok out) :
    ∃ o, s.repo.findById id = some o ∧ req.operation.Accepted o ∧
      out.order = req.operation.after o ∧ out.reply = req.reply out.order ∧
      out.event = req.event id out.order := by
  unfold load at h
  cases ho : s.repo.findById id with
  | none => simp [ho, err] at h
  | some o =>
      simp only [ho] at h
      by_cases hacc : req.operation.Accepted o
      · rw [handle_of_accepted id hacc] at h
        cases h
        exact ⟨o, rfl, hacc, rfl, rfl, rfl⟩
      · obtain ⟨e, he⟩ := handle_of_not_accepted id hacc
        rw [he] at h
        cases h

theorem load_eq_error {e : DomainError} {o : Order} (h : s.load id req = .error e)
    (ho : s.repo.findById id = some o) : ¬ req.operation.Accepted o := by
  intro hacc
  simp [load, ho, handle_of_accepted id hacc] at h

theorem load_of_accepted {o : Order} (ho : s.repo.findById id = some o)
    (hacc : req.operation.Accepted o) :
    ∃ out, s.load id req = .ok out ∧ out.order = req.operation.after o ∧
      out.reply = req.reply (req.operation.after o) := by
  have hload : s.load id req = req.handle id o := by simp only [load, ho]
  exact ⟨_, hload.trans (handle_of_accepted id hacc), rfl, rfl⟩

end OrderApplicationService

end Opencode.Orders
