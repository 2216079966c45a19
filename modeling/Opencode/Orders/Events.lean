import Opencode.Orders.Service

/-!
# Published events and stored orders

The service publishes an event before it saves the order, in two of its seven
commands.  That the events of an order and its stored status agree after every
sequence of commands is an invariant of the repository, the list of published events
and the counter the order numbers are drawn from.

The counter is a 64-bit one and wraps around, so the `2 ^ 64 + 1`-st new order would get
the number of the first.  It never comes to that: no command takes an order out, every new
number is one more entry, and the map that stores the orders counts its entries in 64 bits
as well.

## Main definitions

* `Command`, `perform` — the seven commands of the service.
* `EventKind`, `eventsOf` — the events of one order.
* `EventsAgree` — the published events agree with the repository.
* `eventsAgree_commands` — up to `2 ^ 64` new orders they always do.
* `InMemoryOrderRepository.FitsMap` — what a map can hold.
* `eventsAgree_of_fitsMap` — so they do as long as there is a map.
-/

namespace Opencode.Orders

/-! ## Commands and events -/

/-- A command of the service with its arguments. -/
inductive Command
  | createOrder (customer : CustomerId) (addr : Address)
  | onOrder (id : OrderId) (req : Request)
  deriving DecidableEq

def Command.isCreate : Command → Bool
  | .createOrder _ _ => true
  | .onOrder _ _ => false

/-- The two kinds of events. -/
inductive EventKind
  | submitted
  | cancelled
  deriving DecidableEq

namespace DomainEvent

def orderId : DomainEvent → OrderId
  | .orderSubmitted id _ => id
  | .orderCancelled id => id

def kind : DomainEvent → EventKind
  | .orderSubmitted _ _ => .submitted
  | .orderCancelled _ => .cancelled

end DomainEvent

/-- The kinds of the events published for one order, in order. -/
def eventsOf (id : OrderId) (published : List DomainEvent) : List EventKind :=
  (published.filter (·.orderId = id)).map DomainEvent.kind

@[simp] theorem eventsOf_nil (id : OrderId) : eventsOf id [] = [] := rfl

theorem eventsOf_concat (id : OrderId) (published : List DomainEvent) (e : DomainEvent) :
    eventsOf id (published ++ [e]) =
      eventsOf id published ++ if e.orderId = id then [e.kind] else [] := by
  by_cases h : e.orderId = id <;> simp [eventsOf, List.filter_append, h]

/-- The events of an order tell its status, up to shipping and completion. -/
def Agree : List EventKind → OrderStatus → Prop
  | [], status => status = .created
  | [.submitted], status => status = .confirmed ∨ status = .shipped ∨ status = .completed
  | [.submitted, .cancelled], status => status = .cancelled
  | [.cancelled], status => status = .cancelled
  | _, _ => False

namespace OrderApplicationService

/-- The service over an empty repository, with a publisher. -/
def start : OrderApplicationService := ⟨.empty, true, [], 0⟩

/-- The service after a command, whatever the command answered. -/
def perform (s : OrderApplicationService) : Command → OrderApplicationService
  | .createOrder customer addr => (s.createOrder customer addr).2
  | .onOrder id req => (s.execute id req).2

/-- Every stored order has the status its events tell, and there are no events for an
order that is not stored. -/
def EventsAgree (s : OrderApplicationService) : Prop :=
  ∀ id, match s.repo.findById id with
    | none => eventsOf id s.published = []
    | some o => Agree (eventsOf id s.published) o.status

theorem EventsAgree.agree {s : OrderApplicationService} (h : s.EventsAgree) {id : OrderId}
    {o : Order} (ho : s.repo.findById id = some o) :
    Agree (eventsOf id s.published) o.status := by
  have hid := h id
  rwa [ho] at hid

/-! ## Commands on an order -/

/-- An accepted command moves the status along with the events. -/
theorem agree_after {kinds : List EventKind} {id : OrderId} {o : Order} {req : Request}
    (hacc : req.operation.Accepted o) (h : Agree kinds o.status) :
    Agree (kinds ++ ((req.event id (req.operation.after o)).map DomainEvent.kind).toList)
      (req.operation.after o).status := by
  have hstatus : (req.operation.after o).status = req.operation.target.getD o.status := rfl
  rw [hstatus]
  unfold Agree at h
  cases req with
  | addItem product qty price | removeItem idx =>
      simpa [Request.event, Request.operation, Order.Operation.target, Agree] using h
  | submit | cancel reason | ship | complete =>
      split at h <;>
        simp_all [Request.event, Request.operation, Order.Operation.target, Order.Operation.Accepted, Agree,
          DomainEvent.kind]

@[simp] theorem published_store (s : OrderApplicationService) (out : Outcome) :
    (s.store out).published = s.published := rfl

theorem published_publish {s : OrderApplicationService} (h : s.publisher = true)
    (e : Option DomainEvent) : (s.publish e).published = s.published ++ e.toList := by
  cases e with
  | none => simp [publish]
  | some e => simp [publish, h]

/-- A command on an order keeps the publisher and the counter. -/
theorem execute_frame (s : OrderApplicationService) (id : OrderId) (req : Request) :
    (s.execute id req).2.publisher = s.publisher ∧ (s.execute id req).2.seq = s.seq := by
  cases hload : s.load id req with
  | error e => simp [execute_of_error hload]
  | ok out =>
      rw [execute_of_ok hload]
      cases out.event with
      | none => simp [publish, store]
      | some e => by_cases hp : s.publisher <;> simp [publish, store, hp]

/-- A command does nothing, or it changes the order under its number and announces it. -/
theorem execute_cases {s : OrderApplicationService} (hp : s.publisher = true) (id : OrderId)
    (req : Request) :
    (s.execute id req).2 = s ∨
      ∃ o, s.repo.findById id = some o ∧ req.operation.Accepted o ∧
        (s.execute id req).2.repo = s.repo.save (req.operation.after o) ∧
        (s.execute id req).2.published =
          s.published ++ (req.event id (req.operation.after o)).toList := by
  cases hload : s.load id req with
  | error e => exact .inl (by simp [execute_of_error hload])
  | ok out =>
      obtain ⟨o, ho, hacc, horder, -, hevent⟩ := load_eq_ok hload
      refine .inr ⟨o, ho, hacc, ?_, ?_⟩
      · simp [execute_of_ok hload, horder]
      · simp [execute_of_ok hload, published_publish hp, hevent, horder]

/-- An event is about the order of its command. -/
theorem orderId_of_event {id : OrderId} {o : Order} {req : Request} {e : DomainEvent}
    (h : req.event id o = some e) : e.orderId = id := by
  cases req <;> simp_all [Request.event] <;> subst h <;> rfl

/-- A command announces its change for its own order only. -/
theorem eventsOf_append_event (id' id : OrderId) (published : List DomainEvent) (o : Order)
    (req : Request) :
    eventsOf id' (published ++ (req.event id o).toList) =
      eventsOf id' published ++
        if id = id' then ((req.event id o).map DomainEvent.kind).toList else [] := by
  cases he : req.event id o with
  | none => simp
  | some e =>
      rw [Option.toList_some, eventsOf_concat, orderId_of_event he]
      simp

theorem EventsAgree.execute {s : OrderApplicationService} (h : s.EventsAgree)
    (hp : s.publisher = true) (id : OrderId) (req : Request) :
    (s.execute id req).2.EventsAgree := by
  rcases execute_cases hp id req with hsame | ⟨o, ho, hacc, hrepo, hpub⟩
  · rw [hsame]
    exact h
  · have hid : o.id = id := InMemoryOrderRepository.id_of_findById ho
    intro id'
    have hold := h id'
    rw [hrepo, hpub, InMemoryOrderRepository.findById_save, Order.id_after, hid,
      eventsOf_append_event]
    by_cases heq : id = id'
    · subst heq
      simpa using agree_after hacc (h.agree ho)
    · simpa [heq] using hold

/-! ## New orders -/

/-- The order number made from a value of the counter. -/
def makeOrderId (seq : Int64) : OrderId := ⟨"ORD-" ++ toString seq.toInt⟩

theorem makeOrderId_injective : Function.Injective makeOrderId := by
  intro a b h
  have hstr : "ORD-" ++ toString a.toInt = "ORD-" ++ toString b.toInt := congrArg OrderId.value h
  exact Int64.toInt_inj.mp (Int.repr_injective ((String.append_right_inj _).mp hstr))

/-- The first `2 ^ 64` values of the counter are different. -/
theorem ofNat_inj_of_le {a b : ℕ} (ha : 1 ≤ a) (ha' : a ≤ 2 ^ 64) (hb : 1 ≤ b)
    (hb' : b ≤ 2 ^ 64) (h : Int64.ofNat a = Int64.ofNat b) : a = b := by
  have hmod := congrArg (fun x => x.toBitVec.toNat) h
  simp only [Int64.toBitVec_ofNat', BitVec.toNat_ofNat] at hmod
  omega

/-- After `n` new orders: as many are stored, they have the first `n` numbers, and the
events agree with them. -/
structure Numbered (n : ℕ) (s : OrderApplicationService) : Prop where
  publisher : s.publisher = true
  seq : s.seq = Int64.ofNat n
  stored : ∀ id o, s.repo.findById id = some o →
    ∃ k, 1 ≤ k ∧ k ≤ n ∧ id = makeOrderId (Int64.ofNat k)
  size : s.repo.store.size = n
  agree : s.EventsAgree

theorem Numbered.start : Numbered 0 start where
  publisher := rfl
  seq := rfl
  stored id o h := by
    simp [OrderApplicationService.start, InMemoryOrderRepository.findById,
      InMemoryOrderRepository.empty] at h
  size := Std.TreeMap.size_emptyc
  agree id := by
    simp [OrderApplicationService.start, InMemoryOrderRepository.findById,
      InMemoryOrderRepository.empty]

theorem Numbered.execute {n : ℕ} {s : OrderApplicationService} (h : Numbered n s)
    (id : OrderId) (req : Request) : Numbered n (s.execute id req).2 := by
  obtain ⟨hpub, hseq⟩ := execute_frame s id req
  have hagree := h.agree.execute h.publisher id req
  rcases execute_cases h.publisher id req with hsame | ⟨o, ho, -, hrepo, -⟩
  · rw [hsame]
    exact h
  · have hid : (req.operation.after o).id = id :=
      (Order.id_after _ _).trans (InMemoryOrderRepository.id_of_findById ho)
    refine ⟨hpub.trans h.publisher, hseq.trans h.seq, fun id' o' ho' => ?_, ?_, hagree⟩
    · rw [hrepo, InMemoryOrderRepository.findById_save, hid] at ho'
      split at ho'
      case isTrue heq => exact heq ▸ h.stored id o ho
      case isFalse => exact h.stored id' o' ho'
    · rw [hrepo, InMemoryOrderRepository.size_save, hid, ho]
      exact h.size

/-- The number drawn next is not in use. -/
theorem Numbered.findById_next {n : ℕ} {s : OrderApplicationService} (h : Numbered n s)
    (hn : n < 2 ^ 64) : s.repo.findById (makeOrderId (Int64.ofNat (n + 1))) = none := by
  cases ho : s.repo.findById (makeOrderId (Int64.ofNat (n + 1))) with
  | none => rfl
  | some o =>
      obtain ⟨k, hk, hkn, heq⟩ := h.stored _ o ho
      have hval := makeOrderId_injective heq
      have := ofNat_inj_of_le (by omega) (by omega) hk (by omega) hval
      omega

theorem createOrder_eq {n : ℕ} {s : OrderApplicationService} (hseq : s.seq = Int64.ofNat n)
    (customer : CustomerId) (addr : Address) :
    (s.createOrder customer addr).2 =
      { s with
        seq := Int64.ofNat (n + 1)
        repo := s.repo.save (Order.create (makeOrderId (Int64.ofNat (n + 1))) customer addr) } := by
  simp only [createOrder, makeOrderId, hseq, Int64.ofNat_add]
  rfl

theorem Numbered.createOrder {n : ℕ} {s : OrderApplicationService} (h : Numbered n s)
    (hn : n < 2 ^ 64) (customer : CustomerId) (addr : Address) :
    Numbered (n + 1) (s.createOrder customer addr).2 := by
  rw [createOrder_eq h.seq]
  refine ⟨h.publisher, rfl, fun id o ho => ?_, ?_, fun id => ?_⟩
  · simp only [InMemoryOrderRepository.findById_save] at ho
    split at ho
    case isTrue heq => exact ⟨n + 1, by omega, le_rfl, heq.symm⟩
    case isFalse =>
      obtain ⟨k, hk, hkn, heq⟩ := h.stored id o ho
      exact ⟨k, hk, by omega, heq⟩
  · have hfree := h.findById_next hn
    simp only [InMemoryOrderRepository.size_save, Order.create, hfree, h.size]
    rfl
  · have hold := h.agree id
    simp only [InMemoryOrderRepository.findById_save, Order.create]
    by_cases heq : makeOrderId (Int64.ofNat (n + 1)) = id
    · rw [if_pos heq]
      rw [← heq, h.findById_next hn] at hold
      rw [← heq, show eventsOf _ s.published = [] from hold]
      rfl
    · rw [if_neg heq]
      exact hold

/-- The invariant after a sequence of commands. -/
theorem numbered_commands (cmds : List Command) (h : cmds.countP Command.isCreate ≤ 2 ^ 64) :
    Numbered (cmds.countP Command.isCreate) (cmds.foldl perform start) := by
  induction cmds using List.reverseRecOn with
  | nil => exact Numbered.start
  | append_singleton cmds c ih =>
      rw [List.countP_append] at h ⊢
      rw [List.foldl_append]
      have hprev := ih (by omega)
      cases c with
      | createOrder customer addr =>
          simp only [List.countP_singleton, Command.isCreate] at h ⊢
          exact hprev.createOrder (by simpa using h) customer addr
      | onOrder id req => exact hprev.execute id req

/-- Events agree with stored orders after every sequence of commands with at most `2 ^ 64`
new orders. -/
theorem eventsAgree_commands (cmds : List Command)
    (h : cmds.countP Command.isCreate ≤ 2 ^ 64) :
    (cmds.foldl perform start).EventsAgree :=
  (numbered_commands cmds h).agree

/-- As long as the repository is a map, there are no more new orders than that. -/
theorem countP_isCreate_le {cmds : List Command}
    (h : ∀ pre, pre <+: cmds → (pre.foldl perform start).repo.FitsMap) :
    cmds.countP Command.isCreate ≤ 2 ^ 64 := by
  induction cmds using List.reverseRecOn with
  | nil => exact Nat.zero_le _
  | append_singleton cmds c ih =>
      have hprev := ih fun pre hpre => h pre (hpre.trans (List.prefix_append _ _))
      have hsize := (numbered_commands cmds hprev).size
      have hfits := h cmds (List.prefix_append _ _)
      rw [InMemoryOrderRepository.FitsMap, hsize] at hfits
      rw [List.countP_append, List.countP_singleton]
      split <;> omega

/-- **Events agree with stored orders** after every sequence of commands.  The repository is
a map throughout, which is all that is asked. -/
theorem eventsAgree_of_fitsMap (cmds : List Command)
    (h : ∀ pre, pre <+: cmds → (pre.foldl perform start).repo.FitsMap) :
    (cmds.foldl perform start).EventsAgree :=
  eventsAgree_commands cmds (countP_isCreate_le h)

/-- An order submitted and cancelled beside one that stays as created. -/
theorem eventsAgree_two_orders :
    (([.createOrder ⟨"A"⟩ ⟨"", "", ""⟩, .createOrder ⟨"B"⟩ ⟨"", "", ""⟩,
        .onOrder ⟨"ORD-1"⟩ (.addItem "pen" 2 ⟨150⟩), .onOrder ⟨"ORD-1"⟩ .submit,
        .onOrder ⟨"ORD-1"⟩ (.cancel "late")] : List Command).foldl perform start).EventsAgree := by
  refine eventsAgree_of_fitsMap _ fun pre hpre => ?_
  revert hpre
  rw [← List.mem_inits]
  revert pre
  decide +kernel

/-! ## Beyond any map

A store without a bound would see the counter wrap around. -/

/-- New orders move the counter and publish nothing. -/
theorem foldl_replicate_createOrder (s : OrderApplicationService) (customer : CustomerId)
    (addr : Address) (n : ℕ) :
    ((List.replicate n (.createOrder customer addr)).foldl perform s).seq =
        s.seq + Int64.ofNat n ∧
      ((List.replicate n (.createOrder customer addr)).foldl perform s).published =
        s.published := by
  induction n with
  | zero => simp
  | succ n ih =>
      obtain ⟨hseq, hpub⟩ := ih
      rw [List.replicate_succ', List.foldl_append]
      refine ⟨?_, hpub⟩
      simp only [List.foldl_cons, List.foldl_nil, perform, createOrder, hseq]
      rw [Int64.ofNat_add, Int64.add_assoc]
      rfl

/-- The last of them is stored as created. -/
theorem findById_replicate_createOrder (s : OrderApplicationService) (customer : CustomerId)
    (addr : Address) (n : ℕ) :
    ((List.replicate (n + 1) (.createOrder customer addr)).foldl perform s).repo.findById
        (makeOrderId (s.seq + Int64.ofNat n + 1)) =
      some (Order.create (makeOrderId (s.seq + Int64.ofNat n + 1)) customer addr) := by
  rw [List.replicate_succ', List.foldl_append]
  simp only [List.foldl_cons, List.foldl_nil, perform, createOrder,
    (foldl_replicate_createOrder s customer addr n).1]
  simp [makeOrderId, Order.create]

/-- The first order is cancelled, and when the counter is round its number is drawn
again: the order stored there is a new one, the event published for it a cancellation. -/
theorem not_eventsAgree_of_round {n : ℕ} (hround : 1 + Int64.ofNat n + 1 = 1) :
    ¬ (([.createOrder ⟨"A"⟩ ⟨"", "", ""⟩, .onOrder ⟨"ORD-1"⟩ (.cancel "")] ++
        List.replicate (n + 1) (.createOrder ⟨"B"⟩ ⟨"", "", ""⟩) :
          List Command).foldl perform start).EventsAgree := by
  rw [List.foldl_append]
  generalize hs : ([.createOrder ⟨"A"⟩ ⟨"", "", ""⟩, .onOrder ⟨"ORD-1"⟩ (.cancel "")] :
    List Command).foldl perform start = s
  have hseq : s.seq = 1 := by
    subst hs
    decide +kernel
  have hpub : eventsOf (makeOrderId 1) s.published = [.cancelled] := by
    subst hs
    decide +kernel
  intro h
  have hfind := findById_replicate_createOrder s ⟨"B"⟩ ⟨"", "", ""⟩ n
  rw [hseq, hround] at hfind
  have hagree := h.agree hfind
  rw [(foldl_replicate_createOrder s _ _ _).2, hpub] at hagree
  simp [Agree, Order.create] at hagree

/-- `2 ^ 64` further orders bring the counter round. -/
theorem not_eventsAgree_of_wrap :
    ¬ (([.createOrder ⟨"A"⟩ ⟨"", "", ""⟩, .onOrder ⟨"ORD-1"⟩ (.cancel "")] ++
        List.replicate (2 ^ 64) (.createOrder ⟨"B"⟩ ⟨"", "", ""⟩) :
          List Command).foldl perform start).EventsAgree := by
  have hpow : 2 ^ 64 = 2 ^ 64 - 1 + 1 := by norm_num
  rw [hpow]
  exact not_eventsAgree_of_round (by decide)

end OrderApplicationService

end Opencode.Orders
