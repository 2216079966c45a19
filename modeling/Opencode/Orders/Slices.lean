import Opencode.Orders.Events

/-!
# The service is its aggregates, side by side

A command on an order is addressed to its number, and a new order to the number drawn for
it.  What is stored under a number, what has been published for it and what a command on
it answers depend on the commands addressed to that number alone, and are what the
aggregate makes of them, whatever happens to the other orders in between.  When the
counter has wrapped around, the aggregate under a number is created anew.

## Main definitions

* `AggregateCall`, `Aggregate` — one aggregate with the events published for it.
* `addressed` — the calls that a sequence of commands makes to an aggregate.
* `service_eq_aggregates` — the service against the aggregates.
-/

namespace Opencode.Orders

open OrderApplicationService (makeOrderId)

/-- What happens to one aggregate. -/
inductive AggregateCall
  | create (customer : CustomerId) (addr : Address)
  | handle (req : Request)

/-- An aggregate, if it was created, and the events published for it. -/
structure Aggregate where
  order : Option Order := none
  events : List DomainEvent := []

namespace Aggregate

/-- The aggregate after a call. -/
def step (id : OrderId) (a : Aggregate) : AggregateCall → Aggregate
  | .create customer addr => { a with order := some (Order.create id customer addr) }
  | .handle req =>
      match a.order with
      | none => a
      | some o =>
          match req.handle id o with
          | .error _ => a
          | .ok out => { order := some out.order, events := a.events ++ out.event.toList }

/-- What a command on the aggregate answers. -/
def answer (id : OrderId) (a : Aggregate) (req : Request) : Result Reply :=
  match a.order with
  | none => err .notFound
  | some o => (req.handle id o).map (·.reply)

/-- The aggregate after calls. -/
def run (id : OrderId) (calls : List AggregateCall) : Aggregate := calls.foldl (step id) {}

theorem run_append (id : OrderId) (calls calls' : List AggregateCall) :
    run id (calls ++ calls') = calls'.foldl (step id) (run id calls) :=
  List.foldl_append

end Aggregate

/-- What a command does to the aggregate of a number, with `n` orders created before it. -/
def Command.callTo (id : OrderId) (n : ℕ) : Command → List AggregateCall
  | .createOrder customer addr =>
      if makeOrderId (Int64.ofNat (n + 1)) = id then [.create customer addr] else []
  | .onOrder id' req => if id' = id then [.handle req] else []

/-- The calls of the commands to the aggregate of a number. -/
def addressed (id : OrderId) : ℕ → List Command → List AggregateCall
  | _, [] => []
  | n, c :: cmds => c.callTo id n ++ addressed id (n + if c.isCreate then 1 else 0) cmds

theorem addressed_append (id : OrderId) (n : ℕ) (cmds : List Command) (c : Command) :
    addressed id n (cmds ++ [c]) =
      addressed id n cmds ++ c.callTo id (n + cmds.countP Command.isCreate) := by
  induction cmds generalizing n with
  | nil => simp [addressed]
  | cons d cmds ih =>
      rw [List.cons_append, addressed, addressed, ih, List.append_assoc]
      congr 3
      rw [List.countP_cons]
      omega

namespace OrderApplicationService

/-- Under every number the service has the aggregate and the events given. -/
structure Holds (n : ℕ) (aggregates : OrderId → Aggregate) (s : OrderApplicationService) :
    Prop where
  publisher : s.publisher = true
  seq : s.seq = Int64.ofNat n
  stored : ∀ id, s.repo.findById id = (aggregates id).order
  events : ∀ id, s.published.filter (·.orderId = id) = (aggregates id).events

variable {n : ℕ} {aggregates : OrderId → Aggregate} {s : OrderApplicationService}

theorem Holds.start : Holds 0 (fun _ => {}) start where
  publisher := rfl
  seq := rfl
  stored id := by
    simp [OrderApplicationService.start, InMemoryOrderRepository.findById,
      InMemoryOrderRepository.empty]
  events id := rfl

/-- A command answers what the aggregate answers. -/
theorem Holds.answer (h : Holds n aggregates s) (id : OrderId) (req : Request) :
    (s.execute id req).1 = (aggregates id).answer id req := by
  have hstored := h.stored id
  unfold execute load Aggregate.answer
  rw [← hstored]
  cases s.repo.findById id with
  | none => rfl
  | some o =>
      cases hout : req.handle id o with
      | error e => simp [hout, Except.map]
      | ok out => simp [hout, Except.map]

/-- A new order takes the place of the aggregate under its number. -/
theorem Holds.createOrder (h : Holds n aggregates s) (customer : CustomerId) (addr : Address) :
    Holds (n + 1)
      (fun id =>
        ((Command.createOrder customer addr).callTo id n).foldl (Aggregate.step id)
          (aggregates id))
      (s.createOrder customer addr).2 := by
  rw [createOrder_eq h.seq]
  simp only [Command.callTo]
  generalize hseq : Int64.ofNat (n + 1) = seq
  refine ⟨h.publisher, hseq.symm, fun id => ?_, fun id => ?_⟩
  · rw [InMemoryOrderRepository.findById_save, h.stored id]
    by_cases hid : makeOrderId seq = id <;> simp [Aggregate.step, hid, Order.create]
  · refine (h.events id).trans ?_
    by_cases hid : makeOrderId seq = id <;> simp [Aggregate.step, hid]

/-- The order saved by a command keeps its number, and its event is about that number. -/
theorem handle_keeps {id : OrderId} {o : Order} {req : Request} {out : Outcome}
    (ho : o.id = id) (h : req.handle id o = .ok out) :
    out.order.id = id ∧ ∀ e ∈ out.event, e.orderId = id := by
  have hacc : req.operation.Accepted o := by
    by_contra hnot
    obtain ⟨e, he⟩ := handle_of_not_accepted id hnot
    rw [he] at h
    cases h
  rw [handle_of_accepted id hacc] at h
  obtain rfl := Except.ok.inj h
  exact ⟨by rw [Order.id_after, ho], fun e he => orderId_of_event (Option.mem_def.mp he)⟩

theorem Holds.execute (h : Holds n aggregates s) (id : OrderId) (req : Request) :
    Holds n
      (fun id' =>
        ((Command.onOrder id req).callTo id' n).foldl (Aggregate.step id') (aggregates id'))
      (s.execute id req).2 := by
  obtain ⟨hpub, hseq⟩ := execute_frame s id req
  -- nothing changes when the aggregate refuses
  have hsame : (s.execute id req).2 = s → (aggregates id).step id (.handle req) = aggregates id →
      Holds n
        (fun id' =>
          ((Command.onOrder id req).callTo id' n).foldl (Aggregate.step id') (aggregates id'))
        (s.execute id req).2 := by
    intro heq hstep
    have haggregates : (fun id' =>
        ((Command.onOrder id req).callTo id' n).foldl (Aggregate.step id') (aggregates id')) =
        aggregates := by
      funext id'
      by_cases hid : id = id'
      · subst hid
        simpa [Command.callTo] using hstep
      · simp [Command.callTo, hid]
    rw [heq, haggregates]
    exact h
  cases ho : s.repo.findById id with
  | none =>
      have hnone : (aggregates id).order = none := (h.stored id).symm.trans ho
      exact hsame (by simp [OrderApplicationService.execute, load, ho, err])
        (by simp [Aggregate.step, hnone])
  | some o =>
      have hsome : (aggregates id).order = some o := (h.stored id).symm.trans ho
      have hid : o.id = id := InMemoryOrderRepository.id_of_findById ho
      cases hout : req.handle id o with
      | error e =>
          exact hsame (by simp [OrderApplicationService.execute, load, ho, hout])
            (by simp [Aggregate.step, hsome, hout])
      | ok out =>
          obtain ⟨hkeeps, hevent⟩ := handle_keeps hid hout
          have hload : s.load id req = .ok out := by simp [load, ho, hout]
          refine ⟨hpub.trans h.publisher, hseq.trans h.seq, fun id' => ?_, fun id' => ?_⟩
          · rw [execute_of_ok hload, repo_store, repo_publish,
              InMemoryOrderRepository.findById_save, hkeeps, h.stored id']
            by_cases hid' : id = id'
            · subst hid'
              simp [Command.callTo, Aggregate.step, hsome, hout]
            · simp [Command.callTo, hid']
          · rw [execute_of_ok hload, published_store, published_publish h.publisher,
              List.filter_append, h.events id']
            by_cases hid' : id = id'
            · subst hid'
              have hfilter : out.event.toList.filter (·.orderId = id) = out.event.toList := by
                refine List.filter_eq_self.mpr fun e he => ?_
                simpa using hevent e (by simpa using he)
              simp [Command.callTo, Aggregate.step, hsome, hout, hfilter]
            · have hfilter : out.event.toList.filter (·.orderId = id') = [] := by
                refine List.filter_eq_nil_iff.mpr fun e he => ?_
                have := hevent e (by simpa using he)
                simp [this, hid']
              simp [Command.callTo, hid', hfilter]

theorem holds_commands (cmds : List Command) :
    Holds (cmds.countP Command.isCreate) (fun id => Aggregate.run id (addressed id 0 cmds))
      (cmds.foldl perform start) := by
  induction cmds using List.reverseRecOn with
  | nil => exact Holds.start
  | append_singleton cmds c ih =>
      have hruns : (fun id => Aggregate.run id (addressed id 0 (cmds ++ [c]))) = fun id =>
          (c.callTo id (cmds.countP Command.isCreate)).foldl (Aggregate.step id)
            (Aggregate.run id (addressed id 0 cmds)) := by
        funext id
        rw [addressed_append, Aggregate.run_append, Nat.zero_add]
      rw [List.countP_append, List.foldl_append, hruns]
      cases c with
      | createOrder customer addr => exact ih.createOrder customer addr
      | onOrder id req => exact ih.execute id req

/-- **The service is its aggregates, side by side.**  After any commands, what is stored
under a number and the events published for it are what its aggregate alone makes of the
commands addressed to it, and so is the answer of the next command. -/
theorem service_eq_aggregates (cmds : List Command) (id : OrderId) :
    let s := cmds.foldl perform start
    let a := Aggregate.run id (addressed id 0 cmds)
    s.repo.findById id = a.order ∧ s.published.filter (·.orderId = id) = a.events ∧
      ∀ req, (s.execute id req).1 = a.answer id req :=
  have h := holds_commands cmds
  ⟨h.stored id, h.events id, h.answer id⟩

end OrderApplicationService
end Opencode.Orders
