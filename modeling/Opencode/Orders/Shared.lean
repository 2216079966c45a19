import Opencode.Lib.Run
import Opencode.Orders.Events

/-!
# Several services over one repository

A repository outlives the services built over it and can be shared by several of them.
Each service numbers its orders with a counter of its own, which starts at zero with the
service, and `save` overwrites what it finds under a number.  So the number of a new
order is new to the repository only if no other service has drawn it before.

What a service is ahead of is a matter of history, so each service carries the number of
orders it has created; the services themselves do not read it.

## Main definitions

* `ServiceInstance`, `Shop`, `Shop.step` — the repository, its services and their commands.
* `Shop.CreatesNew` — a new order takes a number not in use and leaves the others alone.
* `Shop.Leads` — no other service has created more orders.
* `createsNew_iff_leads` — the first is the second.
-/

namespace Opencode.Orders

open Opencode.Lib

/-- What a service has of its own, and how many orders it has created. -/
structure ServiceInstance where
  publisher : Bool
  published : List DomainEvent := []
  seq : Int64 := 0
  created : ℕ := 0

namespace ServiceInstance

/-- The service at work on the shared repository. -/
def service (c : ServiceInstance) (repo : InMemoryOrderRepository) : OrderApplicationService where
  repo := repo
  publisher := c.publisher
  published := c.published
  seq := c.seq

/-- What the service has of its own after a command. -/
def after (c : ServiceInstance) (cmd : Command) (s : OrderApplicationService) :
    ServiceInstance where
  publisher := s.publisher
  published := s.published
  seq := s.seq
  created := c.created + if cmd.isCreate then 1 else 0

end ServiceInstance

/-- The repository and the services built over it. -/
structure Shop where
  repo : InMemoryOrderRepository
  services : List ServiceInstance

namespace Shop

/-- A service is built, with or without a publisher, or one of them gets a command. -/
inductive Action
  | construct (publisher : Bool)
  | command (i : ℕ) (cmd : Command)
  deriving DecidableEq

def start : Shop := ⟨.empty, []⟩

def step (s : Shop) : Action → Option Shop
  | .construct publisher => some { s with services := s.services ++ [{ publisher }] }
  | .command i cmd =>
      s.services[i]?.map fun c =>
        let service := (c.service s.repo).perform cmd
        { s with repo := service.repo, services := s.services.set i (c.after cmd service) }

/-- A new order of the `i`-th service gets a number that is not in use, and every stored
order stays as it was. -/
def CreatesNew (s : Shop) (i : ℕ) (customer : CustomerId) (addr : Address) : Prop :=
  ∃ c id after, s.services[i]? = some c ∧
    (c.service s.repo).createOrder customer addr = (.ok id, after) ∧
    s.repo.findById id = none ∧
    ∀ id' o, s.repo.findById id' = some o → after.repo.findById id' = some o

/-- No service has created more orders than the `i`-th, and its counter is not round. -/
def Leads (s : Shop) (i : ℕ) : Prop :=
  ∃ c ∈ s.services[i]?, (∀ c' ∈ s.services, c'.created ≤ c.created) ∧ c.created < 2 ^ 64

instance (s : Shop) (i : ℕ) : Decidable (s.Leads i) :=
  inferInstanceAs (Decidable (∃ c ∈ s.services[i]?, _))

/-- The counters tell how many orders were created, and the orders of a service have the
numbers up to its count. -/
structure Numbered (s : Shop) : Prop where
  seq : ∀ c ∈ s.services, c.seq = Int64.ofNat c.created
  stored : ∀ id, (∃ o, s.repo.findById id = some o) ↔
    ∃ c ∈ s.services, ∃ k, 1 ≤ k ∧ k ≤ c.created ∧
      id = OrderApplicationService.makeOrderId (Int64.ofNat k)

/-! ## The numbers in use -/

open OrderApplicationService

theorem Numbered.start : Numbered start where
  seq := by simp [Shop.start]
  stored := by
    simp [Shop.start, InMemoryOrderRepository.findById, InMemoryOrderRepository.empty]

theorem Numbered.construct {s : Shop} (h : s.Numbered) (publisher : Bool) :
    Numbered { s with services := s.services ++ [{ publisher }] } where
  seq c hc := by
    rcases List.mem_append.mp hc with hc | hc
    · exact h.seq c hc
    · obtain rfl := List.mem_singleton.mp hc
      rfl
  stored id := by
    rw [h.stored id]
    constructor
    · rintro ⟨c, hc, hk⟩
      exact ⟨c, List.mem_append_left _ hc, hk⟩
    · rintro ⟨c, hc, k, hk, hkc, hid⟩
      rcases List.mem_append.mp hc with hc | hc
      · exact ⟨c, hc, k, hk, hkc, hid⟩
      · -- the new service has no numbers yet
        obtain rfl := List.mem_singleton.mp hc
        exact absurd (hk.trans hkc) (Nat.not_succ_le_zero 0)

/-- A command on an order stores no order under a number that was free. -/
theorem isSome_findById_execute (s : OrderApplicationService) (id : OrderId) (req : Request)
    (id' : OrderId) :
    (∃ o, (s.execute id req).2.repo.findById id' = some o) ↔
      ∃ o, s.repo.findById id' = some o := by
  cases hload : s.load id req with
  | error e => rw [execute_of_error hload]
  | ok out =>
      obtain ⟨o, ho, -, horder, -⟩ := load_eq_ok hload
      rw [execute_of_ok hload, repo_store, repo_publish,
        InMemoryOrderRepository.findById_save, horder, Order.id_after,
        InMemoryOrderRepository.id_of_findById ho]
      by_cases heq : id = id'
      · simp [← heq, ho]
      · simp [heq]

/-- A service replaced by one that has created no fewer orders. -/
theorem exists_mem_set_le {l : List ServiceInstance} {i : ℕ} {c x c' : ServiceInstance}
    (hc : l[i]? = some c) (hle : c.created ≤ x.created) (hc' : c' ∈ l) :
    ∃ c'' ∈ l.set i x, c'.created ≤ c''.created := by
  obtain ⟨hi, -⟩ := List.getElem?_eq_some_iff.mp hc
  obtain ⟨j, hj⟩ := List.mem_iff_getElem?.mp hc'
  by_cases heq : i = j
  · subst heq
    obtain rfl : c = c' := Option.some.inj (hc.symm.trans hj)
    exact ⟨x, List.mem_set hi x, hle⟩
  · refine ⟨c', List.mem_iff_getElem?.mpr ⟨j, ?_⟩, le_rfl⟩
    rw [List.getElem?_set_ne heq, hj]

/-- The numbers in use are those of the services after a command that leaves the others
alone and moves the numbers of its service along with the repository. -/
theorem Numbered.set {s : Shop} (h : s.Numbered) {i : ℕ} {c x : ServiceInstance}
    (hc : s.services[i]? = some c) (hseq : x.seq = Int64.ofNat x.created)
    (hle : c.created ≤ x.created) {repo : InMemoryOrderRepository}
    (hrepo : ∀ id, (∃ o, repo.findById id = some o) ↔ (∃ o, s.repo.findById id = some o) ∨
      ∃ k, c.created < k ∧ k ≤ x.created ∧ id = makeOrderId (Int64.ofNat k)) :
    Numbered { s with repo := repo, services := s.services.set i x } where
  seq c' hc' := by
    rcases List.mem_or_eq_of_mem_set hc' with hc' | rfl
    · exact h.seq c' hc'
    · exact hseq
  stored id := by
    obtain ⟨hi, -⟩ := List.getElem?_eq_some_iff.mp hc
    rw [hrepo, h.stored id]
    constructor
    · rintro (⟨c', hc', k, hk, hkc, hid⟩ | ⟨k, hk, hkx, hid⟩)
      · obtain ⟨c'', hc'', hle'⟩ := exists_mem_set_le hc hle hc'
        exact ⟨c'', hc'', k, hk, hkc.trans hle', hid⟩
      · exact ⟨x, List.mem_set hi x, k, Nat.one_le_of_lt hk, hkx, hid⟩
    · rintro ⟨c', hc', k, hk, hkc', hid⟩
      rcases List.mem_or_eq_of_mem_set hc' with hc' | rfl
      · exact .inl ⟨c', hc', k, hk, hkc', hid⟩
      · -- a number of the service itself: from before the command, or new
        rcases Nat.lt_or_ge c.created k with hlt | hge
        · exact .inr ⟨k, hlt, hkc', hid⟩
        · exact .inl ⟨c, List.mem_iff_getElem?.mpr ⟨i, hc⟩, k, hk, hge, hid⟩

theorem Numbered.createOrder_eq {s : Shop} (h : s.Numbered) {i : ℕ} {c : ServiceInstance}
    (hc : s.services[i]? = some c) (customer : CustomerId) (addr : Address) :
    (c.service s.repo).createOrder customer addr =
      (.ok (makeOrderId (Int64.ofNat (c.created + 1))),
        { c.service s.repo with
          seq := Int64.ofNat (c.created + 1)
          repo := s.repo.save
            (Order.create (makeOrderId (Int64.ofNat (c.created + 1))) customer addr) }) := by
  have hseq : c.seq + 1 = Int64.ofNat (c.created + 1) := by
    rw [h.seq c (List.mem_iff_getElem?.mpr ⟨i, hc⟩), Int64.ofNat_add]
    rfl
  simp only [createOrder, ServiceInstance.service, makeOrderId, hseq]

theorem Numbered.step {s t : Shop} {a : Action} (h : s.Numbered) (ht : s.step a = some t) :
    t.Numbered := by
  cases a with
  | construct publisher =>
      obtain rfl := Option.some.inj ht
      exact h.construct publisher
  | command i cmd =>
      obtain ⟨c, hc, rfl⟩ := Option.map_eq_some_iff.mp ht
      cases cmd with
      | createOrder customer addr =>
          have hcreate := h.createOrder_eq hc customer addr
          refine h.set hc ?_ (Nat.le_add_right _ _) fun id => ?_
          · simp only [OrderApplicationService.perform, hcreate]
            rfl
          simp only [OrderApplicationService.perform, hcreate,
            InMemoryOrderRepository.findById_save]
          have hk : ∀ k, c.created < k ∧ k ≤ c.created + 1 ↔ k = c.created + 1 := by omega
          simp only [ServiceInstance.after, Command.isCreate, if_true, ← and_assoc, hk,
            exists_eq_left, Order.create]
          generalize makeOrderId (Int64.ofNat (c.created + 1)) = new
          by_cases heq : new = id
          · simp [heq]
          · simp [heq, Ne.symm heq]
      | onOrder id req =>
          refine h.set hc ?_ (Nat.le_add_right _ _) fun id' => ?_
          · exact (execute_frame _ id req).2.trans (h.seq c (List.mem_iff_getElem?.mpr ⟨i, hc⟩))
          · rw [OrderApplicationService.perform, isSome_findById_execute]
            have hk : ∀ k, ¬ (c.created < k ∧ k ≤ c.created) := by omega
            simp [ServiceInstance.after, Command.isCreate, ServiceInstance.service, ← and_assoc, hk]

theorem numbered_run {actions : List Action} {s : Shop} (h : run step start actions = some s) :
    s.Numbered :=
  run_invariant (fun _ _ _ hnum ht => hnum.step ht) Numbered.start h

/-! ## New orders -/

/-- The number drawn next is free exactly when the service leads. -/
theorem Numbered.findById_next_iff {s : Shop} (h : s.Numbered) {i : ℕ} {c : ServiceInstance}
    (hc : s.services[i]? = some c) :
    s.repo.findById (makeOrderId (Int64.ofNat (c.created + 1))) = none ↔ s.Leads i := by
  have hmem : c ∈ s.services := List.mem_iff_getElem?.mpr ⟨i, hc⟩
  have hleads : s.Leads i ↔
      (∀ c' ∈ s.services, c'.created ≤ c.created) ∧ c.created < 2 ^ 64 := by
    simp [Leads, hc]
  rw [Option.eq_none_iff_forall_ne_some, ← not_exists, h.stored, hleads]
  constructor
  · intro hfree
    refine ⟨fun c' hc' => ?_, ?_⟩
    · by_contra hlt
      exact hfree ⟨c', hc', c.created + 1, Nat.le_add_left _ _, Nat.lt_of_not_le hlt, rfl⟩
    · -- a counter that is round draws its own first number again
      by_contra hround
      have hwrap : Int64.ofNat (c.created + 1) = Int64.ofNat (c.created + 1 - 2 ^ 64) := by
        conv_lhs => rw [show c.created + 1 = c.created + 1 - 2 ^ 64 + 2 ^ 64 by omega]
        rw [Int64.ofNat_add, show Int64.ofNat (2 ^ 64) = 0 from rfl, Int64.add_zero]
      exact hfree ⟨c, hmem, c.created + 1 - 2 ^ 64, by omega, by omega, congrArg makeOrderId hwrap⟩
  · rintro ⟨hle, hlt⟩ ⟨c', hc', k, hk, hkc', heq⟩
    have hkc := hkc'.trans (hle c' hc')
    have := ofNat_inj_of_le (Nat.le_add_left _ _) hlt hk (by omega) (makeOrderId_injective heq)
    omega

/-- **A new order destroys none exactly when its service leads**, in every state the
services can bring the repository to. -/
theorem createsNew_iff_leads {actions : List Action} {s : Shop}
    (h : run step start actions = some s) (i : ℕ) (customer : CustomerId) (addr : Address) :
    s.CreatesNew i customer addr ↔ s.Leads i := by
  have hnum := numbered_run h
  constructor
  · rintro ⟨c, id, after, hc, hcreate, hfree, -⟩
    rw [hnum.createOrder_eq hc] at hcreate
    cases hcreate
    exact (hnum.findById_next_iff hc).mp hfree
  · intro hleads
    obtain ⟨c, hc, -⟩ := id hleads
    have hfree := (hnum.findById_next_iff hc).mpr hleads
    refine ⟨c, _, _, hc, hnum.createOrder_eq hc customer addr, hfree, fun id' o ho => ?_⟩
    rw [InMemoryOrderRepository.findById_save, if_neg]
    · exact ho
    · rintro rfl
      exact absurd (hfree.symm.trans ho) (by simp)

/-- The second service takes over when the first has created no order yet. -/
theorem createsNew_of_leads :
    ∃ s, run step start [.construct false, .construct true,
        .command 1 (.createOrder ⟨"A"⟩ ⟨"", "", ""⟩)] = some s ∧
      s.CreatesNew 1 ⟨"B"⟩ ⟨"", "", ""⟩ := by
  have hleads : ∃ s ∈ run step start [.construct false, .construct true,
      .command 1 (.createOrder ⟨"A"⟩ ⟨"", "", ""⟩)], s.Leads 1 := by
    decide +kernel
  obtain ⟨s, hs, hleads⟩ := hleads
  exact ⟨s, hs, (createsNew_iff_leads hs 1 _ _).mpr hleads⟩

/-- A second service draws the number of the first one's order and saves over it. -/
theorem not_createsNew_second :
    ¬ ∃ s, run step start [.construct false, .construct true,
        .command 0 (.createOrder ⟨"A"⟩ ⟨"", "", ""⟩)] = some s ∧
      s.CreatesNew 1 ⟨"B"⟩ ⟨"", "", ""⟩ := by
  rintro ⟨s, hs, c, id, after, hc, hcreate, hfree, -⟩
  have hsecond : ∀ s ∈ run step start [.construct false, .construct true,
      .command 0 (.createOrder ⟨"A"⟩ ⟨"", "", ""⟩)], ∀ c ∈ s.services[1]?,
      ((c.service s.repo).createOrder ⟨"B"⟩ ⟨"", "", ""⟩).1 = Except.ok ⟨"ORD-1"⟩ ∧
        (s.repo.findById ⟨"ORD-1"⟩).isSome := by
    decide +kernel
  obtain ⟨hid, hsome⟩ := hsecond s hs c hc
  rw [hcreate] at hid
  cases hid
  simp [hfree] at hsome

end Shop
end Opencode.Orders
