import Opencode.Lib.Paging
import Opencode.Orders.Commands

/-!
# Listing the orders

`listOrders` goes through `findPage`, which walks over the whole map with a counter and
keeps the entries of one page.  The page that is asked for starts at the first entry and
has 10000 entries at most, however many orders are stored.

## Main definitions

* `InMemoryOrderRepository.findPage`, `OrderApplicationService.listOrders` — the query.
* `OrderApplicationService.ListsAll` — the listing shows every order.
* `listsAll_iff` — it does as long as the orders are no more than a page.
-/

namespace Opencode.Orders

open Opencode.Lib

namespace InMemoryOrderRepository

/-- The stored orders, in the order of their numbers. -/
def orders (repo : InMemoryOrderRepository) : List Order := repo.store.toList.map Prod.snd

/-- One turn of the loop of `findPage`: the counter and the page so far; `none` on signed
overflow. -/
def findPageTurn (offset limit : Int32) : Int32 × List Order → Order → Option (Int32 × List Order)
  | (i, out), o =>
      let out := if offset ≤ i ∧ Int32.ofNat out.length < limit then out ++ [o] else out
      if i = Int32.maxValue then none else some (i + 1, out)

def findPage (repo : InMemoryOrderRepository) (offset limit : Int32) : Option (List Order) :=
  (repo.orders.foldlM (findPageTurn offset limit) (0, [])).map Prod.snd

end InMemoryOrderRepository

namespace OrderApplicationService

def listOrders (s : OrderApplicationService) : Option (Result (List OrderDto)) :=
  (s.repo.findPage 0 10000).map fun page => .ok (page.map toDto)

/-- The listing has one description for each stored order, in increasing order of the
numbers. -/
structure ListsAll (s : OrderApplicationService) (ds : List OrderDto) : Prop where
  sorted : (ds.map (·.id)).Pairwise (· < ·)
  describes : ∀ d ∈ ds, ∃ o, s.repo.findById ⟨d.id⟩ = some o ∧ d.Describes o
  complete : ∀ id o, s.repo.findById id = some o → ∃ d ∈ ds, d.id = id.value

end OrderApplicationService

/-! ## The page -/

namespace InMemoryOrderRepository

variable {repo : InMemoryOrderRepository}

/-- One more entry: the page is the one of the entries seen so far. -/
theorem findPageTurn_eq {offset limit : Int32} {m n : ℕ} (hoffset : offset.toInt = m)
    (hlimit : limit.toInt = n) {seen : List Order} (hseen : seen.length < 2 ^ 31) (o : Order) :
    findPageTurn offset limit (.ofNat seen.length, (seen.drop m).take n) o =
      if seen.length + 1 < 2 ^ 31 then
        some (.ofNat (seen.length + 1), ((seen ++ [o]).drop m).take n)
      else none := by
  have hindex : (Int32.ofNat seen.length).toInt = seen.length := Int32.toInt_ofNat_of_lt hseen
  have hmax : Int32.maxValue.toInt = 2 ^ 31 - 1 := rfl
  have hreached : offset ≤ .ofNat seen.length ↔ m ≤ seen.length := by
    rw [Int32.le_iff_toInt_le]
    omega
  have hlast : (Int32.ofNat seen.length = Int32.maxValue) ↔ ¬ seen.length + 1 < 2 ^ 31 := by
    rw [← Int32.toInt_inj]
    omega
  have hroom : Int32.ofNat ((seen.drop m).take n).length < limit ↔
      ((seen.drop m).take n).length < n := by
    have hlength : ((seen.drop m).take n).length ≤ seen.length := by
      rw [List.length_take, List.length_drop]
      omega
    have htoInt : (Int32.ofNat ((seen.drop m).take n).length).toInt =
        ((seen.drop m).take n).length := Int32.toInt_ofNat_of_lt (by omega)
    rw [Int32.lt_iff_toInt_lt]
    omega
  have hnext : Int32.ofNat (seen.length + 1) = .ofNat seen.length + 1 := Int32.ofNat_add _ _
  simp only [findPageTurn, hreached, hroom, ← take_drop_concat, hlast, ite_not, hnext]

/-- The loop over the rest of the entries. -/
theorem foldlM_findPageTurn {offset limit : Int32} {m n : ℕ} (hoffset : offset.toInt = m)
    (hlimit : limit.toInt = n) {seen : List Order} (hseen : seen.length < 2 ^ 31)
    (rest : List Order) :
    rest.foldlM (findPageTurn offset limit) (.ofNat seen.length, (seen.drop m).take n) =
      if seen.length + rest.length < 2 ^ 31 then
        some (.ofNat (seen.length + rest.length), ((seen ++ rest).drop m).take n)
      else none := by
  induction rest generalizing seen with
  | nil => simpa using hseen
  | cons o rest ih =>
      rw [List.foldlM_cons, findPageTurn_eq hoffset hlimit hseen]
      by_cases hnext : seen.length + 1 < 2 ^ 31
      · have hlength : (seen ++ [o]).length = seen.length + 1 := by simp
        have hrest := @ih (seen ++ [o]) (by omega)
        rw [hlength] at hrest
        rw [if_pos hnext]
        refine hrest.trans ?_
        rw [List.length_cons, List.append_assoc, Nat.add_assoc, Nat.add_comm 1]
        rfl
      · rw [if_neg hnext, if_neg (by rw [List.length_cons]; omega)]
        rfl

/-- **A page is cut out of the orders** from its offset on, unless the counter overflows. -/
theorem findPage_eq {offset limit : Int32} {m n : ℕ} (hoffset : offset.toInt = m)
    (hlimit : limit.toInt = n) :
    repo.findPage offset limit =
      if repo.orders.length < 2 ^ 31 then some ((repo.orders.drop m).take n) else none := by
  have hempty : ([] : List Order).length < 2 ^ 31 := by norm_num
  have hloop := foldlM_findPageTurn hoffset hlimit hempty repo.orders
  rw [List.length_nil, List.drop_nil, List.take_nil, Nat.zero_add] at hloop
  have hstart : repo.findPage offset limit =
      (repo.orders.foldlM (findPageTurn offset limit) (.ofNat 0, [])).map Prod.snd := rfl
  rw [hstart, hloop]
  split <;> rfl

/-! ## The stored orders -/

theorem length_orders (repo : InMemoryOrderRepository) :
    repo.orders.length = repo.store.size := by
  rw [orders, List.length_map, Std.TreeMap.length_toList]

theorem mem_orders_iff {o : Order} : o ∈ repo.orders ↔ repo.findById o.id = some o := by
  simp only [orders, List.mem_map, Prod.exists, exists_eq_right,
    Std.TreeMap.mem_toList_iff_getElem?_eq_some, findById]
  constructor
  · rintro ⟨k, hk⟩
    rwa [repo.keyed k o hk]
  · intro h
    exact ⟨_, h⟩

/-- The numbers of the stored orders increase. -/
theorem sorted_orders (repo : InMemoryOrderRepository) :
    (repo.orders.map (·.id.value)).Pairwise (· < ·) := by
  have hkeys : repo.orders.map (·.id.value) = repo.store.toList.map Prod.fst := by
    rw [orders, List.map_map]
    refine List.map_congr_left fun (k, o) hko => ?_
    exact repo.keyed k o (Std.TreeMap.mem_toList_iff_getElem?_eq_some.mp hko)
  rw [hkeys, List.pairwise_map]
  exact Std.TreeMap.ordered_keys_toList.imp fun h => compare_lt_iff_lt.mp h

/-- An order that has been saved stays saved. -/
theorem exists_findById_foldl_save (os : List Order) {repo : InMemoryOrderRepository}
    {id : OrderId} (h : (∃ o, repo.findById id = some o) ∨ ∃ o ∈ os, o.id = id) :
    ∃ o, (os.foldl save repo).findById id = some o := by
  induction os generalizing repo with
  | nil => simpa using h
  | cons a os ih =>
      refine ih ?_
      rw [findById_save]
      obtain ⟨o, ho⟩ | ⟨o, ho, hid⟩ := h
      · refine .inl ?_
        split
        · exact ⟨a, rfl⟩
        · exact ⟨o, ho⟩
      · obtain rfl | ho := List.mem_cons.mp ho
        · exact .inl ⟨o, if_pos hid⟩
        · exact .inr ⟨o, ho, hid⟩

end InMemoryOrderRepository

/-! ## The listing -/

namespace OrderApplicationService

variable {s : OrderApplicationService} {ds : List OrderDto}

/-- The listing describes the first 10000 orders. -/
theorem listOrders_eq_some_iff :
    s.listOrders = some (.ok ds) ↔
      s.repo.orders.length < 2 ^ 31 ∧ ds = (s.repo.orders.take 10000).map toDto := by
  rw [listOrders, InMemoryOrderRepository.findPage_eq (m := 0) (n := 10000) rfl rfl,
    List.drop_zero]
  split
  · rename_i h
    simp only [Option.map_some, Option.some.injEq, Except.ok.injEq, h, true_and, eq_comm]
  · rename_i h
    simp only [Option.map_none, reduceCtorEq, h, false_and]

/-- A listing that is complete is at least as long as any list of stored numbers. -/
theorem ListsAll.length_le (h : s.ListsAll ds) {ids : List String} (hnodup : ids.Nodup)
    (hids : ∀ k ∈ ids, ∃ o, s.repo.findById ⟨k⟩ = some o) : ids.length ≤ ds.length := by
  have hsubset : ids ⊆ ds.map (·.id) := by
    intro k hk
    obtain ⟨o, ho⟩ := hids k hk
    obtain ⟨d, hd, hdk⟩ := h.complete ⟨k⟩ o ho
    exact List.mem_map.mpr ⟨d, hd, hdk⟩
  calc ids.length ≤ (ds.map (·.id)).length := (hnodup.subperm hsubset).length_le
    _ = ds.length := List.length_map _

/-- The descriptions of all stored orders list them. -/
theorem listsAll_orders (hfits : ∀ id o, s.repo.findById id = some o → o.Fits) :
    s.ListsAll (s.repo.orders.map toDto) where
  sorted := by
    rw [List.map_map]
    exact s.repo.sorted_orders
  describes := by
    intro d hd
    obtain ⟨o, ho, rfl⟩ := List.mem_map.mp hd
    have hfound := InMemoryOrderRepository.mem_orders_iff.mp ho
    exact ⟨o, hfound, (toDto_describes_iff o).mpr (hfits _ o hfound)⟩
  complete := by
    intro id o ho
    obtain rfl := InMemoryOrderRepository.id_of_findById ho
    exact ⟨toDto o, List.mem_map_of_mem (InMemoryOrderRepository.mem_orders_iff.mpr ho), rfl⟩

/-- **The listing shows every order as long as the orders are no more than a page**, and
each of them fits its description. -/
theorem listsAll_iff (s : OrderApplicationService) :
    (∃ ds, s.listOrders = some (.ok ds) ∧ s.ListsAll ds) ↔
      s.repo.store.size ≤ 10000 ∧ ∀ id o, s.repo.findById id = some o → o.Fits := by
  have hlength := s.repo.length_orders
  constructor
  · rintro ⟨ds, hds, hall⟩
    obtain ⟨-, rfl⟩ := listOrders_eq_some_iff.mp hds
    constructor
    · have hnodup : (s.repo.orders.map (·.id.value)).Nodup :=
        s.repo.sorted_orders.imp fun h => h.ne
      have hle := hall.length_le hnodup fun k hk => by
        obtain ⟨o, ho, rfl⟩ := List.mem_map.mp hk
        exact ⟨o, InMemoryOrderRepository.mem_orders_iff.mp ho⟩
      rw [List.length_map, List.length_map, List.length_take] at hle
      omega
    · intro id o ho
      obtain ⟨d, hd, hid⟩ := hall.complete id o ho
      obtain ⟨o', ho', hdescribes⟩ := hall.describes d hd
      rw [hid] at ho'
      obtain rfl : o = o' := Option.some.inj (ho.symm.trans ho')
      exact hdescribes.fits
  · rintro ⟨hsize, hfits⟩
    refine ⟨_, listOrders_eq_some_iff.mpr ⟨by omega, ?_⟩, listsAll_orders hfits⟩
    rw [List.take_of_length_le (by omega)]

/-- New orders with numbers of their own. -/
def manyOrders (n : ℕ) : List Order :=
  (List.range n).map fun k => Order.create ⟨toString k⟩ ⟨"C"⟩ ⟨"", "", ""⟩

/-- A complete listing of many orders is long. -/
theorem ListsAll.length_manyOrders {n : ℕ}
    (hrepo : s.repo = (manyOrders n).foldl InMemoryOrderRepository.save .empty)
    (h : s.ListsAll ds) : n ≤ ds.length := by
  have hnodup : ((List.range n).map (toString : ℕ → String)).Nodup :=
    List.nodup_range.map fun i j hij => Nat.repr_injective hij
  have hle := h.length_le hnodup fun k hk => by
    obtain ⟨i, hi, rfl⟩ := List.mem_map.mp hk
    rw [hrepo]
    refine InMemoryOrderRepository.exists_findById_foldl_save _ (.inr ?_)
    exact ⟨_, List.mem_map_of_mem hi, rfl⟩
  rwa [List.length_map, List.length_range] at hle

/-- A listing is at most a page. -/
theorem length_le_of_listOrders (h : s.listOrders = some (.ok ds)) : ds.length ≤ 10000 := by
  obtain ⟨-, rfl⟩ := listOrders_eq_some_iff.mp h
  rw [List.length_map]
  exact List.length_take_le _ _

theorem not_listsAll_manyOrders :
    ¬ ∀ s : OrderApplicationService, ∃ ds, s.listOrders = some (.ok ds) ∧ s.ListsAll ds := by
  intro h
  obtain ⟨repo, hrepo⟩ :
      ∃ repo, repo = (manyOrders 10001).foldl InMemoryOrderRepository.save .empty := ⟨_, rfl⟩
  obtain ⟨ds, hds, hall⟩ := h ⟨repo, true, [], 0⟩
  have hmany : 10001 ≤ ds.length := hall.length_manyOrders hrepo
  have hpage := length_le_of_listOrders hds
  omega

end OrderApplicationService
end Opencode.Orders
