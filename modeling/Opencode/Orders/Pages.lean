import Opencode.Orders.Listing

/-!
# Reading the repository page by page

A client that asks for the pages at the offsets `0`, `k`, `2k`, … until one is empty has
seen every stored order once.  The offset of a page is an `int`, so the last page that can be
asked for is the one at the greatest multiple of `k` that is one.

## Main definitions

* `InMemoryOrderRepository.count`, `readPages` — the size, and the orders on the pages.
* `InMemoryOrderRepository.Lists` — every stored order once, in increasing order.
* `readPages_lists` — the pages list the repository.
-/

namespace Opencode.Orders

open Opencode.Lib

namespace InMemoryOrderRepository

def count (repo : InMemoryOrderRepository) : ℕ := repo.store.size

/-- The offsets `0`, `k`, `2k`, …, as far as an `int` goes. -/
def pageOffsets (k : Int32) : List Int32 :=
  (List.range ((2 ^ 31 - 1) / k.toNatClampNeg + 1)).map fun j => .ofNat (j * k.toNatClampNeg)

/-- The orders on the pages of `k` entries, up to the first empty page. -/
def readPages (repo : InMemoryOrderRepository) (k : Int32) : Option (List Order) :=
  untilEmpty (fun offset => repo.findPage offset k) (pageOffsets k)

/-- The orders are the stored ones, in increasing order of their numbers and so each of them
once. -/
structure Lists (repo : InMemoryOrderRepository) (os : List Order) : Prop where
  sorted : (os.map (·.id.value)).Pairwise (· < ·)
  stored : ∀ id o, repo.findById id = some o ↔ o ∈ os ∧ o.id = id
  count : os.length = repo.count

variable {repo : InMemoryOrderRepository} {k : Int32}

/-! ## The offsets -/

/-- A page size is a positive number. -/
theorem toInt_of_pos (hk : 0 < k) : 0 < k.toNatClampNeg ∧ k.toInt = k.toNatClampNeg := by
  have hpos : 0 < k.toInt := Int32.lt_iff_toInt_lt.mp hk
  have heq : k.toInt = k.toNatClampNeg := (Int.toNat_of_nonneg hpos.le).symm
  exact ⟨by omega, heq⟩

/-- The offsets are multiples of the page size, and the next one would be no `int`. -/
theorem pageOffsets_spec (hk : 0 < k) :
    (∀ j offset, (pageOffsets k)[j]? = some offset →
      offset.toInt = ((j * k.toNatClampNeg : ℕ) : ℤ)) ∧
    2 ^ 31 ≤ (pageOffsets k).length * k.toNatClampNeg := by
  have hpos := (toInt_of_pos hk).1
  constructor
  · intro j offset hj
    rw [pageOffsets, List.getElem?_map, Option.map_eq_some_iff] at hj
    obtain ⟨j', hj', rfl⟩ := hj
    obtain ⟨hlt, rfl⟩ := List.getElem?_eq_some_iff.mp hj'
    rw [List.getElem_range]
    rw [List.length_range] at hlt
    have hle : j * k.toNatClampNeg ≤ 2 ^ 31 - 1 :=
      (Nat.le_div_iff_mul_le hpos).mp (Nat.le_of_lt_succ hlt)
    exact Int32.toInt_ofNat_of_lt (by omega)
  · rw [pageOffsets, List.length_map, List.length_range]
    have hlt := Nat.lt_div_mul_add hpos (a := 2 ^ 31 - 1)
    rw [Nat.succ_mul]
    omega

/-! ## The pages -/

/-- The stored orders list the repository. -/
theorem lists_orders (repo : InMemoryOrderRepository) : repo.Lists repo.orders where
  sorted := repo.sorted_orders
  stored := by
    intro id o
    rw [mem_orders_iff]
    constructor
    · intro h
      obtain rfl := id_of_findById h
      exact ⟨h, rfl⟩
    · rintro ⟨h, rfl⟩
      exact h
  count := repo.length_orders

/-- **The pages tile the repository**: whatever is stored and whatever the size of a page,
the pages up to the first empty one list it. -/
theorem readPages_lists (repo : InMemoryOrderRepository) {k : Int32} (hk : 0 < k)
    (hsize : repo.count < 2 ^ 31) : ∃ os, repo.readPages k = some os ∧ repo.Lists os := by
  obtain ⟨hoffset, hend⟩ := pageOffsets_spec hk
  obtain ⟨hpos, hlimit⟩ := toInt_of_pos hk
  have hfits : repo.orders.length < 2 ^ 31 := by rwa [length_orders]
  have hread : repo.readPages k = some (repo.orders.drop 0) := by
    refine untilEmpty_eq_drop hpos (fun j offset hj => ?_) (by omega)
    rw [findPage_eq (hoffset j offset hj) hlimit, if_pos hfits, Nat.zero_add]
  exact ⟨repo.orders, hread, repo.lists_orders⟩

/-- Three orders on pages of two. -/
theorem readPages_lists_three :
    ∃ os, ((OrderApplicationService.manyOrders 3).foldl save .empty).readPages 2 = some os ∧
      ((OrderApplicationService.manyOrders 3).foldl save .empty).Lists os :=
  readPages_lists _ (by decide) (by decide)

end InMemoryOrderRepository
end Opencode.Orders
