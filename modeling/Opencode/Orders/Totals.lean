import Opencode.Orders.Operations

/-!
# Order totals

`total` is recomputed from the items, a product for each item and a running sum, all in
64 bits.  The items are checked one by one, for a quantity that is positive and a price
that is not negative, and nothing bounds a price or the number of items from above.

Since no term is negative, the running sums grow along the list.  So no intermediate
value overflows exactly when the sum over all items fits, and the total is then that
sum.

## Main definitions

* `OrderItem.exactTotal`, `Order.exactTotal` — price times quantity over the integers.
* `Order.TotalsExact` — what is promised of the totals.
* `totalsExact_iff` — it is kept as long as the sum fits.
-/

namespace Opencode.Orders

/-! ## Amounts -/

namespace Money

theorem add_eq_some_iff {a b m : Money} :
    a.add b = some m ↔ m.cents.toInt = a.cents.toInt + b.cents.toInt := by
  cases m
  simp [add, toInt64?_eq_some_iff]

theorem mul_eq_some_iff {a m : Money} {n : Int32} :
    a.mul n = some m ↔ m.cents.toInt = a.cents.toInt * n.toInt := by
  cases m
  simp [mul, toInt64?_eq_some_iff]

end Money

/-! ## Lines -/

namespace OrderItem

/-- Price times quantity, over the integers. -/
def exactTotal (it : OrderItem) : Int := it.unitPrice.cents.toInt * it.quantity.toInt

theorem exactTotal_nonneg (it : OrderItem) : 0 ≤ it.exactTotal := by
  have hq : (0 : Int32).toInt < it.quantity.toInt := Int32.lt_iff_toInt_lt.mp it.quantity_pos
  have hp : (0 : Int64).toInt ≤ it.unitPrice.cents.toInt :=
    Int64.le_iff_toInt_le.mp it.unitPrice_nonneg
  exact mul_nonneg hp hq.le

theorem lineTotal_eq_some_iff {it : OrderItem} {m : Money} :
    it.lineTotal = some m ↔ m.cents.toInt = it.exactTotal := Money.mul_eq_some_iff

/-- An amount that fits is an amount. -/
theorem exists_lineTotal_iff {it : OrderItem} :
    (∃ m, it.lineTotal = some m) ↔ it.exactTotal < 2 ^ 63 := by
  simp only [lineTotal_eq_some_iff]
  constructor
  · rintro ⟨m, hm⟩
    rw [← hm]
    exact m.cents.toInt_lt
  · intro h
    exact Money.exists_toInt_eq it.exactTotal_nonneg h

end OrderItem

/-! ## Sums -/

namespace Order

/-- The sum over the items, over the integers. -/
def exactTotal (o : Order) : Int := (o.items.map OrderItem.exactTotal).sum

theorem sum_exactTotal_nonneg (items : List OrderItem) :
    0 ≤ (items.map OrderItem.exactTotal).sum :=
  List.sum_nonneg (by simpa using fun it _ => it.exactTotal_nonneg)

theorem exactTotal_nonneg (o : Order) : 0 ≤ o.exactTotal := sum_exactTotal_nonneg o.items

/-- One turn of the loop of `total`. -/
theorem add_lineTotal_eq_some_iff {t m : Money} {it : OrderItem} (ht : 0 ≤ t.cents.toInt) :
    it.lineTotal.bind t.add = some m ↔ m.cents.toInt = t.cents.toInt + it.exactTotal := by
  simp only [Option.bind_eq_some_iff, Money.add_eq_some_iff, OrderItem.lineTotal_eq_some_iff]
  constructor
  · rintro ⟨l, hl, hm⟩
    rw [hm, hl]
  · intro hm
    -- the line total is at most the sum, which is an amount
    have hfits : it.exactTotal < 2 ^ 63 := by
      have := m.cents.toInt_lt
      omega
    obtain ⟨l, hl⟩ := OrderItem.exists_lineTotal_iff.mpr hfits
    have hl := OrderItem.lineTotal_eq_some_iff.mp hl
    exact ⟨l, hl, by rw [hm, hl]⟩

/-- The loop of `total` returns an amount exactly when it is the sum. -/
theorem foldlM_lineTotal_eq_some_iff {items : List OrderItem} {t m : Money}
    (ht : 0 ≤ t.cents.toInt) :
    items.foldlM (fun t it => it.lineTotal.bind t.add) t = some m ↔
      m.cents.toInt = t.cents.toInt + (items.map OrderItem.exactTotal).sum := by
  induction items generalizing t with
  | nil =>
      cases t
      cases m
      simp [Int64.toInt_inj, eq_comm]
  | cons it items ih =>
      rw [List.foldlM_cons, List.map_cons, List.sum_cons, ← add_assoc]
      have hit := it.exactTotal_nonneg
      have hrest := sum_exactTotal_nonneg items
      constructor
      · intro h
        obtain ⟨t', ht', hm⟩ := Option.bind_eq_some_iff.mp h
        have ht' := (add_lineTotal_eq_some_iff ht).mp ht'
        rw [(ih (by omega)).mp hm, ht']
      · intro hm
        -- the running sum is at most the whole one
        have hfits := m.cents.toInt_lt
        have hnext : t.cents.toInt + it.exactTotal < 2 ^ 63 := by omega
        obtain ⟨t', ht'⟩ := Money.exists_toInt_eq (add_nonneg ht hit) hnext
        refine Option.bind_eq_some_iff.mpr ⟨t', (add_lineTotal_eq_some_iff ht).mpr ht', ?_⟩
        exact (ih (by omega)).mpr (by rw [hm, ht'])

theorem total_eq_some_iff {o : Order} {m : Money} :
    o.total = some m ↔ m.cents.toInt = o.exactTotal := by
  have hzero : Money.zero.cents.toInt = 0 := rfl
  rw [total, foldlM_lineTotal_eq_some_iff hzero.ge, hzero, zero_add]
  rfl

/-- A line is at most the whole sum. -/
theorem exactTotal_le_of_mem {o : Order} {it : OrderItem} (h : it ∈ o.items) :
    it.exactTotal ≤ o.exactTotal :=
  List.single_le_sum (by simpa using fun it _ => it.exactTotal_nonneg) _
    (List.mem_map_of_mem h)

/-- The items are valid, no product and no sum overflows, and the total is the sum of
price times quantity. -/
structure TotalsExact (o : Order) : Prop where
  quantity_pos : ∀ it ∈ o.items, 0 < it.quantity
  unitPrice_nonneg : ∀ it ∈ o.items, 0 ≤ it.unitPrice.cents
  lineTotal : ∀ it ∈ o.items, ∃ m, it.lineTotal = some m
  total : ∃ m, o.total = some m ∧ m.cents.toInt = o.exactTotal ∧ 0 ≤ m.cents.toInt

theorem totalsExact_iff_fits (o : Order) : o.TotalsExact ↔ o.exactTotal < 2 ^ 63 := by
  constructor
  · rintro ⟨-, -, -, m, -, hm, -⟩
    rw [← hm]
    exact m.cents.toInt_lt
  · intro h
    refine ⟨fun it _ => it.quantity_pos, fun it _ => it.unitPrice_nonneg, fun it hit => ?_, ?_⟩
    · exact OrderItem.exists_lineTotal_iff.mpr ((exactTotal_le_of_mem hit).trans_lt h)
    · obtain ⟨m, hm⟩ := Money.exists_toInt_eq o.exactTotal_nonneg h
      exact ⟨m, total_eq_some_iff.mpr hm, hm, hm ▸ o.exactTotal_nonneg⟩

/-! ## Runs -/

/-- A new order after a sequence of operations, whatever they returned. -/
def afterAll (id : OrderId) (customer : CustomerId) (addr : Address) (ops : List Operation) :
    Order :=
  ops.foldl perform (create id customer addr)

/-- **The totals of an order are exact as long as its sum fits.**  After any sequence of
operations, no product and no sum overflows and the total is the sum of price times
quantity, exactly when that sum is below `2 ^ 63`. -/
theorem totalsExact_iff (id : OrderId) (customer : CustomerId) (addr : Address)
    (ops : List Operation) :
    (afterAll id customer addr ops).TotalsExact ↔
      (afterAll id customer addr ops).exactTotal < 2 ^ 63 :=
  totalsExact_iff_fits _

/-- Two pieces at the largest price. -/
def dearItem : Operation := .addItem "P" 2 ⟨Int64.maxValue⟩

theorem not_totalsExact_dearItem :
    ¬ ∀ ops, (afterAll ⟨"A"⟩ ⟨"C"⟩ ⟨"", "", ""⟩ ops).TotalsExact := by
  intro h
  have hfits := (totalsExact_iff_fits _).mp (h [dearItem])
  revert hfits
  decide

end Order
end Opencode.Orders
