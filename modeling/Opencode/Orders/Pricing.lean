import Opencode.Orders.Model

/-!
# Discounts

`OrderPricingService::discount` takes a percentage off a subtotal that reaches a
threshold.  The subtotal is multiplied by the rest of the hundred before the division,
in 64 bits, so a large subtotal overflows although the discounted total is no more than
the subtotal.

## Main definitions

* `OrderPricingService.discount`, `OrderPricingService.applyPercent` — the service.
* `DiscountExact` — what a quote is supposed to be.
* `discount_exact_iff` — the quote is that, exactly when the product fits.
-/

namespace Opencode.Orders

/-- The answer of the pricing service. -/
structure Quote where
  subtotal : Money
  discountPercent : Int32
  total : Money
  deriving DecidableEq

/-- The service, with its threshold of 500 yuan and its largest discount. -/
structure OrderPricingService where
  threshold : Money := ⟨50000⟩
  maxDiscountPercent : Int32 := 15
  deriving DecidableEq

namespace OrderPricingService

/-- `apply`: what is left of the subtotal, rounded toward zero; `none` on signed
overflow. -/
def applyPercent (subtotal : Money) (percent : Int32) : Option Money :=
  if percent ≤ 0 then some subtotal
  else (toInt64? (subtotal.cents.toInt * (100 - percent).toInt)).map fun c => ⟨c / 100⟩

def discount (s : OrderPricingService) (subtotal : Money) (discountPercentLimit : Int32) :
    Option Quote :=
  let pct :=
    if s.threshold.cents ≤ subtotal.cents ∧ 0 < discountPercentLimit then
      min discountPercentLimit s.maxDiscountPercent
    else 0
  (applyPercent subtotal pct).map (⟨subtotal, pct, ·⟩)

end OrderPricingService

open OrderPricingService

/-! ## The discounted total -/

/-- The quote's percentage is within its bounds, and its total is what the percentage
leaves of the subtotal, rounded down. -/
structure DiscountExact (subtotal : Money) (discountPercentLimit : Int32) (q : Quote) : Prop where
  subtotal_eq : q.subtotal = subtotal
  percent_nonneg : 0 ≤ q.discountPercent.toInt
  percent_le : q.discountPercent.toInt ≤ 15
  percent_le_limit : q.discountPercent.toInt ≤ max discountPercentLimit.toInt 0
  percent_of_lt : subtotal.cents.toInt < 50000 → q.discountPercent = 0
  total_eq : q.total.cents.toInt =
    subtotal.cents.toInt * (100 - q.discountPercent.toInt) / 100
  total_nonneg : 0 ≤ q.total.cents.toInt
  total_le : q.total.cents.toInt ≤ subtotal.cents.toInt

theorem toInt_hundred_sub {percent : Int32} (hpos : 0 ≤ percent.toInt) :
    (100 - percent).toInt = 100 - percent.toInt := by
  have hlt := percent.toInt_lt
  have hhundred : (100 : Int32).toInt = 100 := rfl
  rw [Int32.toInt_sub, hhundred]
  exact Int.bmod_eq_of_le (by omega) (by omega)

/-- A discount is computed exactly when the product fits, and is then rounded down. -/
theorem applyPercent_eq_some_iff {subtotal m : Money} {percent : Int32}
    (hsub : 0 ≤ subtotal.cents.toInt) (hpos : 0 < percent.toInt) (hle : percent.toInt ≤ 100) :
    applyPercent subtotal percent = some m ↔
      subtotal.cents.toInt * (100 - percent.toInt) < 2 ^ 63 ∧
        m.cents.toInt = subtotal.cents.toInt * (100 - percent.toInt) / 100 := by
  have hzero : (0 : Int32).toInt = 0 := rfl
  have hhundred : (100 : Int64).toInt = 100 := rfl
  have hnot : ¬ percent ≤ 0 := by
    rw [Int32.le_iff_toInt_le]
    omega
  have hnonneg : 0 ≤ subtotal.cents.toInt * (100 - percent.toInt) :=
    mul_nonneg hsub (by omega)
  rw [applyPercent, if_neg hnot, toInt_hundred_sub hpos.le]
  -- the quotient of a product that fits
  have hdiv (c : Int64) (hc : c.toInt = subtotal.cents.toInt * (100 - percent.toInt)) :
      (c / 100).toInt = subtotal.cents.toInt * (100 - percent.toInt) / 100 := by
    rw [Int64.toInt_div_of_ne_right c 100 (by decide), hhundred, hc,
      Int.tdiv_eq_ediv_of_nonneg hnonneg]
  simp only [Option.map_eq_some_iff, toInt64?_eq_some_iff]
  constructor
  · rintro ⟨c, hc, rfl⟩
    exact ⟨hc ▸ c.toInt_lt, hdiv c hc⟩
  · rintro ⟨hfits, hm⟩
    obtain ⟨product, hc⟩ := Money.exists_toInt_eq hnonneg hfits
    refine ⟨product.cents, hc, ?_⟩
    cases m
    rw [Money.mk.injEq, ← Int64.toInt_inj, hdiv _ hc, hm]

/-- What a percentage leaves of a subtotal is at most the subtotal. -/
theorem mul_hundred_sub_div_le {a p : Int} (ha : 0 ≤ a) (hp : 0 ≤ p) :
    a * (100 - p) / 100 ≤ a := by
  refine Int.ediv_le_of_le_mul (by norm_num) ?_
  exact mul_le_mul_of_nonneg_left (by omega) ha

/-- The rounded total is at most the subtotal, so only the product has to fit. -/
theorem exists_applyPercent_iff {subtotal : Money} {percent : Int32}
    (hsub : 0 ≤ subtotal.cents.toInt) (hpos : 0 < percent.toInt) (hle : percent.toInt ≤ 100) :
    (∃ m, applyPercent subtotal percent = some m) ↔
      subtotal.cents.toInt * (100 - percent.toInt) < 2 ^ 63 := by
  simp only [applyPercent_eq_some_iff hsub hpos hle, exists_and_left, and_iff_left_iff_imp]
  intro _
  have htotal := mul_hundred_sub_div_le hsub hpos.le
  refine Money.exists_toInt_eq ?_ (htotal.trans_lt subtotal.cents.toInt_lt)
  exact Int.ediv_nonneg (mul_nonneg hsub (by omega)) (by norm_num)

theorem toInt_min (a b : Int32) : (min a b).toInt = min a.toInt b.toInt := by
  have hmin : min a b = if a ≤ b then a else b := rfl
  simp only [hmin, min_def, Int32.le_iff_toInt_le]
  split <;> rfl

/-- A subtotal below the threshold, or a limit that allows nothing, is no discount. -/
theorem discount_of_not {subtotal : Money} {limit : Int32}
    (h : ¬ ((50000 : Int64) ≤ subtotal.cents ∧ 0 < limit)) :
    discount {} subtotal limit = some ⟨subtotal, 0, subtotal⟩ := by
  simp only [discount, h, if_false]
  rfl

theorem discount_of_reached {subtotal : Money} {limit : Int32}
    (h : (50000 : Int64) ≤ subtotal.cents ∧ 0 < limit) :
    discount {} subtotal limit =
      (applyPercent subtotal (min limit 15)).map (⟨subtotal, min limit 15, ·⟩) := by
  simp only [discount, h, and_self, if_true]

/-- Without a discount the quote is exact. -/
theorem discountExact_zero {subtotal : Money} (limit : Int32) (hsub : 0 ≤ subtotal.cents.toInt) :
    DiscountExact subtotal limit ⟨subtotal, 0, subtotal⟩ where
  subtotal_eq := rfl
  percent_nonneg := le_rfl
  percent_le := Int.zero_le_ofNat 15
  percent_le_limit := le_max_right _ _
  percent_of_lt := fun _ => rfl
  total_eq := by simp
  total_nonneg := hsub
  total_le := le_rfl

/-- A discount whose total is rounded down is exact. -/
theorem discountExact_of_total_eq {subtotal m : Money} {limit : Int32}
    (hsub : 50000 ≤ subtotal.cents.toInt) (hlimit : 0 < limit.toInt)
    (hm : m.cents.toInt = subtotal.cents.toInt * (100 - (min limit 15).toInt) / 100) :
    DiscountExact subtotal limit ⟨subtotal, min limit 15, m⟩ := by
  have hp := toInt_min limit 15
  have hfifteen : (15 : Int32).toInt = 15 := rfl
  refine ⟨rfl, ?_, ?_, ?_, fun hlt => absurd hlt hsub.not_gt, hm, ?_, ?_⟩
  · show 0 ≤ (min limit 15).toInt
    omega
  · show (min limit 15).toInt ≤ 15
    omega
  · show (min limit 15).toInt ≤ _
    omega
  · show 0 ≤ m.cents.toInt
    rw [hm]
    exact Int.ediv_nonneg (mul_nonneg (by omega) (by omega)) (by norm_num)
  · show m.cents.toInt ≤ _
    rw [hm]
    exact mul_hundred_sub_div_le (by omega) (by omega)

/-- **The discount is exact as long as its product fits.**  A subtotal that is not
negative gets an exact quote exactly when no discount applies to it or the subtotal times
the percentage that is left is below `2 ^ 63`. -/
theorem discount_exact_iff (subtotal : Money) (discountPercentLimit : Int32)
    (hsub : 0 ≤ subtotal.cents.toInt) :
    (∃ q, discount {} subtotal discountPercentLimit = some q ∧
        DiscountExact subtotal discountPercentLimit q) ↔
      subtotal.cents.toInt < 50000 ∨ discountPercentLimit.toInt ≤ 0 ∨
        subtotal.cents.toInt * (100 - min discountPercentLimit.toInt 15) < 2 ^ 63 := by
  have hthreshold : (50000 : Int64).toInt = 50000 := rfl
  have hzero : (0 : Int32).toInt = 0 := rfl
  by_cases hreached : (50000 : Int64) ≤ subtotal.cents ∧ 0 < discountPercentLimit
  · rw [discount_of_reached hreached]
    obtain ⟨hlarge, hlimit⟩ := hreached
    rw [Int64.le_iff_toInt_le, hthreshold] at hlarge
    rw [Int32.lt_iff_toInt_lt, hzero] at hlimit
    have hp : (min discountPercentLimit 15).toInt = min discountPercentLimit.toInt 15 :=
      toInt_min discountPercentLimit 15
    have hpos : 0 < (min discountPercentLimit 15).toInt := by omega
    have hle : (min discountPercentLimit 15).toInt ≤ 100 := by omega
    have hfits := exists_applyPercent_iff hsub hpos hle
    rw [← hp, or_iff_right hlarge.not_gt, or_iff_right hlimit.not_ge, ← hfits]
    constructor
    · rintro ⟨q, hq, -⟩
      obtain ⟨m, hm, -⟩ := Option.map_eq_some_iff.mp hq
      exact ⟨m, hm⟩
    · rintro ⟨m, hm⟩
      have htotal := ((applyPercent_eq_some_iff hsub hpos hle).mp hm).2
      exact ⟨_, Option.map_eq_some_iff.mpr ⟨m, hm, rfl⟩,
        discountExact_of_total_eq hlarge hlimit htotal⟩
  · refine iff_of_true ⟨_, discount_of_not hreached, discountExact_zero _ hsub⟩ ?_
    rw [Int64.le_iff_toInt_le, Int32.lt_iff_toInt_lt, hthreshold, hzero] at hreached
    omega

theorem discount_exact_iff_six_hundred :
    ∃ q, discount {} ⟨60000⟩ 10 = some q ∧ DiscountExact ⟨60000⟩ 10 q :=
  (discount_exact_iff ⟨60000⟩ 10 (by decide)).mpr (by decide)

/-- The largest amount overflows under a discount of ten percent. -/
theorem not_discount_exact_max :
    ¬ ∀ (subtotal : Money) (limit : Int32), 0 ≤ subtotal.cents.toInt →
      ∃ q, discount {} subtotal limit = some q ∧ DiscountExact subtotal limit q := by
  intro h
  obtain ⟨q, hq, -⟩ := h ⟨Int64.maxValue⟩ 10 (by decide)
  have hnone : discount {} ⟨Int64.maxValue⟩ 10 = none := by decide
  rw [hnone] at hq
  cases hq

end Opencode.Orders
