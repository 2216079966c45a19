import Opencode.Lib.Decimal
import Opencode.Orders.Model

/-!
# Amounts as text

`Money::format` prints the magnitude of an amount as yuan and two digits of fen, and puts
the sign in front.  The magnitude is taken by negating in 64 bits, which has no result
for the smallest amount.

## Main definitions

* `Money.format` — the text.
* `Money.Readable` — the text is a numeral with two places and its value is the amount.
* `format_readable_iff` — it is, but for the smallest amount.
-/

namespace Opencode.Orders.Money

open Opencode.Lib

/-- `%lld`. -/
def lld (x : Int64) : List Char := (toString x.toInt).toList

/-- What `snprintf` leaves in a buffer with room for its terminator. -/
def snprintf (size : ℕ) (text : List Char) : List Char := text.take (size - 1)

/-- The amount in yuan; `none` on signed overflow. -/
def format (m : Money) : Option String :=
  let c := m.cents
  let neg := decide (c < 0)
  (if neg then toInt64? (-c.toInt) else some c).map fun abs =>
    let yuan := abs / 100
    let fen := abs % 100
    -- "%lld.%02lld"
    let s := String.ofList (snprintf 32 (lld yuan ++ '.' :: (lld fen).leftpad 2 '0'))
    if neg then "-" ++ s else s

/-! ## The text of a magnitude -/

/-- Yuan and fen of a magnitude in fen. -/
def yuanText (n : ℕ) : List Char := Nat.toDigits 10 (n / 100)

def fenText (n : ℕ) : List Char := (Nat.toDigits 10 (n % 100)).leftpad 2 '0'

theorem lld_eq {x : Int64} {n : ℕ} (h : x.toInt = n) : lld x = Nat.toDigits 10 n := by
  rw [lld, h]
  exact Nat.toList_repr

theorem length_fenText (n : ℕ) : (fenText n).length = 2 :=
  length_leftpad_toDigits (by norm_num) (Nat.mod_lt n (by norm_num))

theorem isDigits_yuanText (n : ℕ) : IsDigits (yuanText n) := isDigits_toDigits _

theorem isDigits_fenText (n : ℕ) : IsDigits (fenText n) := (isDigits_toDigits _).leftpad 2

/-- The text of an amount fits the buffer. -/
theorem snprintf_text {n : ℕ} (h : n ≤ 2 ^ 63) :
    snprintf 32 (yuanText n ++ '.' :: fenText n) = yuanText n ++ '.' :: fenText n := by
  have hyuan : (yuanText n).length ≤ 17 :=
    (Nat.length_toDigits_le_iff (by norm_num) (by norm_num)).mpr (by omega)
  have hfen := length_fenText n
  refine List.take_of_length_le ?_
  rw [List.length_append, List.length_cons]
  omega

/-- The text reads as the magnitude. -/
theorem pointValue_text (n : ℕ) : pointValue (yuanText n) (fenText n) = n / 100 := by
  have hsplit : (n : ℚ) = 100 * (n / 100 : ℕ) + (n % 100 : ℕ) := by
    exact_mod_cast (Nat.div_add_mod n 100).symm
  rw [pointValue, length_fenText, fenText, ofDigitChars_leftpad, yuanText,
    Nat.ofDigitChars_ten_toDigits, Nat.ofDigitChars_ten_toDigits, hsplit]
  ring

/-! ## The text of an amount -/

theorem toInt_div_hundred {abs : Int64} {n : ℕ} (h : abs.toInt = n) :
    (abs / 100).toInt = (n / 100 : ℕ) ∧ (abs % 100).toInt = (n % 100 : ℕ) := by
  have hhundred : (100 : Int64).toInt = 100 := rfl
  rw [Int64.toInt_div_of_ne_right abs 100 (by decide), Int64.toInt_mod, h, hhundred]
  exact ⟨rfl, rfl⟩

/-- Only the smallest amount has no magnitude. -/
theorem exists_magnitude {c : Int64} (h : c ≠ Int64.minValue) :
    ∃ abs : Int64, (if decide (c < 0) then toInt64? (-c.toInt) else some c) = some abs ∧
      abs.toInt = c.toInt.natAbs := by
  have hlt := c.toInt_lt
  have hle := c.le_toInt
  have hmin : c.toInt ≠ -2 ^ 63 := fun heq => h (Int64.toInt_inj.mp heq)
  have hzero : (0 : Int64).toInt = 0 := rfl
  simp only [decide_eq_true_eq, Int64.lt_iff_toInt_lt, hzero]
  split
  · have habs : (Int64.ofInt (-c.toInt)).toInt = -c.toInt :=
      Int64.toInt_ofInt_of_le (by omega) (by omega)
    exact ⟨_, toInt64?_eq_some_iff.mpr habs, by omega⟩
  · exact ⟨c, rfl, by omega⟩

/-- The text is the sign, the yuan, the point and the fen. -/
theorem toList_format {m : Money} (h : m.cents ≠ Int64.minValue) :
    ∃ text, m.format = some text ∧
      text.toList = (if decide (m.cents < 0) then ['-'] else []) ++
        yuanText m.cents.toInt.natAbs ++ '.' :: fenText m.cents.toInt.natAbs := by
  obtain ⟨abs, hmagnitude, habs⟩ := exists_magnitude h
  obtain ⟨hyuan, hfen⟩ := toInt_div_hundred habs
  have htext : snprintf 32 (lld (abs / 100) ++ '.' :: (lld (abs % 100)).leftpad 2 '0') =
      yuanText m.cents.toInt.natAbs ++ '.' :: fenText m.cents.toInt.natAbs := by
    rw [lld_eq hyuan, lld_eq hfen]
    exact snprintf_text (by have := m.cents.toInt_lt; have := m.cents.le_toInt; omega)
  simp only [format, hmagnitude, Option.map_some, htext]
  refine ⟨_, rfl, ?_⟩
  split
  · rw [String.toList_append, String.toList_ofList, String.toList_ofList, List.append_assoc]
  · rw [String.toList_ofList]
    rfl

/-- Negating the smallest amount overflows. -/
theorem format_minValue : format ⟨Int64.minValue⟩ = none := by decide

/-- A text is a numeral with two places that has the value of the amount in yuan. -/
theorem readDecimal_format {m : Money} {text : String} (h : m.format = some text) :
    IsFixedPoint 2 text.toList ∧ readDecimal text.toList = some ((m.cents.toInt : ℚ) / 100) := by
  have hmin : m.cents ≠ Int64.minValue := by
    intro hmin
    obtain rfl : m = ⟨Int64.minValue⟩ := by rw [← hmin]
    rw [format_minValue] at h
    cases h
  obtain ⟨text', htext', hlist⟩ := toList_format hmin
  obtain rfl : text' = text := Option.some.inj (htext'.symm.trans h)
  have hyuan := isDigits_yuanText m.cents.toInt.natAbs
  have hfen := isDigits_fenText m.cents.toInt.natAbs
  have hzero : (0 : Int64).toInt = 0 := rfl
  refine ⟨⟨_, _, _, hlist, ?_, hyuan, hfen, length_fenText _⟩, ?_⟩
  · split
    · exact .inr rfl
    · exact .inl rfl
  · rw [hlist, readDecimal_fixedPoint _ hyuan hfen, pointValue_text]
    simp only [decide_eq_true_eq, Int64.lt_iff_toInt_lt, hzero, ← Int.cast_natCast (R := ℚ)]
    split
    · rename_i hneg
      rw [Int.natCast_natAbs, abs_of_neg hneg, Int.cast_neg, neg_div, neg_neg]
    · rename_i hnonneg
      rw [Int.natCast_natAbs, abs_of_nonneg (not_lt.mp hnonneg)]

/-! ## Reading back -/

/-- The text is an optional sign, digits, a point and two digits; it is read back as the
amount in yuan, and no other amount has it. -/
structure Readable (m : Money) (text : String) : Prop where
  shape : IsFixedPoint 2 text.toList
  value : readDecimal text.toList = some ((m.cents.toInt : ℚ) / 100)
  unique : ∀ m' : Money, m'.format = some text → m' = m

/-- **Every amount but the smallest is readable back.** -/
theorem format_readable_iff (m : Money) :
    (∃ text, m.format = some text ∧ m.Readable text) ↔ m.cents ≠ Int64.minValue := by
  constructor
  · rintro ⟨text, htext, -⟩ hmin
    obtain rfl : m = ⟨Int64.minValue⟩ := by rw [← hmin]
    rw [format_minValue] at htext
    cases htext
  · intro hmin
    obtain ⟨text, htext, -⟩ := toList_format hmin
    obtain ⟨hshape, hvalue⟩ := readDecimal_format htext
    refine ⟨text, htext, hshape, hvalue, fun m' hm' => ?_⟩
    have hsame : (m'.cents.toInt / 100 : ℚ) = m.cents.toInt / 100 :=
      Option.some.inj ((readDecimal_format hm').2.symm.trans hvalue)
    have hcents : (m'.cents.toInt : ℚ) = m.cents.toInt := by linarith
    cases m
    cases m'
    rw [Money.mk.injEq, ← Int64.toInt_inj]
    exact_mod_cast hcents

/-- The smallest amount has no text. -/
theorem not_format_readable_min :
    ¬ ∀ m : Money, ∃ text, m.format = some text ∧ m.Readable text := by
  intro h
  obtain ⟨text, htext, -⟩ := h ⟨Int64.minValue⟩
  rw [format_minValue] at htext
  cases htext

example : format ⟨-50⟩ = some "-0.50" := by decide

end Opencode.Orders.Money
