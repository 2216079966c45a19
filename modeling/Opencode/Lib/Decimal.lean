import Mathlib.Algebra.Field.Rat
import Mathlib.Data.List.TakeWhile
import Mathlib.Tactic.Linarith

/-!
# Decimal numerals

Reading a decimal numeral: an optional sign, digits, and, after a point, more digits.
The value is rational, so nothing is rounded.  The numeral of a natural number and its
digits come from the core library.

## Main definitions

* `readDecimal` — the value of a numeral, or `none` for other text.
* `IsFixedPoint places` — the shape of a numeral with a fixed number of places.
* `readDecimal_fixedPoint` — the value of a numeral from its parts.
-/

namespace Opencode.Lib

/-- A text of one or more digits. -/
def IsDigits (cs : List Char) : Prop := cs ≠ [] ∧ ∀ c ∈ cs, c.isDigit = true

instance (cs : List Char) : Decidable (IsDigits cs) := inferInstanceAs (Decidable (_ ∧ _))

/-- The value of a text of digits. -/
def readDigits (cs : List Char) : Option ℕ :=
  if IsDigits cs then some (Nat.ofDigitChars 10 cs 0) else none

/-- The value of a numeral without a sign; the point and what follows it may be missing. -/
def readMagnitude (cs : List Char) : Option ℚ :=
  match cs.dropWhile (· ≠ '.') with
  | [] => (readDigits cs).map (↑)
  | _ :: frac => do
      let whole ← readDigits (cs.takeWhile (· ≠ '.'))
      let places ← readDigits frac
      some (whole + places / 10 ^ frac.length)

/-- The value of a numeral. -/
def readDecimal : List Char → Option ℚ
  | '-' :: cs => (readMagnitude cs).map (- ·)
  | cs => readMagnitude cs

/-- The value of a whole part and the digits after the point. -/
def pointValue (whole frac : List Char) : ℚ :=
  (Nat.ofDigitChars 10 whole 0 : ℕ) + (Nat.ofDigitChars 10 frac 0 : ℕ) / 10 ^ frac.length

/-- An optional sign, digits, the point and exactly `places` digits. -/
def IsFixedPoint (places : ℕ) (text : List Char) : Prop :=
  ∃ sign whole frac, text = sign ++ whole ++ '.' :: frac ∧ (sign = [] ∨ sign = ['-']) ∧
    IsDigits whole ∧ IsDigits frac ∧ frac.length = places

/-! ## Numerals of natural numbers -/

theorem isDigits_toDigits (n : ℕ) : IsDigits (Nat.toDigits 10 n) :=
  ⟨Nat.toDigits_ne_nil, fun _ hc => Nat.isDigit_of_mem_toDigits (by norm_num) (by norm_num) hc⟩

theorem IsDigits.leftpad {cs : List Char} (h : IsDigits cs) (width : ℕ) :
    IsDigits (cs.leftpad width '0') := by
  refine ⟨?_, fun c hc => ?_⟩
  · simp [List.leftpad, h.1]
  · rw [List.leftpad, List.mem_append, List.mem_replicate] at hc
    obtain ⟨-, rfl⟩ | hc := hc
    · rfl
    · exact h.2 c hc

/-- Leading zeros are worth nothing. -/
theorem ofDigitChars_leftpad (width : ℕ) (cs : List Char) :
    Nat.ofDigitChars 10 (cs.leftpad width '0') 0 = Nat.ofDigitChars 10 cs 0 := by
  rw [List.leftpad, Nat.ofDigitChars_append, Nat.ofDigitChars_replicate_zero, Nat.mul_zero]

/-- The number of digits of a number below a power of ten. -/
theorem length_leftpad_toDigits {n width : ℕ} (hwidth : 0 < width) (h : n < 10 ^ width) :
    ((Nat.toDigits 10 n).leftpad width '0').length = width := by
  rw [List.length_leftpad]
  exact max_eq_left ((Nat.length_toDigits_le_iff (by norm_num) hwidth).mpr h)

/-! ## Reading -/

theorem readDigits_of_isDigits {cs : List Char} (h : IsDigits cs) :
    readDigits cs = some (Nat.ofDigitChars 10 cs 0) := if_pos h

/-- Digits are no point and no sign. -/
theorem IsDigits.ne {cs : List Char} (h : IsDigits cs) {c d : Char} (hc : c ∈ cs)
    (hd : d.isDigit = false) : c ≠ d := by
  rintro rfl
  rw [h.2 c hc] at hd
  cases hd

/-- The point ends the whole part. -/
theorem IsDigits.span_point {whole : List Char} (h : IsDigits whole) (frac : List Char) :
    (whole ++ '.' :: frac).takeWhile (· ≠ '.') = whole ∧
      (whole ++ '.' :: frac).dropWhile (· ≠ '.') = '.' :: frac := by
  have hne : ∀ c ∈ whole, decide (c ≠ '.') = true := fun c hc => by simpa using h.ne hc rfl
  constructor
  · rw [List.takeWhile_append_of_pos hne]
    simp
  · rw [List.dropWhile_append_of_pos hne]
    simp

theorem readMagnitude_point {whole frac : List Char} (hwhole : IsDigits whole)
    (hfrac : IsDigits frac) :
    readMagnitude (whole ++ '.' :: frac) = some (pointValue whole frac) := by
  obtain ⟨htake, hdrop⟩ := hwhole.span_point frac
  simp only [readMagnitude, hdrop, htake, readDigits_of_isDigits hwhole,
    readDigits_of_isDigits hfrac]
  rfl

/-- A text that starts with a digit has no sign. -/
theorem readDecimal_of_isDigits {whole : List Char} (h : IsDigits whole) (rest : List Char) :
    readDecimal (whole ++ rest) = readMagnitude (whole ++ rest) := by
  obtain ⟨c, cs, rfl⟩ := List.exists_cons_of_ne_nil h.1
  have hc : c ≠ '-' := h.ne List.mem_cons_self rfl
  simp only [List.cons_append]
  unfold readDecimal
  split
  · rename_i heq
    exact absurd (List.cons.inj heq).1 hc
  · rfl

/-- **The value of a numeral from its parts.** -/
theorem readDecimal_fixedPoint (negative : Bool) {whole frac : List Char}
    (hwhole : IsDigits whole) (hfrac : IsDigits frac) :
    readDecimal ((if negative then ['-'] else []) ++ whole ++ '.' :: frac) =
      some (if negative then -pointValue whole frac else pointValue whole frac) := by
  have hread := readMagnitude_point hwhole hfrac
  cases negative with
  | false =>
      simp only [Bool.false_eq_true, if_false, List.nil_append]
      rw [readDecimal_of_isDigits hwhole, hread]
  | true =>
      simp only [if_true, List.cons_append, List.nil_append]
      rw [readDecimal, hread]
      rfl

end Opencode.Lib
