import Mathlib.Algebra.Order.Ring.Nat
import Mathlib.Data.List.Basic
import Mathlib.Data.List.TakeWhile
import Mathlib.Tactic.Ring

/-!
# Byte memory

A memory gives a byte for every mapped address; reading anywhere else has no result.
Integers are stored with the least significant byte first.

## Main definitions

* `Memory` — a partial map from addresses to bytes.
* `readUnsigned`, `readSigned`, `readBytes` — reads of several bytes.
* `ZeroOn` — the memory is mapped and zero on a range.
* `takeWhile_ne_eq_self_iff` — texts that end at a terminator.
-/

namespace Opencode.Lib

/-- A text read up to its first terminator is the whole text exactly if it has none. -/
theorem takeWhile_ne_eq_self_iff {α : Type*} [DecidableEq α] {terminator : α} {text : List α} :
    text.takeWhile (· ≠ terminator) = text ↔ terminator ∉ text := by
  rw [List.takeWhile_eq_self_iff]
  constructor
  · intro h hmem
    simpa using h terminator hmem
  · rintro h x hx
    have hne : x ≠ terminator := fun heq => h (heq ▸ hx)
    simpa using hne

/-- The byte at each mapped address. -/
abbrev Memory := ℕ → Option UInt8

variable {mem : Memory} {addr n : ℕ}

/-- The unsigned integer of `n` bytes at an address. -/
def readUnsigned (mem : Memory) (addr : ℕ) : ℕ → Option ℕ
  | 0 => some 0
  | n + 1 =>
      (mem addr).bind fun low =>
        (readUnsigned mem (addr + 1) n).map fun high => low.toNat + 256 * high

/-- The signed integer of `n` bytes at an address. -/
def readSigned (mem : Memory) (addr n : ℕ) : Option ℤ :=
  (readUnsigned mem addr n).map fun x : ℕ => (x : ℤ).bmod (256 ^ n)

/-- The `n` bytes at an address. -/
def readBytes (mem : Memory) (addr : ℕ) : ℕ → Option (List UInt8)
  | 0 => some []
  | n + 1 =>
      (mem addr).bind fun byte => (readBytes mem (addr + 1) n).map (byte :: ·)

/-- `n` bytes hold an integer below `256 ^ n`. -/
theorem readUnsigned_lt {x : ℕ} (h : readUnsigned mem addr n = some x) : x < 256 ^ n := by
  induction n generalizing addr x with
  | zero =>
      cases h
      exact Nat.one_pos
  | succ n ih =>
      obtain ⟨low, -, h⟩ := Option.bind_eq_some_iff.mp h
      obtain ⟨high, hhigh, rfl⟩ := Option.map_eq_some_iff.mp h
      have hlow : low.toNat < 256 := low.toNat_lt
      have hrest : high < 256 ^ n := ih hhigh
      rw [Nat.pow_succ]
      omega

/-- At most eight bytes hold a 64-bit integer. -/
theorem readSigned_range {x : ℤ} (hn : n ≤ 8) (h : readSigned mem addr n = some x) :
    -2 ^ 63 ≤ x ∧ x < 2 ^ 63 := by
  obtain ⟨y, -, rfl⟩ := Option.map_eq_some_iff.mp h
  have hpos : 0 < 256 ^ n := Nat.pow_pos (by decide)
  have hle : 256 ^ n ≤ 256 ^ 8 := Nat.pow_le_pow_right (by decide) hn
  have hlow := Int.le_bmod (x := y) hpos
  have hhigh := Int.bmod_lt (x := y) hpos
  omega

/-- Only zero bytes hold zero. -/
theorem readSigned_eq_zero_iff : readSigned mem addr n = some 0 ↔ readUnsigned mem addr n = some 0 := by
  rw [readSigned, Option.map_eq_some_iff]
  constructor
  · rintro ⟨x, hx, h⟩
    have hlt := readUnsigned_lt hx
    have hdvd : ((256 ^ n : ℕ) : ℤ) ∣ x := by
      rw [Int.dvd_iff_bmod_eq_zero, h]
    have hzero : x = 0 := Nat.eq_zero_of_dvd_of_lt (by exact_mod_cast hdvd) hlt
    rw [hx, hzero]
  · intro h
    exact ⟨0, h, by simp⟩

/-- The `n` bytes at an address are mapped and zero. -/
def ZeroOn (mem : Memory) (addr n : ℕ) : Prop :=
  ∀ x, addr ≤ x → x < addr + n → mem x = some 0

theorem ZeroOn.mono {addr' n' : ℕ} (h : ZeroOn mem addr n) (hlo : addr ≤ addr')
    (hhi : addr' + n' ≤ addr + n) : ZeroOn mem addr' n' :=
  fun x hx hx' => h x (hlo.trans hx) (by omega)

theorem readUnsigned_of_zeroOn (h : ZeroOn mem addr n) : readUnsigned mem addr n = some 0 := by
  induction n generalizing addr with
  | zero => rfl
  | succ n ih =>
      have hlow : mem addr = some 0 := h addr le_rfl (by omega)
      have hhigh := ih (h.mono (by omega) (by omega) : ZeroOn mem (addr + 1) n)
      simp [readUnsigned, hlow, hhigh]

theorem readSigned_of_zeroOn (h : ZeroOn mem addr n) : readSigned mem addr n = some 0 := by
  simp [readSigned, readUnsigned_of_zeroOn h]

/-- Only the first byte counts where all others are zero. -/
theorem readUnsigned_first {byte : UInt8} (hfirst : mem addr = some byte)
    (h : ZeroOn mem (addr + 1) n) : readUnsigned mem addr (n + 1) = some byte.toNat := by
  simp [readUnsigned, hfirst, readUnsigned_of_zeroOn h]

/-- Only the last byte counts where all others are zero. -/
theorem readUnsigned_last {byte : UInt8} (h : ZeroOn mem addr n)
    (hlast : mem (addr + n) = some byte) :
    readUnsigned mem addr (n + 1) = some (256 ^ n * byte.toNat) := by
  induction n generalizing addr with
  | zero =>
      simp only [Nat.add_zero] at hlast
      simp [readUnsigned, hlast]
  | succ n ih =>
      have hlow : mem addr = some 0 := h addr le_rfl (by omega)
      have hhigh := ih (h.mono (by omega) (by omega) : ZeroOn mem (addr + 1) n)
        (by rw [← hlast]; congr 1; omega)
      rw [readUnsigned, hlow, hhigh]
      simp only [Option.bind_some, Option.map_some, UInt8.toNat_zero, Option.some.injEq]
      ring

end Opencode.Lib
