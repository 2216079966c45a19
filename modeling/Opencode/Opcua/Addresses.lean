import Opencode.Lib.Decimal
import Opencode.Opcua.PlcClient

/-!
# The addresses of cache keys

The poller turns the key of an item into a native node id: a number where `std::stoul` reads
one, narrowed to 32 bits, and a string otherwise.  `std::stoul` takes white space, a sign
and any text behind the digits, so the number of a key is not its text.

## Main definitions

* `NodeKey.IsNumber` — the id is the numeral of a positive 32-bit number.
* `PollItem.AsNamed` — a key that is no number is read as the string node it names.
* `NodeKey.Kept` — the keys that are addressed as they are.
* `addresses_differ_iff` — which items have addresses of their own.
-/

namespace Opencode.Opcua

open Opencode.Lib

/-! ## Reading numerals -/

/-- A digit is no white space. -/
theorem not_isspace_of_isDigit {c : Char} (h : c.isDigit = true) : isspace c = false := by
  have hne : ∀ d : Char, d.isDigit = false → c ≠ d := by
    rintro d hd rfl
    rw [h] at hd
    cases hd
  simp [isspace, hne]

/-- `std::stoul` reads a text of digits. -/
theorem stoul_of_isDigits {s : String} (h : IsDigits s.toList)
    (hlt : Nat.ofDigitChars 10 s.toList 0 < 2 ^ 64) :
    stoul s = some (UInt64.ofNat (Nat.ofDigitChars 10 s.toList 0)) := by
  obtain ⟨c, cs, hcs⟩ := List.exists_cons_of_ne_nil h.1
  have hmem : c ∈ s.toList := by simp [hcs]
  have hdrop : s.toList.dropWhile isspace = s.toList := by
    rw [hcs, List.dropWhile_cons_of_neg (by simp [not_isspace_of_isDigit (h.2 c hmem)])]
  have htake : s.toList.takeWhile (·.isDigit) = s.toList := List.takeWhile_eq_self_iff.mpr h.2
  have hminus : c ≠ '-' := h.ne hmem rfl
  have hplus : c ≠ '+' := h.ne hmem rfl
  unfold stoul
  rw [hdrop]
  split
  rename_i negative rest heq
  obtain ⟨rfl, rfl⟩ : false = negative ∧ s.toList = rest := by
    rw [hcs] at heq ⊢
    split at heq
    · rename_i hc
      exact absurd (List.cons.inj hc).1 hminus
    · rename_i hc
      exact absurd (List.cons.inj hc).1 hplus
    · exact Prod.mk.inj heq
  simp only [htake]
  rw [if_neg (not_or.mpr ⟨h.1, not_le.mpr hlt⟩)]
  rfl

/-- It reads the numeral of a 64-bit number. -/
theorem stoul_toString {n : ℕ} (h : n < 2 ^ 64) : stoul (toString n) = some (UInt64.ofNat n) := by
  have hlist : (toString n).toList = Nat.toDigits 10 n := Nat.toList_repr
  have hval : Nat.ofDigitChars 10 (toString n).toList 0 = n := by
    rw [hlist, Nat.ofDigitChars_ten_toDigits]
  rw [stoul_of_isDigits (hlist ▸ isDigits_toDigits n) (hval.symm ▸ h), hval]

/-! ## Keys -/

namespace NodeKey

/-- The id is the numeral of a positive 32-bit number. -/
def IsNumber (k : NodeKey) : Prop := ∃ n : ℕ, 0 < n ∧ n < 2 ^ 32 ∧ k.id = toString n

/-- The key is a number; or its namespace is a native one, `std::stoul` reads nothing or a
multiple of `2 ^ 32` in its id, and there is no null in it. -/
def Kept (k : NodeKey) : Prop :=
  k.IsNumber ∨
    k.ns.toNat < 65536 ∧ (∀ x, stoul k.id = some x → 2 ^ 32 ∣ x.toNat) ∧ '\x00' ∉ k.id.toList

end NodeKey

namespace PollItem

/-- An item whose id is no number is read as the string node with exactly that id. -/
def AsNamed (item : PollItem) : Prop :=
  ¬ item.key.IsNumber →
    ∃ ns : UInt16, ns.toNat = item.key.ns.toNat ∧ item.nodeId = .string ns item.key.id

variable {item i j : PollItem}

theorem numId_eq_zero_iff : item.numId = 0 ↔ ∀ x, stoul item.key.id = some x → 2 ^ 32 ∣ x.toNat := by
  unfold numId
  cases hx : stoul item.key.id with
  | none => simp
  | some x =>
      rw [← UInt32.toNat_inj]
      simp [Nat.dvd_iff_mod_eq_zero]

/-- The number of a numeral. -/
theorem nodeId_of_toString {n : ℕ} (hpos : 0 < n) (hlt : n < 2 ^ 32)
    (h : item.key.id = toString n) :
    item.nodeId = .numeric item.key.ns.toUInt16 (UInt32.ofNat n) := by
  have hnum : item.numId = UInt32.ofNat n := by
    rw [numId, h, stoul_toString (hlt.trans (by norm_num))]
    simp
  have hne : 0 < UInt32.ofNat n := by
    rw [UInt32.lt_iff_toNat_lt, UInt32.toNat_ofNat_of_lt' hlt]
    exact hpos
  rw [nodeId, hnum, if_pos hne]

theorem nodeId_of_numId_eq_zero (h : item.numId = 0) :
    item.nodeId = PlcClient.stringId item.key.ns item.key.id := by
  simp [nodeId, h]

/-- **An item is addressed as its key says** exactly if the key is kept. -/
theorem asNamed_iff : item.AsNamed ↔ item.key.Kept := by
  unfold AsNamed NodeKey.Kept
  by_cases hnum : item.key.IsNumber
  · simp [hnum]
  rw [← numId_eq_zero_iff]
  by_cases hzero : item.numId = 0
  · rw [nodeId_of_numId_eq_zero hzero, PlcClient.stringId_exact_iff]
    simp [hnum, hzero]
  · have hpos : 0 < item.numId := UInt32.pos_iff_ne_zero.mpr hzero
    simp [hnum, hzero, nodeId, hpos]

/-- A key that is kept is addressed as a number if it is one, and otherwise as a string. -/
theorem nodeId_of_kept (h : item.key.Kept) :
    (∃ n : ℕ, 0 < n ∧ n < 2 ^ 32 ∧ item.key.id = toString n ∧
      item.nodeId = .numeric item.key.ns.toUInt16 (UInt32.ofNat n)) ∨
    ¬ item.key.IsNumber ∧ item.nodeId = .string item.key.ns.toUInt16 item.key.id := by
  by_cases hnum : item.key.IsNumber
  · obtain ⟨n, hpos, hlt, hid⟩ := hnum
    exact .inl ⟨n, hpos, hlt, hid, nodeId_of_toString hpos hlt hid⟩
  · obtain ⟨-, hzero, hnul⟩ := h.resolve_left hnum
    refine .inr ⟨hnum, ?_⟩
    rw [nodeId_of_numId_eq_zero (numId_eq_zero_iff.mpr hzero), PlcClient.stringId,
      PlcClient.ofList_takeWhile_eq_iff.mpr hnul]

/-- The addresses of keys that are kept are told apart by the id and the native
namespace. -/
theorem nodeId_eq_iff_of_kept (hi : i.key.Kept) (hj : j.key.Kept) :
    i.nodeId = j.nodeId ↔
      i.key.ns.toUInt16 = j.key.ns.toUInt16 ∧ i.key.id = j.key.id := by
  rcases nodeId_of_kept hi with ⟨m, hm, hmlt, hiid, hinode⟩ | ⟨hinum, hinode⟩ <;>
    rcases nodeId_of_kept hj with ⟨n, hn, hnlt, hjid, hjnode⟩ | ⟨hjnum, hjnode⟩
  · rw [hinode, hjnode, hiid, hjid, UANodeId.numeric.injEq]
    refine and_congr_right fun _ => ⟨fun h => ?_, fun h => ?_⟩
    · rw [← UInt32.toNat_ofNat_of_lt' hmlt, h, UInt32.toNat_ofNat_of_lt' hnlt]
    · rw [Nat.repr_injective h]
  · refine iff_of_false (by simp [hinode, hjnode]) ?_
    rintro ⟨-, hid⟩
    exact hjnum ⟨m, hm, hmlt, hid ▸ hiid⟩
  · refine iff_of_false (by simp [hinode, hjnode]) ?_
    rintro ⟨-, hid⟩
    exact hinum ⟨n, hn, hnlt, hid ▸ hjid⟩
  · rw [hinode, hjnode, UANodeId.string.injEq]

/-- **Different keys have different addresses**, and those that are no numbers the string
address they name, exactly for pairs of kept keys that do not share an id in namespaces that
are the same natively. -/
theorem addresses_differ_iff (i j : PollItem) :
    (i.nodeId ≠ j.nodeId ∧ i.AsNamed ∧ j.AsNamed) ↔
      i.key.Kept ∧ j.key.Kept ∧
        (i.key.id = j.key.id → i.key.ns.toUInt16 ≠ j.key.ns.toUInt16) := by
  rw [asNamed_iff, asNamed_iff]
  constructor
  · rintro ⟨hne, hi, hj⟩
    exact ⟨hi, hj, fun hid hns => hne ((nodeId_eq_iff_of_kept hi hj).mpr ⟨hns, hid⟩)⟩
  · rintro ⟨hi, hj, hdiff⟩
    refine ⟨fun heq => ?_, hi, hj⟩
    obtain ⟨hns, hid⟩ := (nodeId_eq_iff_of_kept hi hj).mp heq
    exact hdiff hid hns

/-- Text behind the digits is not seen. -/
theorem not_addresses_differ_trailing :
    ¬ ∀ i j : PollItem, i.key ≠ j.key → i.nodeId ≠ j.nodeId ∧ i.AsNamed ∧ j.AsNamed := by
  intro h
  exact (h ⟨⟨0, "7"⟩, "Speed"⟩ ⟨⟨0, "7.Limit"⟩, "Limit"⟩ (by decide)).1 (by decide)

end PollItem
end Opencode.Opcua
