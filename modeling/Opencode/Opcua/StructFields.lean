import Opencode.Lib.Traverse
import Opencode.Opcua.StructParser

/-!
# The fields of a structure

`parseValue` has a case analysis of its own for the members of a structure: arrays,
structures, and everything else as a scalar.  An enumeration comes to `parseScalar`, which
has no branch for it: its field keeps the union of zeros, which is the right one only for the
value zero.  An array without elements leaves no field.

A member is taken where the parser looks for it, and the header of an array as the parser
reads it.

## Main definitions

* `parseMember` — the body of the loop over the members.
* `MemberInfo.IsEntry` — a field is what a member has to be parsed to.
* `structFields_iff` — when the fields are the entries of the members.
-/

namespace Opencode.Opcua

open Opencode.Lib

variable {mem : Memory} {base data : ℕ} {dt : DataType} {m : MemberInfo}

/-! ## The loop over the members -/

/-- The body of the loop: the fields a member leaves. -/
def parseMember (mem : Memory) (base : ℕ) (m : MemberInfo) : Option (List ParsedValue) :=
  let mptr := base + m.offset
  if m.isArray then do
    let arrPtr ← readUnsigned mem mptr 8
    let count ← if m.isDynArray then readUnsigned mem (mptr + 8) 8 else some m.fixedLen
    if arrPtr ≠ 0 ∧ 0 < count then
      let elems ← (List.range count).mapM fun i =>
        parseValue mem (arrPtr + i * m.uaType.memSize) m.uaType
          (m.name ++ "[" ++ toString i ++ "]")
      some [{ fieldName := m.name, ft := m.ft, isArray := true, arrayElems := elems }]
    else some []
  else if m.ft = .struct then (parseValue mem mptr m.uaType m.name).map ([·])
  else (parseScalar mem mptr m.uaType m.name).map ([·])

/-- The loop visits the members of the layout. -/
theorem parseFields_eq (mem : Memory) (base : ℕ) : ∀ members : Members,
    parseFields mem base members =
      ((analyzeMembers members).mapM (parseMember mem base)).map List.flatten
  | .nil => rfl
  | .cons memberName memberType padding isArray rest => by
      have hcons : parseFields mem base (.cons memberName memberType padding isArray rest) =
          (parseMember mem base (analyzeMember memberName memberType padding isArray)).bind
            fun field => (parseFields mem base rest).map (field ++ ·) := by
        rw [parseFields]
        rfl
      rw [hcons, parseFields_eq mem base rest, analyzeMembers, List.mapM_cons]
      cases parseMember mem base (analyzeMember memberName memberType padding isArray) with
      | none => rfl
      | some field => cases (analyzeMembers rest).mapM (parseMember mem base) <;> rfl

/-- The member comes from the analysis of a type: every array is a dynamic one, and the field
type is that of the type. -/
structure MemberInfo.Analyzed (m : MemberInfo) : Prop where
  isDynArray : m.isDynArray = m.isArray
  ft : m.ft = typeKindToFieldType m.uaType.typeKind

theorem analyzed_of_mem : ∀ {members : Members}, m ∈ analyzeMembers members → m.Analyzed
  | .cons _ _ _ _ _, h => by
      rcases List.mem_cons.mp h with rfl | h
      · exact ⟨rfl, rfl⟩
      · exact analyzed_of_mem h

/-! ## Entries -/

/-- The entry of a member: the value of its type at its address, or the array of the values
of its elements. -/
def MemberInfo.IsEntry (mem : Memory) (base : ℕ) (m : MemberInfo) (entry : ParsedValue) : Prop :=
  if m.isArray then
    entry.fieldName = m.name ∧ entry.isArray = true ∧
      ∃ arrPtr count, readUnsigned mem (base + m.offset) 8 = some arrPtr ∧
        readUnsigned mem (base + m.offset + 8) 8 = some count ∧
        (List.range count).mapM (fun i =>
          parseValue mem (arrPtr + i * m.uaType.memSize) m.uaType
            (m.name ++ "[" ++ toString i ++ "]")) = some entry.arrayElems
  else parseValue mem (base + m.offset) m.uaType m.name = some entry

/-- The member is an array with a pointer and elements, or no array; an enumeration of a size
that is read then has only zero bytes. -/
def MemberInfo.Kept (mem : Memory) (base : ℕ) (m : MemberInfo) : Prop :=
  if m.isArray then
    ∃ arrPtr count, readUnsigned mem (base + m.offset) 8 = some arrPtr ∧
      readUnsigned mem (base + m.offset + 8) 8 = some count ∧ arrPtr ≠ 0 ∧ 0 < count
  else m.uaType.typeKind = .enum → m.uaType.memSize ∈ [1, 2, 4] →
    readUnsigned mem (base + m.offset) m.uaType.memSize = some 0

/-- An array member leaves its entry if it has a pointer and elements, and nothing
otherwise. -/
theorem parseMember_of_array (harr : m.isArray = true) (hm : m.Analyzed)
    {field : List ParsedValue} (h : parseMember mem base m = some field) :
    (m.Kept mem base ∧ ∃ entry, field = [entry] ∧ m.IsEntry mem base entry) ∨
      ¬ m.Kept mem base ∧ field = [] := by
  simp only [parseMember, harr, hm.isDynArray, if_true] at h
  obtain ⟨arrPtr, hptr, h⟩ := Option.bind_eq_some_iff.mp h
  obtain ⟨count, hcount, h⟩ := Option.bind_eq_some_iff.mp h
  simp only [MemberInfo.Kept, MemberInfo.IsEntry, harr, if_true]
  by_cases hne : arrPtr ≠ 0 ∧ 0 < count
  · rw [if_pos hne] at h
    obtain ⟨elems, helems, h⟩ := Option.bind_eq_some_iff.mp h
    refine .inl ⟨⟨arrPtr, count, hptr, hcount, hne⟩, _, (Option.some.inj h).symm, rfl, rfl, ?_⟩
    exact ⟨arrPtr, count, hptr, hcount, helems⟩
  · rw [if_neg hne] at h
    refine .inr ⟨?_, (Option.some.inj h).symm⟩
    rintro ⟨arrPtr', count', hptr', hcount', hne'⟩
    rw [hptr, Option.some.injEq] at hptr'
    rw [hcount, Option.some.injEq] at hcount'
    exact hne (hptr' ▸ hcount' ▸ hne')

/-- The value of an enumeration is zero exactly if its bytes are, or none are read. -/
theorem parseEnum_eq_zero_iff {mptr : ℕ} :
    parseEnum mem mptr dt = some 0 ↔
      (dt.memSize ∈ [1, 2, 4] → readUnsigned mem mptr dt.memSize = some 0) := by
  have hone : (readUnsigned mem mptr 1).map (fun x : ℕ => (x : ℤ)) = some 0 ↔
      readUnsigned mem mptr 1 = some 0 := by
    cases readUnsigned mem mptr 1 <;> simp
  unfold parseEnum
  split
  case h_1 h => simp [h, hone]
  case h_2 h => simp [h, readSigned_eq_zero_iff]
  case h_3 h => simp [h, readSigned_eq_zero_iff]
  case h_4 h₁ h₂ h₄ =>
    refine iff_of_true rfl fun hmem => ?_
    simp only [List.mem_cons, List.not_mem_nil, or_false] at hmem
    exact (hmem.elim h₁ fun hmem => hmem.elim h₂ h₄).elim

/-- The value of an enumeration is one of 32 bits. -/
theorem parseEnum_range {mptr : ℕ} {x : ℤ} (h : parseEnum mem mptr dt = some x) :
    -2 ^ 63 ≤ x ∧ x < 2 ^ 63 := by
  unfold parseEnum at h
  split at h
  case h_1 =>
    obtain ⟨y, hy, rfl⟩ := Option.map_eq_some_iff.mp h
    have hlt := readUnsigned_lt hy
    omega
  case h_2 => exact readSigned_range (by decide) h
  case h_3 => exact readSigned_range (by decide) h
  case h_4 =>
    cases h
    decide

/-- An enumeration that comes to `parseScalar` keeps the zeros a union starts with. -/
theorem isEntry_enum_iff {mptr : ℕ} (hmptr : mptr ≠ 0) (he : dt.typeKind = .enum)
    {name : String} {pv : ParsedValue} (h : parseScalar mem mptr dt name = some pv) :
    parseValue mem mptr dt name = some pv ↔ parseEnum mem mptr dt = some 0 := by
  have hpv : pv = { fieldName := name, ft := .enum } := by
    simp only [parseScalar, he] at h
    exact (Option.some.inj h).symm
  rw [parseValue_enum hmptr he, hpv]
  cases hx : parseEnum mem mptr dt with
  | none => simp
  | some x =>
      have hrange := parseEnum_range hx
      have hzero := Num.ofI64_eq_zero_iff hrange.1 hrange.2
      simp only [Option.map_some, Option.some.injEq, ParsedValue.mk.injEq, hzero, and_true,
        true_and]

/-- Any other member leaves one field, which is its entry unless it is an enumeration with a
value. -/
theorem parseMember_of_no_array (harr : m.isArray = false) (hm : m.Analyzed)
    (hbase : base ≠ 0) {field : List ParsedValue} (h : parseMember mem base m = some field) :
    ∃ entry, field = [entry] ∧ (m.IsEntry mem base entry ↔ m.Kept mem base) := by
  have hmptr : base + m.offset ≠ 0 := by omega
  simp only [parseMember, harr, Bool.false_eq_true, if_false] at h
  simp only [MemberInfo.Kept, MemberInfo.IsEntry, harr, Bool.false_eq_true, if_false]
  by_cases hs : m.uaType.typeKind = .struct
  · rw [if_pos (by rw [hm.ft, hs]; rfl)] at h
    obtain ⟨entry, hentry, rfl⟩ := Option.map_eq_some_iff.mp h
    exact ⟨entry, rfl, iff_of_true hentry (by simp [hs])⟩
  · have hft' : m.ft ≠ .struct := by
      rw [hm.ft]
      exact fun hk => hs (typeKindToFieldType_eq_structure.mp hk)
    rw [if_neg hft'] at h
    obtain ⟨entry, hentry, rfl⟩ := Option.map_eq_some_iff.mp h
    refine ⟨entry, rfl, ?_⟩
    by_cases he : m.uaType.typeKind = .enum
    · rw [isEntry_enum_iff hmptr he hentry, parseEnum_eq_zero_iff, forall_prop_of_true he]
    · rw [parseValue_scalar hmptr hs he]
      exact iff_of_true hentry fun h => absurd h he

/-- What a member leaves: one field, which is its entry if the member is kept, or nothing if
it is not. -/
theorem parseMember_spec (hm : m.Analyzed) (hbase : base ≠ 0) {field : List ParsedValue}
    (h : parseMember mem base m = some field) :
    (∃ entry, field = [entry] ∧ (m.IsEntry mem base entry ↔ m.Kept mem base)) ∨
      field = [] ∧ ¬ m.Kept mem base := by
  cases harr : m.isArray with
  | true =>
      rcases parseMember_of_array harr hm h with ⟨hkept, entry, hfield, hentry⟩ | ⟨hkept, hfield⟩
      · exact .inl ⟨entry, hfield, iff_of_true hentry hkept⟩
      · exact .inr ⟨hfield, hkept⟩
  | false => exact .inl (parseMember_of_no_array harr hm hbase h)

/-- The fields of all members: no more than there are members, and their entries exactly if
all members are kept. -/
theorem forall₂_isEntry_iff {ms : List MemberInfo} {blocks : List (List ParsedValue)}
    (hms : ∀ m ∈ ms, m.Analyzed) (hbase : base ≠ 0)
    (h : List.Forall₂ (fun m field => parseMember mem base m = some field) ms blocks) :
    blocks.flatten.length ≤ ms.length ∧
      (List.Forall₂ (MemberInfo.IsEntry mem base) ms blocks.flatten ↔
        ∀ m ∈ ms, m.Kept mem base) := by
  induction h with
  | nil => simp
  | @cons m field ms blocks hfield _ ih =>
      obtain ⟨hlen, hiff⟩ := ih fun m' hm' => hms m' (List.mem_cons_of_mem m hm')
      rw [List.forall_mem_cons, List.flatten_cons]
      rcases parseMember_spec (hms m List.mem_cons_self) hbase hfield with
        ⟨entry, rfl, hentry⟩ | ⟨rfl, hkept⟩
      · refine ⟨by simpa using hlen, ?_⟩
        rw [List.singleton_append, List.forall₂_cons, hentry, hiff]
      · -- Nothing was left for `m`, so there are too few fields.
        refine ⟨by simpa using hlen.trans (Nat.le_succ _), ?_⟩
        refine iff_of_false (fun hall => ?_) fun hall => hkept hall.1
        have heq := hall.length_eq
        simp only [List.nil_append, List.length_cons] at heq
        omega

/-- **The fields of a structure** are the entries of its members, one for each in their
order, exactly if every member that is an enumeration of one, two or four bytes, an array of
them aside, has the value zero, and every array has a pointer and elements. -/
theorem structFields_iff {name : String} {pv : ParsedValue} (hkind : dt.typeKind = .struct)
    (hdata : data ≠ 0) (h : parseValue mem data dt name = some pv) :
    List.Forall₂ (MemberInfo.IsEntry mem data) (analyzeType dt).members pv.structFields ↔
      ∀ m ∈ (analyzeType dt).members, m.Kept mem data := by
  rw [parseValue_struct hdata hkind, parseFields_eq] at h
  obtain ⟨fields, hfields, rfl⟩ := Option.map_eq_some_iff.mp h
  obtain ⟨blocks, hblocks, rfl⟩ := Option.map_eq_some_iff.mp hfields
  exact (forall₂_isEntry_iff (fun _ hm => analyzed_of_mem hm) hdata
    (mapM_eq_some_iff.mp hblocks)).2

/-- A structure of one enumeration of four bytes. -/
private def mode : DataType :=
  .mk (some "Mode") .struct 4 (.cons "mode" (.mk (some "ModeEnum") .enum 4 .nil) 0 false .nil)

/-- A structure of one Boolean. -/
private def flag : DataType :=
  .mk (some "Flag") .struct 1 (.cons "on" (.mk (some "Boolean") .boolean 1 .nil) 0 false .nil)

/-- Memory that starts with a byte of one at address 16. -/
private def block : Memory := fun x => if x = 16 then some 1 else some 0

/-- The value of the enumeration is not in its field. -/
theorem not_structFields_enum :
    ¬ ∀ (mem : Memory) (dt : DataType) (data : ℕ) (name : String) (pv : ParsedValue),
      dt.typeKind = .struct → data ≠ 0 → parseValue mem data dt name = some pv →
        List.Forall₂ (MemberInfo.IsEntry mem data) (analyzeType dt).members pv.structFields := by
  intro h
  have hentry := (List.forall₂_cons.mp (h block mode 16 "" _ rfl (by decide) rfl)).1
  have hzero := (isEntry_enum_iff (by decide) rfl rfl).mp hentry
  exact absurd hzero (by decide)

theorem structFields_flag :
    List.Forall₂ (MemberInfo.IsEntry block 16) (analyzeType flag).members
      [{ fieldName := "on", ft := .bool, num := .ofB true }] := by
  have hparse : parseValue block 16 flag "" =
      some {
        ft := .struct
        structFields := [{ fieldName := "on", ft := .bool, num := .ofB true }] } := rfl
  refine (structFields_iff rfl (by decide) hparse).mpr ?_
  intro m hm
  rw [List.mem_singleton.mp hm]
  simp [MemberInfo.Kept, analyzeMember, DataType.typeKind]

end Opencode.Opcua
