import Opencode.Opcua.StructParser

/-!
# What the structure parser finds

The layout of a structure in memory: the padding of a member is the gap between the end of
the member before it and its own start, a member that is not an array takes the size of its
type, an array a length followed by a pointer.  `decode` reads a value by this layout, for
structures of Booleans, integers, strings, structures and arrays of these.

The parser takes a member's padding for its offset and so looks for every member as if it
were the first.  How far it is off adds up over the members and over the levels of nesting;
`Aligned off dt` says that no value is looked for in the wrong place when the parser starts
`off` bytes too early, and that there is no array, of which the parser takes the length for
the pointer and the pointer for the length.

## Main definitions

* `Value`, `decode` — the values in memory.
* `ParsedValue.content` — the value a parsed value carries.
* `Supported` — the types of Booleans, integers, strings, structures and arrays.
* `Aligned` — the types the parser reads correctly.
-/

namespace Opencode.Opcua

open Opencode.Lib

/-! ## Values in memory -/

/-- A value: a scalar, the named members of a structure, or the elements of an array. -/
inductive Value
  | bool (b : Bool)
  | int (z : ℤ)
  | string (s : List UInt8)
  | double (x : Float)
  | struct (fields : List (String × Value))
  | array (elems : List Value)

/-- The bytes a member takes. -/
def extent (memberType : DataType) (isArray : Bool) : ℕ :=
  if isArray then 16 else memberType.memSize

section

variable (mem : Memory)

/-- A string in memory: its pointer is not null unless it is empty. -/
def decodeString (addr : ℕ) : Option (List UInt8) := do
  let length ← readUnsigned mem addr 8
  let ptr ← readUnsigned mem (addr + 8) 8
  if length = 0 then some [] else if ptr = 0 then none else readBytes mem ptr length

/-- A scalar in memory. -/
def decodeScalar (addr : ℕ) : TypeKind → Option Value
  | .boolean => (readBoolean mem addr).map .bool
  | .sbyte => (readSigned mem addr 1).map .int
  | .byte => (readUnsigned mem addr 1).map fun x : ℕ => .int x
  | .int16 => (readSigned mem addr 2).map .int
  | .uint16 => (readUnsigned mem addr 2).map fun x : ℕ => .int x
  | .int32 => (readSigned mem addr 4).map .int
  | .uint32 => (readUnsigned mem addr 4).map fun x : ℕ => .int x
  | .int64 => (readSigned mem addr 8).map .int
  | .uint64 => (readUnsigned mem addr 8).map fun x : ℕ => .int x
  | .string => (decodeString mem addr).map .string
  | _ => none

mutual

/-- The value of a type at an address, by the layout of open62541. -/
def decode (addr : ℕ) : DataType → Option Value
  | .mk _ typeKind _ members =>
      if typeKind = .struct then (decodeFields addr members).map .struct
      else decodeScalar mem addr typeKind

/-- The members from an address on, each behind the end of the one before it. -/
def decodeFields (addr : ℕ) : Members → Option (List (String × Value))
  | .nil => some []
  | .cons memberName memberType padding isArray rest =>
      let start := addr + padding
      let x : Option Value :=
        if isArray then do
          let length ← readUnsigned mem start 8
          let ptr ← readUnsigned mem (start + 8) 8
          if length = 0 then some (.array [])
          else if ptr = 0 then none
          else
            let elems ← (List.range length).mapM fun i =>
              decode (ptr + i * memberType.memSize) memberType
            some (.array elems)
        else decode start memberType
      x.bind fun x =>
        (decodeFields (start + extent memberType isArray) rest).map ((memberName, x) :: ·)

end

end

mutual

/-- The value a parsed value carries, by the fields its type selects. -/
def ParsedValue.content : ParsedValue → Value
  | ⟨_, ft, isArray, num, str, structFields, arrayElems⟩ =>
      if isArray then .array (contents arrayElems)
      else
        match ft with
        | .struct => .struct (fieldContents structFields)
        | .string => .string str
        | .bool => .bool (num.b = some true)
        | .i8 | .i16 | .i32 | .i64 | .enum => .int num.i64
        | .float | .double => .double num.d
        | _ => .int num.u64

def contents : List ParsedValue → List Value
  | [] => []
  | pv :: pvs => pv.content :: contents pvs

/-- The fields of a structure with their names. -/
def fieldContents : List ParsedValue → List (String × Value)
  | [] => []
  | pv :: pvs => (pv.fieldName, pv.content) :: fieldContents pvs

end

/-! ## Types -/

/-- The size of a scalar of the supported kinds. -/
def TypeKind.scalarSize : TypeKind → Option ℕ
  | .boolean | .sbyte | .byte => some 1
  | .int16 | .uint16 => some 2
  | .int32 | .uint32 => some 4
  | .int64 | .uint64 => some 8
  | .string => some 16
  | _ => none

mutual

/-- Scalars of their size, and structures that have room for their members. -/
def Supported : DataType → Bool
  | .mk _ typeKind memSize members =>
      if typeKind = .struct then supportedMembers members && extents members ≤ memSize
      else typeKind.scalarSize == some memSize

def supportedMembers : Members → Bool
  | .nil => true
  | .cons _ memberType _ _ rest => Supported memberType && supportedMembers rest

/-- The bytes the members take together. -/
def extents : Members → ℕ
  | .nil => 0
  | .cons _ memberType padding isArray rest =>
      padding + extent memberType isArray + extents rest

end

mutual

/-- The parser, `off` bytes before the start of the value, reads it correctly. -/
def Aligned (off : ℕ) : DataType → Bool
  | .mk _ typeKind _ members =>
      if typeKind = .struct then alignedMembers off members else off == 0

def alignedMembers (off : ℕ) : Members → Bool
  | .nil => true
  | .cons _ memberType padding isArray rest =>
      !isArray && Aligned off memberType &&
        alignedMembers (off + padding + extent memberType isArray) rest

end

/-! ## Equations -/

variable {mem : Memory}

theorem decode_of_scalar {typeName : Option String} {typeKind : TypeKind} {memSize addr : ℕ}
    {members : Members} (h : typeKind ≠ .struct) :
    decode mem addr (.mk typeName typeKind memSize members) = decodeScalar mem addr typeKind := by
  simp [decode, h]

/-- A supported type that is no structure is a scalar of its size. -/
theorem scalarSize_of_supported {typeName : Option String} {typeKind : TypeKind} {memSize : ℕ}
    {members : Members} (hs : Supported (.mk typeName typeKind memSize members) = true)
    (h : typeKind ≠ .struct) : typeKind.scalarSize = some memSize := by
  simpa [Supported, h] using hs

theorem parseValue_of_scalar {typeName : Option String} {typeKind : TypeKind} {memSize data : ℕ}
    {members : Members} (hs : Supported (.mk typeName typeKind memSize members) = true)
    (h : typeKind ≠ .struct) (hdata : data ≠ 0) (fieldName : String) :
    parseValue mem data (.mk typeName typeKind memSize members) fieldName =
      parseScalar mem data (.mk typeName typeKind memSize members) fieldName := by
  have hsize := scalarSize_of_supported hs h
  have henum : typeKind ≠ .enum := by
    rintro rfl
    simp [TypeKind.scalarSize] at hsize
  apply parseValue_scalar hdata <;> assumption

theorem parseValue_of_structure {typeName : Option String} {memSize data : ℕ} {members : Members}
    (hdata : data ≠ 0) (fieldName : String) :
    parseValue mem data (.mk typeName .struct memSize members) fieldName =
      (parseFields mem data members).map fun fields =>
        { fieldName := fieldName, ft := .struct, structFields := fields } :=
  parseValue_struct hdata rfl fieldName

/-- The loop at a member that is no array. -/
theorem parseFields_cons_eq (memberName : String) (memberType : DataType) (padding base : ℕ)
    (rest : Members) :
    parseFields mem base (.cons memberName memberType padding false rest) =
      (if typeKindToFieldType memberType.typeKind = .struct then
        (parseValue mem (base + padding) memberType memberName).map ([·])
      else (parseScalar mem (base + padding) memberType memberName).map ([·])).bind
        fun field => (parseFields mem base rest).map (field ++ ·) := by
  rw [parseFields]
  rfl

/-- A member that is no array is parsed like a value of its own. -/
theorem parseFields_cons {memberName : String} {memberType : DataType} {padding base : ℕ}
    {rest : Members} (hs : Supported memberType = true) (hbase : base ≠ 0) :
    parseFields mem base (.cons memberName memberType padding false rest) =
      (parseValue mem (base + padding) memberType memberName).bind fun f =>
        (parseFields mem base rest).map (f :: ·) := by
  have hptr : base + padding ≠ 0 := by omega
  have hfield : (if typeKindToFieldType memberType.typeKind = .struct then
        (parseValue mem (base + padding) memberType memberName).map ([·])
      else (parseScalar mem (base + padding) memberType memberName).map ([·])) =
      (parseValue mem (base + padding) memberType memberName).map ([·]) := by
    obtain ⟨typeName, typeKind, memSize, members⟩ := memberType
    split
    case isTrue => rfl
    case isFalse hk =>
      rw [parseValue_of_scalar hs (typeKindToFieldType_eq_structure.not.mp hk) hptr]
  rw [parseFields_cons_eq, hfield, Option.bind_map]
  rfl

theorem decodeFields_cons {memberName : String} {memberType : DataType} {padding addr : ℕ}
    {rest : Members} :
    decodeFields mem addr (.cons memberName memberType padding false rest) =
      (decode mem (addr + padding) memberType).bind fun x =>
        (decodeFields mem (addr + padding + memberType.memSize) rest).map
          ((memberName, x) :: ·) := by
  simp only [decodeFields, Bool.false_eq_true, if_false, extent]

/-- What the parser makes of the bytes at the address it looks at. -/
def scannedScalar (mem : Memory) (data : ℕ) : TypeKind → Option Value
  | .string => (readString mem data).map .string
  | typeKind => decodeScalar mem data typeKind

/-- A signed integer that is read is the content of the union it is put into. -/
theorem map_i64_readSigned {data n : ℕ} (hn : n ≤ 8) :
    (readSigned mem data n).map (fun x => Value.int (Num.ofI64 x).i64) =
      (readSigned mem data n).map .int := by
  cases h : readSigned mem data n with
  | none => rfl
  | some x =>
      have hrange := readSigned_range hn h
      rw [Option.map_some, Option.map_some, Num.i64_ofI64 hrange.1 hrange.2]

/-- So is an unsigned one. -/
theorem map_u64_readUnsigned {data n : ℕ} (hn : n ≤ 8) :
    (readUnsigned mem data n).map (fun x => Value.int (Num.ofU64 x).u64) =
      (readUnsigned mem data n).map fun x : ℕ => .int x := by
  cases h : readUnsigned mem data n with
  | none => rfl
  | some x =>
      have hlt : x < 256 ^ 8 :=
        (readUnsigned_lt h).trans_le (Nat.pow_le_pow_right (by decide) hn)
      rw [Option.map_some, Option.map_some, Num.u64_ofU64 (by omega)]

theorem map_content_parseScalar {typeName : Option String} {typeKind : TypeKind}
    {memSize data : ℕ} {members : Members} (h : typeKind.scalarSize = some memSize)
    (fieldName : String) :
    (parseScalar mem data (.mk typeName typeKind memSize members) fieldName).map
      ParsedValue.content = scannedScalar mem data typeKind := by
  simp only [parseScalar, DataType.typeKind]
  cases typeKind
  case boolean =>
    rw [Option.map_map]
    refine congrArg (Option.map · (readBoolean mem data)) (funext fun x => ?_)
    cases x <;> rfl
  case string =>
    rw [Option.map_map]
    rfl
  case sbyte | int16 | int32 | int64 =>
    rw [Option.map_map]
    exact map_i64_readSigned (by decide)
  case byte | uint16 | uint32 | uint64 =>
    rw [Option.map_map]
    exact map_u64_readUnsigned (by decide)
  all_goals simp [TypeKind.scalarSize] at h

theorem fieldName_of_parseScalar {dt : DataType} {data : ℕ} {fieldName : String}
    {pv : ParsedValue} (h : parseScalar mem data dt fieldName = some pv) :
    pv.fieldName = fieldName := by
  unfold parseScalar at h
  split at h
  all_goals first
    | (obtain ⟨x, -, rfl⟩ := Option.map_eq_some_iff.mp h
       rfl)
    | (cases h
       rfl)

/-- A field is named after its member. -/
theorem fieldName_of_parseValue {dt : DataType} {data : ℕ} {fieldName : String}
    {pv : ParsedValue} (h : parseValue mem data dt fieldName = some pv) :
    pv.fieldName = fieldName := by
  obtain ⟨typeName, typeKind, memSize, members⟩ := dt
  rw [parseValue] at h
  split at h
  · cases h
    rfl
  · dsimp only at h
    split at h
    · obtain ⟨x, -, rfl⟩ := Option.map_eq_some_iff.mp h
      rfl
    · obtain ⟨x, -, rfl⟩ := Option.map_eq_some_iff.mp h
      rfl
    · exact fieldName_of_parseScalar h

/-! ## Types that are read correctly -/

/-- A string in memory is found at its address. -/
theorem readString_of_decodeString {data : ℕ} {s : List UInt8}
    (h : decodeString mem data = some s) : readString mem data = some s := by
  unfold decodeString at h
  unfold readString
  cases hlen : readUnsigned mem data 8 with
  | none => simp [hlen] at h
  | some length =>
      cases hptr : readUnsigned mem (data + 8) 8 with
      | none => simp [hlen, hptr] at h
      | some ptr =>
          by_cases h0 : length = 0
          · simpa [hlen, hptr, h0] using h
          · by_cases hp : ptr = 0
            · simp [hlen, hptr, h0, hp] at h
            · simpa [hlen, hptr, h0, hp, Nat.pos_of_ne_zero h0] using h

theorem scannedScalar_of_decodeScalar {typeKind : TypeKind} {data : ℕ} {v : Value}
    (h : decodeScalar mem data typeKind = some v) : scannedScalar mem data typeKind = some v := by
  cases typeKind
  case string =>
    obtain ⟨s, hs, rfl⟩ := Option.map_eq_some_iff.mp h
    simp [scannedScalar, readString_of_decodeString hs]
  all_goals exact h

mutual

/-- **A type without arrays whose values are where the parser looks for them is read
correctly.** -/
theorem parseValue_of_aligned : ∀ (dt : DataType) {off data : ℕ} {v : Value},
    Supported dt = true → Aligned off dt = true → data ≠ 0 →
    decode mem (data + off) dt = some v → ∀ fieldName,
    ∃ pv, parseValue mem data dt fieldName = some pv ∧ pv.content = v
  | .mk typeName typeKind memSize members, off, data, v, hs, ha, hdata, hv, fieldName => by
      by_cases hk : typeKind = .struct
      · subst hk
        simp only [Supported, if_true, Bool.and_eq_true] at hs
        simp only [Aligned, if_true] at ha
        simp only [decode, if_true] at hv
        obtain ⟨vs, hvs, rfl⟩ := Option.map_eq_some_iff.mp hv
        obtain ⟨fs, hfs, rfl⟩ := parseFields_of_aligned members hs.1 ha hdata hvs
        exact ⟨_, by rw [parseValue_of_structure hdata, hfs, Option.map_some], rfl⟩
      · obtain rfl : off = 0 := by simpa [Aligned, hk] using ha
        rw [Nat.add_zero, decode_of_scalar hk] at hv
        have hmap : (parseScalar mem data (.mk typeName typeKind memSize members) fieldName).map
            ParsedValue.content = scannedScalar mem data typeKind :=
          map_content_parseScalar (scalarSize_of_supported hs hk) fieldName
        rw [scannedScalar_of_decodeScalar hv] at hmap
        obtain ⟨pv, hpv, hcontent⟩ := Option.map_eq_some_iff.mp hmap
        exact ⟨pv, (parseValue_of_scalar hs hk hdata fieldName).trans hpv, hcontent⟩

theorem parseFields_of_aligned : ∀ (members : Members) {off base : ℕ}
    {vs : List (String × Value)}, supportedMembers members = true →
    alignedMembers off members = true → base ≠ 0 →
    decodeFields mem (base + off) members = some vs →
    ∃ fs, parseFields mem base members = some fs ∧ fieldContents fs = vs
  | .nil, off, base, vs, _, _, _, hvs => by
      cases hvs
      exact ⟨[], rfl, rfl⟩
  | .cons memberName memberType padding true rest, off, base, vs, _, ha, _, _ => by
      simp [alignedMembers] at ha
  | .cons memberName memberType padding false rest, off, base, vs, hs, ha, hbase, hvs => by
      simp only [supportedMembers, Bool.and_eq_true] at hs
      simp only [alignedMembers, Bool.not_false, Bool.true_and, Bool.and_eq_true, extent,
        Bool.false_eq_true, if_false] at ha
      rw [decodeFields_cons] at hvs
      obtain ⟨x, hx, hrest⟩ := Option.bind_eq_some_iff.mp hvs
      obtain ⟨xs, hxs, rfl⟩ := Option.map_eq_some_iff.mp hrest
      rw [Nat.add_right_comm] at hx
      obtain ⟨f, hf, rfl⟩ := parseValue_of_aligned memberType hs.1 ha.1 (by omega) hx memberName
      have hxs' : decodeFields mem (base + (off + padding + memberType.memSize)) rest = some xs := by
        rw [← hxs]
        congr 1
        omega
      obtain ⟨fs, hfs, rfl⟩ := parseFields_of_aligned rest hs.2 ha.2 hbase hxs'
      refine ⟨f :: fs, ?_, ?_⟩
      · rw [parseFields_cons hs.1 hbase, hf, hfs]
        rfl
      · rw [fieldContents, fieldName_of_parseValue hf]

end

end Opencode.Opcua
