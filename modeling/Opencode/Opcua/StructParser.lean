import Mathlib
import Opencode.Lib.Memory

/-!
# The structure parser

`StructParser` turns a block of memory into a tree of `ParsedValue`s, following the type
descriptions of open62541.  A type description is a finite tree here; every member has a
type, and a missing name of a member is the empty string.  Names are texts; one that is no
UTF-8 is not covered.

A read of an address that is not mapped is undefined behaviour and gives `none`.  A pointer
and a `size_t` have eight bytes.  The union `num` is its eight bytes, whichever member they
were assigned through.

## Main definitions

* `TypeKind`, `DataType`, `Members` — type descriptions.
* `Num` — the union of a parsed value.
* `FieldType`, `ParsedValue` — what the parser returns.
* `typeKindToFieldType`, `analyzeMember`, `analyzeType` — the analysis of a type.
* `parseScalar`, `parseValue` — the parser.
-/

namespace Opencode.Opcua

open Opencode.Lib

/-! ## Types -/

/-- `UA_DATATYPEKIND`; up to `diagnosticInfo` its values are the indices into `UA_TYPES`;
`struct` is `UA_DATATYPEKIND_STRUCTURE`. -/
inductive TypeKind
  | boolean
  | sbyte
  | byte
  | int16
  | uint16
  | int32
  | uint32
  | int64
  | uint64
  | float
  | double
  | string
  | dateTime
  | guid
  | byteString
  | xmlElement
  | nodeId
  | expandedNodeId
  | statusCode
  | qualifiedName
  | localizedText
  | extensionObject
  | dataValue
  | variant
  | diagnosticInfo
  | decimal
  | enum
  | struct
  | optStruct
  | union
  | bitfieldCluster
  deriving DecidableEq, Repr

mutual

/-- `UA_DataType`; it need not have a name. -/
inductive DataType
  | mk (typeName : Option String) (typeKind : TypeKind) (memSize : ℕ) (members : Members)

/-- The members of a type, in order. -/
inductive Members
  | nil
  | cons (memberName : String) (memberType : DataType) (padding : ℕ) (isArray : Bool)
      (rest : Members)

end

namespace DataType

def typeName : DataType → Option String
  | .mk typeName _ _ _ => typeName

def typeKind : DataType → TypeKind
  | .mk _ typeKind _ _ => typeKind

def memSize : DataType → ℕ
  | .mk _ _ memSize _ => memSize

def members : DataType → Members
  | .mk _ _ _ members => members

end DataType

/-- The types of parsed values. -/
inductive FieldType
  | bool
  | i8
  | u8
  | i16
  | u16
  | i32
  | u32
  | i64
  | u64
  | float
  | double
  | string
  | dateTime
  | guid
  | byteString
  | nodeId
  | qn
  | lt
  | statusCode
  | struct
  | enum
  | array
  | unknown
  deriving DecidableEq, Repr

def typeKindToFieldType : TypeKind → FieldType
  | .boolean => .bool
  | .sbyte => .i8
  | .byte => .u8
  | .int16 => .i16
  | .uint16 => .u16
  | .int32 => .i32
  | .uint32 => .u32
  | .int64 => .i64
  | .uint64 => .u64
  | .float => .float
  | .double => .double
  | .string => .string
  | .dateTime => .dateTime
  | .guid => .guid
  | .byteString => .byteString
  | .nodeId => .nodeId
  | .qualifiedName => .qn
  | .localizedText => .lt
  | .statusCode => .statusCode
  | .enum => .enum
  | .struct => .struct
  | _ => .unknown

theorem typeKindToFieldType_eq_structure {typeKind : TypeKind} :
    typeKindToFieldType typeKind = .struct ↔ typeKind = .struct := by
  cases typeKind <;> simp [typeKindToFieldType]

/-- What the parser knows of a member. -/
structure MemberInfo where
  name : String
  typeName : String
  ft : FieldType
  isArray : Bool
  isDynArray : Bool
  fixedLen : ℕ
  offset : ℕ
  uaType : DataType

/-- The analysis of one member.  The offset is the member's own padding: the sizes of the
members before it are not added up. -/
def analyzeMember (memberName : String) (memberType : DataType) (padding : ℕ)
    (isArray : Bool) : MemberInfo where
  name := memberName
  typeName := memberType.typeName.getD "?"
  ft := typeKindToFieldType memberType.typeKind
  isArray := isArray
  isDynArray := isArray
  fixedLen := 0
  offset := padding
  uaType := memberType

structure TypeLayout where
  name : String
  memSize : ℕ
  members : List MemberInfo

def analyzeMembers : Members → List MemberInfo
  | .nil => []
  | .cons memberName memberType padding isArray rest =>
      analyzeMember memberName memberType padding isArray :: analyzeMembers rest

def analyzeType (dt : DataType) : TypeLayout where
  name := dt.typeName.getD ""
  memSize := dt.memSize
  members := analyzeMembers dt.members

/-! ## Values -/

/-- The union of a parsed value: eight bytes, of which each member is a view. -/
structure Num where
  bits : BitVec 64 := 0
  deriving DecidableEq

namespace Num

/-- A member of a union of zeros is assigned. -/
def ofB (x : Bool) : Num := ⟨if x then 1 else 0⟩

def ofI64 (x : ℤ) : Num := ⟨.ofInt 64 x⟩

def ofU64 (x : ℕ) : Num := ⟨.ofNat 64 x⟩

def ofD (x : Float) : Num := ⟨x.toBits.toBitVec⟩

/-- The first byte as a `bool`; any other byte than zero and one is none. -/
def b (num : Num) : Option Bool :=
  if num.bits.setWidth 8 = 0 then some false
  else if num.bits.setWidth 8 = 1 then some true
  else none

def i64 (num : Num) : ℤ := num.bits.toInt

def u64 (num : Num) : ℕ := num.bits.toNat

def d (num : Num) : Float := Float.ofBits ⟨num.bits⟩

@[simp] theorem b_ofB (x : Bool) : (ofB x).b = some x := by
  cases x <;> rfl

theorem i64_ofI64 {x : ℤ} (h : -2 ^ 63 ≤ x) (h' : x < 2 ^ 63) : (ofI64 x).i64 = x :=
  BitVec.toInt_ofInt_eq_self (by decide) h h'

theorem u64_ofU64 {x : ℕ} (h : x < 2 ^ 64) : (ofU64 x).u64 = x := by
  rw [u64, ofU64, BitVec.toNat_ofNat, Nat.mod_eq_of_lt h]

/-- Of the integers of the type, only zero leaves the bytes of a fresh union. -/
theorem ofI64_eq_zero_iff {x : ℤ} (h : -2 ^ 63 ≤ x) (h' : x < 2 ^ 63) : ofI64 x = {} ↔ x = 0 := by
  constructor
  · intro heq
    rw [← i64_ofI64 h h', heq]
    rfl
  · rintro rfl
    rfl

end Num

/-- A parsed value, with its member initialisers. -/
structure ParsedValue where
  fieldName : String := ""
  ft : FieldType := .unknown
  isArray : Bool := false
  num : Num := {}
  str : List UInt8 := []
  structFields : List ParsedValue := []
  arrayElems : List ParsedValue := []

/-! ## The parser -/

section

variable (mem : Memory)

/-- `UA_Boolean`; any other byte is not a `bool`. -/
def readBoolean (data : ℕ) : Option Bool :=
  match mem data with
  | some 0 => some false
  | some 1 => some true
  | _ => none

/-- The bytes of a `UA_String`: a length and a pointer. -/
def readString (data : ℕ) : Option (List UInt8) := do
  let length ← readUnsigned mem data 8
  let ptr ← readUnsigned mem (data + 8) 8
  if 0 < length ∧ ptr ≠ 0 then readBytes mem ptr length else some []

/-- `parseScalarImpl`; the kinds without a branch keep the defaults. -/
def parseScalar (data : ℕ) (dt : DataType) (fieldName : String) : Option ParsedValue :=
  let pv : ParsedValue := { fieldName := fieldName, ft := typeKindToFieldType dt.typeKind }
  match dt.typeKind with
  | .boolean => (readBoolean mem data).map fun x => { pv with num := .ofB x }
  | .sbyte => (readSigned mem data 1).map fun x => { pv with num := .ofI64 x }
  | .byte => (readUnsigned mem data 1).map fun x => { pv with num := .ofU64 x }
  | .int16 => (readSigned mem data 2).map fun x => { pv with num := .ofI64 x }
  | .uint16 => (readUnsigned mem data 2).map fun x => { pv with num := .ofU64 x }
  | .int32 => (readSigned mem data 4).map fun x => { pv with num := .ofI64 x }
  | .uint32 => (readUnsigned mem data 4).map fun x => { pv with num := .ofU64 x }
  | .int64 => (readSigned mem data 8).map fun x => { pv with num := .ofI64 x }
  | .uint64 => (readUnsigned mem data 8).map fun x => { pv with num := .ofU64 x }
  | .float =>
      (readUnsigned mem data 4).map fun x =>
        { pv with num := .ofD (Float32.ofBits (UInt32.ofNat x)).toFloat }
  | .double => (readUnsigned mem data 8).map fun x => { pv with num := ⟨.ofNat 64 x⟩ }
  | .string => (readString mem data).map fun s => { pv with str := s }
  | .dateTime => (readUnsigned mem data 8).map fun x => { pv with num := .ofU64 x }
  | _ => some pv

/-- The value of an enumeration, by its size. -/
def parseEnum (data : ℕ) (dt : DataType) : Option ℤ :=
  match dt.memSize with
  | 1 => (readUnsigned mem data 1).map fun x : ℕ => (x : ℤ)
  | 2 => readSigned mem data 2
  | 4 => readSigned mem data 4
  | _ => some 0

mutual

/-- `parseValue`. -/
def parseValue (data : ℕ) : DataType → String → Option ParsedValue
  | .mk typeName typeKind memSize members, fieldName =>
      if data = 0 then some { fieldName := fieldName }
      else
        let pv : ParsedValue := { fieldName := fieldName, ft := typeKindToFieldType typeKind }
        match pv.ft with
        | .struct =>
            (parseFields data members).map fun fields => { pv with structFields := fields }
        | .enum =>
            (parseEnum mem data (.mk typeName typeKind memSize members)).map fun x =>
              { pv with num := .ofI64 x }
        | _ => parseScalar mem data (.mk typeName typeKind memSize members) fieldName

/-- The loop over the members.  The header of an array is read as a pointer followed by a
count, and an array without elements leaves no field; the branch for optional structures is
behind an equal test and never taken. -/
def parseFields (base : ℕ) : Members → Option (List ParsedValue)
  | .nil => some []
  | .cons memberName memberType padding isArray rest =>
      let m := analyzeMember memberName memberType padding isArray
      let mptr := base + m.offset
      let field : Option (List ParsedValue) :=
        if m.isArray then do
          let arrPtr ← readUnsigned mem mptr 8
          let count ← if m.isDynArray then readUnsigned mem (mptr + 8) 8 else some m.fixedLen
          if arrPtr ≠ 0 ∧ 0 < count then
            let elems ← (List.range count).mapM fun i =>
              parseValue (arrPtr + i * memberType.memSize) memberType
                (m.name ++ "[" ++ toString i ++ "]")
            some [{ fieldName := m.name, ft := m.ft, isArray := true, arrayElems := elems }]
          else some []
        else if m.ft = .struct then (parseValue mptr memberType m.name).map ([·])
        else (parseScalar mem mptr memberType m.name).map ([·])
      field.bind fun field => (parseFields base rest).map (field ++ ·)

end

/-! ## The cases of `parseValue` -/

variable {mem} {data : ℕ} {dt : DataType}

@[simp] theorem parseValue_null (fieldName : String) :
    parseValue mem 0 dt fieldName = some { fieldName := fieldName } := by
  obtain ⟨typeName, typeKind, memSize, members⟩ := dt
  rw [parseValue, if_pos rfl]

theorem parseValue_struct (hdata : data ≠ 0) (h : dt.typeKind = .struct) (fieldName : String) :
    parseValue mem data dt fieldName =
      (parseFields mem data dt.members).map fun fields =>
        { fieldName := fieldName, ft := .struct, structFields := fields } := by
  obtain ⟨typeName, typeKind, memSize, members⟩ := dt
  subst h
  rw [parseValue, if_neg hdata]
  rfl

theorem parseValue_enum (hdata : data ≠ 0) (h : dt.typeKind = .enum) (fieldName : String) :
    parseValue mem data dt fieldName =
      (parseEnum mem data dt).map fun x =>
        { fieldName := fieldName, ft := .enum, num := .ofI64 x } := by
  obtain ⟨typeName, typeKind, memSize, members⟩ := dt
  subst h
  rw [parseValue, if_neg hdata]
  rfl

theorem parseValue_scalar (hdata : data ≠ 0) (hs : dt.typeKind ≠ .struct)
    (he : dt.typeKind ≠ .enum) (fieldName : String) :
    parseValue mem data dt fieldName = parseScalar mem data dt fieldName := by
  obtain ⟨typeName, typeKind, memSize, members⟩ := dt
  rw [parseValue, if_neg hdata]
  cases typeKind <;> first | rfl | exact absurd rfl hs | exact absurd rfl he

/-- A scalar has the type of its description. -/
theorem ft_of_parseScalar {fieldName : String} {pv : ParsedValue}
    (h : parseScalar mem data dt fieldName = some pv) : pv.ft = typeKindToFieldType dt.typeKind := by
  unfold parseScalar at h
  split at h
  case h_14 =>
    cases h
    rfl
  all_goals
    obtain ⟨_, -, rfl⟩ := Option.map_eq_some_iff.mp h
    rfl

/-- So has every value that is not at the null address. -/
theorem ft_of_parseValue {fieldName : String} {pv : ParsedValue} (hdata : data ≠ 0)
    (h : parseValue mem data dt fieldName = some pv) :
    pv.ft = typeKindToFieldType dt.typeKind := by
  by_cases hs : dt.typeKind = .struct
  · rw [parseValue_struct hdata hs] at h
    obtain ⟨_, -, rfl⟩ := Option.map_eq_some_iff.mp h
    rw [hs]
    rfl
  · by_cases he : dt.typeKind = .enum
    · rw [parseValue_enum hdata he] at h
      obtain ⟨_, -, rfl⟩ := Option.map_eq_some_iff.mp h
      rw [he]
      rfl
    · rw [parseValue_scalar hdata hs he] at h
      exact ft_of_parseScalar h

/-- A description the parser has no type for leaves the value blank. -/
theorem parseValue_of_unknown (h : typeKindToFieldType dt.typeKind = .unknown)
    (fieldName : String) : parseValue mem data dt fieldName = some { fieldName := fieldName } := by
  by_cases hdata : data = 0
  · rw [hdata, parseValue_null]
  · have hs : dt.typeKind ≠ .struct := fun hk => by simp [hk, typeKindToFieldType] at h
    have he : dt.typeKind ≠ .enum := fun hk => by simp [hk, typeKindToFieldType] at h
    rw [parseValue_scalar hdata hs he, parseScalar]
    cases hk : dt.typeKind <;> simp [hk, typeKindToFieldType] at h ⊢

end

end Opencode.Opcua
