import Mathlib
import Opencode.Lib.Memory

/-!
# Variants and their protobuf form

`OPCUAClient` converts between open62541's `UA_Variant` and the protobuf message
`VariantValue`: `variantToProto` on the way in, `protoToVariant` on the way out.

A `UA_Variant` is a type, a length and a data pointer.  A scalar has length `0` and
points to its value; an empty array has length `0` too and points to the empty-array
sentinel.  The conversion only looks at these fields, so they are computed here from the
variant, and a read through the sentinel, which is undefined behaviour, is `none`.

The types of the floats and of the values `OPCUAClient` does not convert are parameters.
A `UA_String` is its bytes; the null string and the empty string are one value.

## Main definitions

* `UAType`, `UAVariant` — open62541's side.
* `DataTypeId`, `VariantValue` — the protobuf side.
* `variantToProto`, `protoToVariant` — the two conversions.
-/

namespace Opencode.Opcua

/-! ## The open62541 side -/

/-- The entries of `UA_TYPES`: those the client has a branch for, and the others. -/
inductive UAType
  | boolean
  | sbyte
  | int16
  | int32
  | int64
  | byte
  | uint16
  | uint32
  | uint64
  | float
  | double
  | string
  | dateTime
  | other (index : ℕ)
  deriving DecidableEq, Repr

/-- The values of a type: `F` are the floats, `D` the doubles, `O` the values of the
other types. -/
abbrev UAType.Elem (F D O : Type) : UAType → Type
  | .boolean => Bool
  | .sbyte => Int8
  | .int16 => Int16
  | .int32 => Int32
  | .int64 => Int64
  | .byte => UInt8
  | .uint16 => UInt16
  | .uint32 => UInt32
  | .uint64 => UInt64
  | .float => F
  | .double => D
  | .string => List UInt8
  | .dateTime => Int64
  | .other _ => O

/-- A `UA_Variant`: without data, with data and no type, a scalar, or an array. -/
inductive UAVariant (F D O : Type)
  | empty
  | untyped
  | scalar (type : UAType) (x : type.Elem F D O)
  | array (type : UAType) (xs : List (type.Elem F D O))

/-- Where the data pointer of a variant with data points. -/
inductive Pointer (α : Type)
  | sentinel
  | elements (xs : List α)

namespace Pointer

variable {α : Type}

/-- `*data`. -/
def deref : Pointer α → Option α
  | .sentinel => none
  | .elements xs => xs.head?

/-- `data[0]` to `data[n - 1]`. -/
def read (n : ℕ) : Pointer α → Option (List α)
  | .sentinel => if n = 0 then some [] else none
  | .elements xs => if n ≤ xs.length then some (xs.take n) else none

/-- The data pointer of an array. -/
def ofArray (xs : List α) : Pointer α := if xs = [] then .sentinel else .elements xs

@[simp] theorem ofArray_nil : ofArray ([] : List α) = .sentinel := rfl

@[simp] theorem ofArray_cons (x : α) (xs : List α) :
    ofArray (x :: xs) = .elements (x :: xs) := rfl

@[simp] theorem deref_elements_cons (x : α) (xs : List α) :
    (elements (x :: xs)).deref = some x := rfl

@[simp] theorem read_length_ofArray (xs : List α) :
    (ofArray xs).read xs.length = some xs := by
  cases xs with
  | nil => rfl
  | cons x xs => simp [read]

end Pointer

/-! ## The protobuf side -/

/-- The type tags of the message; an enumeration of proto3 is open. -/
inductive DataTypeId
  | bool
  | int8
  | int16
  | int32
  | int64
  | uint8
  | uint16
  | uint32
  | uint64
  | float
  | double
  | string
  | byteString
  | dateTime
  | nodeId
  | variant
  | arrayBool
  | arrayInt32
  | arrayFloat
  | arrayDouble
  | arrayString
  | localizedText
  | qualifiedName
  | structured
  | unrecognized (n : Int32)
  deriving DecidableEq, Repr

/-- The members of the `oneof`. -/
inductive OneofValue (F D : Type)
  | boolVal (b : Bool)
  | int32Val (x : Int32)
  | int64Val (x : Int64)
  | uint32Val (x : UInt32)
  | uint64Val (x : UInt64)
  | floatVal (x : F)
  | doubleVal (x : D)
  | stringVal (s : List UInt8)
  | bytesVal (s : List UInt8)
  | datetimeVal (x : UInt64)
  deriving DecidableEq

/-- The message `VariantValue`; strings are their bytes. -/
structure VariantValue (F D : Type) where
  type : DataTypeId := .bool
  value : Option (OneofValue F D) := none
  boolArray : List Bool := []
  int32Array : List Int32 := []
  int64Array : List Int64 := []
  uint32Array : List UInt32 := []
  uint64Array : List UInt64 := []
  floatArray : List F := []
  doubleArray : List D := []
  stringArray : List (List UInt8) := []
  deriving DecidableEq

namespace VariantValue

variable {F D : Type} [Zero F] [Zero D]

/-! A getter of the `oneof` answers with the default when another member is set. -/

def boolVal (v : VariantValue F D) : Bool :=
  match v.value with
  | some (.boolVal b) => b
  | _ => false

def int32Val (v : VariantValue F D) : Int32 :=
  match v.value with
  | some (.int32Val x) => x
  | _ => 0

def int64Val (v : VariantValue F D) : Int64 :=
  match v.value with
  | some (.int64Val x) => x
  | _ => 0

def uint32Val (v : VariantValue F D) : UInt32 :=
  match v.value with
  | some (.uint32Val x) => x
  | _ => 0

def uint64Val (v : VariantValue F D) : UInt64 :=
  match v.value with
  | some (.uint64Val x) => x
  | _ => 0

def floatVal (v : VariantValue F D) : F :=
  match v.value with
  | some (.floatVal x) => x
  | _ => 0

def doubleVal (v : VariantValue F D) : D :=
  match v.value with
  | some (.doubleVal x) => x
  | _ => 0

def stringVal (v : VariantValue F D) : List UInt8 :=
  match v.value with
  | some (.stringVal s) => s
  | _ => []

end VariantValue

/-! ## The conversions -/

section

variable {F D O : Type}

/-- `SIZE_MAX`, which a length may be instead of counting anything. -/
def sizeMax : ℕ := 2 ^ 64 - 1

/-- `is_array`: the test on the length. -/
def isArray (arrayLength : ℕ) : Bool := 0 < arrayLength && arrayLength != sizeMax

/-- `variantToProto` on a variant with data: its type, `arrayLength` and `data`.  Only five
types have a branch for arrays; the others read the first element. -/
def convert (type : UAType) (arrayLength : ℕ) (data : Pointer (type.Elem F D O)) :
    Option (VariantValue F D) :=
  match type with
  | .boolean =>
      if isArray arrayLength then (data.read arrayLength).map ({ type := .arrayBool, boolArray := · })
      else data.deref.map fun x => { type := .bool, value := some (.boolVal x) }
  | .sbyte => data.deref.map fun x => { type := .int8, value := some (.int32Val (Int8.toInt32 x)) }
  | .int16 =>
      data.deref.map fun x => { type := .int16, value := some (.int32Val (Int16.toInt32 x)) }
  | .int32 =>
      if isArray arrayLength then (data.read arrayLength).map ({ type := .arrayInt32, int32Array := · })
      else data.deref.map fun x => { type := .int32, value := some (.int32Val x) }
  | .int64 => data.deref.map fun x => { type := .int64, value := some (.int64Val x) }
  | .byte =>
      data.deref.map fun x => { type := .uint8, value := some (.uint32Val (UInt8.toUInt32 x)) }
  | .uint16 =>
      data.deref.map fun x => { type := .uint16, value := some (.uint32Val (UInt16.toUInt32 x)) }
  | .uint32 => data.deref.map fun x => { type := .uint32, value := some (.uint32Val x) }
  | .uint64 => data.deref.map fun x => { type := .uint64, value := some (.uint64Val x) }
  | .float =>
      if isArray arrayLength then (data.read arrayLength).map ({ type := .arrayFloat, floatArray := · })
      else data.deref.map fun x => { type := .float, value := some (.floatVal x) }
  | .double =>
      if isArray arrayLength then (data.read arrayLength).map ({ type := .arrayDouble, doubleArray := · })
      else data.deref.map fun x => { type := .double, value := some (.doubleVal x) }
  | .string =>
      if isArray arrayLength then (data.read arrayLength).map ({ type := .arrayString, stringArray := · })
      else data.deref.map fun s =>
        if 0 < List.length s then { type := .string, value := some (.stringVal s) }
        else { type := .string }
  | .dateTime =>
      data.deref.map fun x => { type := .dateTime, value := some (.datetimeVal (Int64.toUInt64 x)) }
  | .other _ => some {}

/-- `variantToProto`; `none` is a read through the sentinel. -/
def variantToProto : UAVariant F D O → Option (VariantValue F D)
  | .empty => some { type := .int32 }
  | .untyped => some {}
  | .scalar type x => convert type 0 (.elements [x])
  | .array type xs => convert type xs.length (.ofArray xs)

/-- `UA_String_fromChars(s.c_str())`: the bytes up to the first NUL. -/
def fromChars (s : List UInt8) : List UInt8 := s.takeWhile (· ≠ 0)

variable [Zero F] [Zero D]

/-- `protoToVariant`; `none` is the null pointer. -/
def protoToVariant (v : VariantValue F D) : Option (UAVariant F D O) :=
  match v.type with
  | .bool => some (.scalar .boolean v.boolVal)
  | .int32 => some (.scalar .int32 v.int32Val)
  | .int64 => some (.scalar .int64 v.int64Val)
  | .uint32 => some (.scalar .uint32 v.uint32Val)
  | .uint64 => some (.scalar .uint64 v.uint64Val)
  | .float => some (.scalar .float v.floatVal)
  | .double => some (.scalar .double v.doubleVal)
  | .string => some (.scalar .string (fromChars v.stringVal))
  | .arrayInt32 => some (.array .int32 v.int32Array)
  | .arrayFloat => some (.array .float v.floatArray)
  | .arrayDouble => some (.array .double v.doubleArray)
  | .arrayBool => some (.array .boolean v.boolArray)
  | .arrayString => some (.array .string (v.stringArray.map fromChars))
  | _ => none

/-- The length counts the elements of the array. -/
def Counts {α : Type} (xs : List α) : Prop := xs ≠ [] ∧ xs.length ≠ sizeMax

@[simp] theorem isArray_length {α : Type} {xs : List α} :
    isArray xs.length = true ↔ Counts xs := by
  simp [isArray, Counts, List.length_pos_iff]

@[simp] theorem counts_map {α β : Type} (f : α → β) (xs : List α) :
    Counts (xs.map f) ↔ Counts xs := by
  simp [Counts]

@[simp] theorem isArray_zero : isArray 0 = false := rfl

/-- A string without a NUL passes unchanged, and no other one does. -/
theorem fromChars_eq_self_iff {s : List UInt8} : fromChars s = s ↔ 0 ∉ s :=
  Lib.takeWhile_ne_eq_self_iff

theorem map_fromChars_eq_self_iff {ss : List (List UInt8)} :
    ss.map fromChars = ss ↔ ∀ s ∈ ss, 0 ∉ s := by
  induction ss with
  | nil => simp
  | cons s ss ih => simp [fromChars_eq_self_iff, ih]

end

end Opencode.Opcua
