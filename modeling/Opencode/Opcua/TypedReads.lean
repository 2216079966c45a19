import Mathlib
import Opencode.Opcua.Requests

/-!
# Typed reads

The typed reads take the message `read` gives, or the default one if it has no value, and
ask for one of its fields.  A getter answers with its default when the message has another
field, so a typed read does not fail: what it gives is the default for a call that failed,
an item without a value, an empty value, and a value of another type alike.  The status of
the item is not looked at.

The narrow integers arrive in the fields of the wide ones.  An array of a type that has no
branch for arrays arrives as its first element, and an empty array is read through the
sentinel.

## Main definitions

* `OPCUAClient.readBool`, … — the typed reads.
* `TypedRead` — which one.
* `TypedRead.found` — what a read finds in a variant.
* `OPCUAClient.answered` — the variant of the item, if the call is good.
* `typedReads` — what the typed reads give, and that at most one gives anything.
-/

namespace Opencode.Opcua

variable {F D O : Type} [Zero F] [Zero D]

namespace OPCUAClient

variable (service : UAReadValueId → UInt32 × List (AnswerValue F D O)) (node : NodeId)

def readValue : Option (ReadResponse F D) :=
  read service { nodeId := node, attributeId := attributeValue }

/-! `resp.value()` is the default message when there is none. -/

def readTyped {α : Type} (get : VariantValue F D → α) : Option α :=
  (readValue service node).map fun resp => get (resp.value.getD {})

def readBool : Option Bool := readTyped service node VariantValue.boolVal

def readInt32 : Option Int32 := readTyped service node VariantValue.int32Val

def readInt64 : Option Int64 := readTyped service node VariantValue.int64Val

def readUInt32 : Option UInt32 := readTyped service node VariantValue.uint32Val

def readFloat : Option F := readTyped service node VariantValue.floatVal

def readDouble : Option D := readTyped service node VariantValue.doubleVal

def readString : Option (List UInt8) := readTyped service node VariantValue.stringVal

def readInt32Array : Option (List Int32) := readTyped service node VariantValue.int32Array

def readFloatArray : Option (List F) := readTyped service node VariantValue.floatArray

def readDoubleArray : Option (List D) := readTyped service node VariantValue.doubleArray

end OPCUAClient

/-! ## The reads together -/

inductive TypedRead
  | bool
  | int32
  | int64
  | uint32
  | float
  | double
  | string
  | int32Array
  | floatArray
  | doubleArray
  deriving DecidableEq

namespace TypedRead

/-- What a read gives. -/
abbrev Result (F D : Type) : TypedRead → Type
  | .bool => Bool
  | .int32 => Int32
  | .int64 => Int64
  | .uint32 => UInt32
  | .float => F
  | .double => D
  | .string => List UInt8
  | .int32Array => List Int32
  | .floatArray => List F
  | .doubleArray => List D

def perform (service : UAReadValueId → UInt32 × List (AnswerValue F D O)) (node : NodeId) :
    (k : TypedRead) → Option (k.Result F D)
  | .bool => OPCUAClient.readBool service node
  | .int32 => OPCUAClient.readInt32 service node
  | .int64 => OPCUAClient.readInt64 service node
  | .uint32 => OPCUAClient.readUInt32 service node
  | .float => OPCUAClient.readFloat service node
  | .double => OPCUAClient.readDouble service node
  | .string => OPCUAClient.readString service node
  | .int32Array => OPCUAClient.readInt32Array service node
  | .floatArray => OPCUAClient.readFloatArray service node
  | .doubleArray => OPCUAClient.readDoubleArray service node

def default : (k : TypedRead) → k.Result F D
  | .bool => false
  | .int32 | .int64 | .uint32 | .float | .double => 0
  | .string | .int32Array | .floatArray | .doubleArray => []

/-- The getter of a read. -/
def get (v : VariantValue F D) : (k : TypedRead) → k.Result F D
  | .bool => v.boolVal
  | .int32 => v.int32Val
  | .int64 => v.int64Val
  | .uint32 => v.uint32Val
  | .float => v.floatVal
  | .double => v.doubleVal
  | .string => v.stringVal
  | .int32Array => v.int32Array
  | .floatArray => v.floatArray
  | .doubleArray => v.doubleArray

theorem get_default (k : TypedRead) : get ({} : VariantValue F D) k = k.default := by
  cases k <;> rfl

theorem perform_eq (service : UAReadValueId → UInt32 × List (AnswerValue F D O)) (node : NodeId)
    (k : TypedRead) :
    k.perform service node =
      (OPCUAClient.readValue service node).map fun resp => k.get (resp.value.getD {}) := by
  cases k <;> rfl

/-! ## What a read finds -/

/-- What a read finds in a scalar. -/
def inScalar : (k : TypedRead) → (type : UAType) → type.Elem F D O → Option (k.Result F D)
  | .bool, .boolean, b => some b
  | .int32, .sbyte, x => some (Int8.toInt32 x)
  | .int32, .int16, x => some (Int16.toInt32 x)
  | .int32, .int32, x => some x
  | .int64, .int64, x => some x
  | .uint32, .byte, x => some (UInt8.toUInt32 x)
  | .uint32, .uint16, x => some (UInt16.toUInt32 x)
  | .uint32, .uint32, x => some x
  | .float, .float, x => some x
  | .double, .double, x => some x
  | .string, .string, s => some s
  | _, _, _ => none

/-- What a read finds in the elements of an array. -/
def inElements : (k : TypedRead) → (type : UAType) → List (type.Elem F D O) →
    Option (k.Result F D)
  | .int32Array, .int32, xs => some xs
  | .floatArray, .float, xs => some xs
  | .doubleArray, .double, xs => some xs
  | _, _, _ => none

end TypedRead

/-- The types with a branch for arrays. -/
def UAType.KeepsArrays : UAType → Prop
  | .boolean | .int32 | .float | .double | .string => True
  | _ => False

instance : DecidablePred UAType.KeepsArrays
  | .boolean | .int32 | .float | .double | .string => .isTrue trivial
  | .sbyte | .int16 | .int64 | .byte | .uint16 | .uint32 | .uint64 | .dateTime | .other _ =>
      .isFalse id

/-- What a read finds in a variant: an array that is not converted to one is its first
element. -/
def TypedRead.found (k : TypedRead) : UAVariant F D O → Option (k.Result F D)
  | .scalar type x => k.inScalar type x
  | .array type xs =>
      if type.KeepsArrays ∧ isArray xs.length then k.inElements type xs
      else xs.head?.bind (k.inScalar type)
  | _ => none

/-- The empty array of a type that is converted. -/
def UAVariant.isEmptyArray : UAVariant F D O → Bool
  | .array (.other _) _ => false
  | .array _ xs => xs.isEmpty
  | _ => false

section

omit [Zero F] [Zero D] in
/-- What is not converted to an array is the scalar it points to. -/
theorem convert_eq_deref {type : UAType} {n : ℕ} {data : Pointer (type.Elem F D O)}
    (hn : ¬ (type.KeepsArrays ∧ isArray n)) (htype : ∀ i, type ≠ .other i) :
    convert type n data =
      data.deref.bind fun x => (convert type 0 (.elements [x]) : Option (VariantValue F D)) := by
  cases type with
  | other i => exact absurd rfl (htype i)
  | boolean | int32 | float | double | string =>
      have hflag : isArray n = false := by simpa [UAType.KeepsArrays] using hn
      cases hd : data.deref <;> simp [convert, hflag, hd]
  | _ => cases hd : data.deref <;> simp [convert, hd]

theorem get_convert_scalar (k : TypedRead) (type : UAType) (x : type.Elem F D O) :
    (convert type 0 (.elements [x])).map k.get = some ((k.inScalar type x).getD k.default) := by
  cases type with
  | string => cases (x : List UInt8) <;> cases k <;> rfl
  | _ => cases k <;> rfl

theorem get_convert_array (k : TypedRead) {type : UAType} {xs : List (type.Elem F D O)}
    (hkeeps : type.KeepsArrays) (hcounts : isArray xs.length = true) :
    (convert type xs.length (.ofArray xs)).map k.get =
      some ((k.inElements type xs).getD k.default) := by
  cases type with
  | boolean | int32 | float | double | string =>
      simp only [convert, hcounts, if_true, Pointer.read_length_ofArray, Option.map_some]
      cases k <;> rfl
  | _ => exact hkeeps.elim

/-- **The message a variant is converted to**, seen by a typed read. -/
theorem get_variantToProto (k : TypedRead) (x : UAVariant F D O) :
    (variantToProto x).map k.get =
      if x.isEmptyArray then none else some ((k.found x).getD k.default) := by
  cases x with
  | empty | untyped => cases k <;> rfl
  | scalar type x => exact get_convert_scalar k type x
  | array type xs =>
      by_cases hkept : type.KeepsArrays ∧ isArray xs.length
      · have hfound : k.found (.array type xs : UAVariant F D O) = k.inElements type xs := by
          simp [TypedRead.found, hkept]
        have hne : (.array type xs : UAVariant F D O).isEmptyArray = false := by
          cases xs with
          | nil => cases hkept.2
          | cons x xs => cases type <;> rfl
        rw [hfound, hne]
        exact get_convert_array k hkept.1 hkept.2
      · have hfound : k.found (.array type xs : UAVariant F D O) =
            xs.head?.bind (k.inScalar type) := by
          simp only [TypedRead.found, if_neg hkept]
        rw [hfound]
        by_cases hother : ∃ i, type = .other i
        · obtain ⟨i, rfl⟩ := hother
          cases xs <;> cases k <;> rfl
        · rw [variantToProto, convert_eq_deref hkept (not_exists.mp hother)]
          cases xs with
          | nil =>
              have hempty : (.array type [] : UAVariant F D O).isEmptyArray = true := by
                cases type with
                | other i => exact absurd ⟨i, rfl⟩ hother
                | _ => rfl
              rw [hempty]
              rfl
          | cons x xs =>
              have hne : (.array type (x :: xs) : UAVariant F D O).isEmptyArray = false := by
                cases type <;> rfl
              rw [hne]
              exact get_convert_scalar k type x

end

namespace OPCUAClient

/-- The variant of the first item, if the call is good. -/
def answered (service : UAReadValueId → UInt32 × List (AnswerValue F D O)) (node : NodeId) :
    Option (UAVariant F D O) :=
  match service ({ nodeId := node, attributeId := attributeValue } : ReadRequest).native with
  | (status, ⟨_, .plain v, _, _, _⟩ :: _) => if status = good then some v else none
  | _ => none

end OPCUAClient

/-- What a typed read gives. -/
theorem typedRead_eq (service : UAReadValueId → UInt32 × List (AnswerValue F D O)) (node : NodeId)
    (k : TypedRead) :
    k.perform service node =
      match OPCUAClient.answered service node with
      | none => some k.default
      | some x => if x.isEmptyArray then none else some ((k.found x).getD k.default) := by
  rw [TypedRead.perform_eq, OPCUAClient.readValue, OPCUAClient.read, OPCUAClient.answered]
  obtain ⟨status, results⟩ :=
    service ({ nodeId := node, attributeId := attributeValue } : ReadRequest).native
  cases results with
  | nil => exact congrArg some k.get_default
  | cons result rest =>
      obtain ⟨hasValue, value, itemStatus, serverTimestamp, sourceTimestamp⟩ := result
      by_cases hgood : status = good
      · cases value with
        | undefinedArray type =>
            simp only [hgood, ne_eq, not_true, if_false]
            cases k <;> rfl
        | plain v =>
            have hmessage := get_variantToProto k v
            simp only [hgood, ne_eq, not_true, if_false, if_true, ← hmessage]
            cases v with
            | empty | untyped => cases k <;> rfl
            | _ =>
                simp only [AnswerVariant.hasType, if_true, AnswerVariant.toProto]
                generalize variantToProto _ = message
                cases message <;> rfl
      · cases value <;> simp [hgood, TypedRead.get_default]

/-- The read for the scalars of a type. -/
def UAType.scalarRead : UAType → Option TypedRead
  | .boolean => some .bool
  | .sbyte | .int16 | .int32 => some .int32
  | .int64 => some .int64
  | .byte | .uint16 | .uint32 => some .uint32
  | .float => some .float
  | .double => some .double
  | .string => some .string
  | _ => none

/-- The read for its arrays. -/
def UAType.arrayRead : UAType → Option TypedRead
  | .int32 => some .int32Array
  | .float => some .floatArray
  | .double => some .doubleArray
  | _ => none

namespace TypedRead

omit [Zero F] [Zero D] in
theorem scalarRead_of_inScalar {k : TypedRead} {type : UAType} {x : type.Elem F D O}
    (h : (k.inScalar type x).isSome) : type.scalarRead = some k := by
  cases k <;> cases type <;> first | rfl | cases h

omit [Zero F] [Zero D] in
theorem arrayRead_of_inElements {k : TypedRead} {type : UAType} {xs : List (type.Elem F D O)}
    (h : (k.inElements type xs).isSome) : type.arrayRead = some k := by
  cases k <;> cases type <;> first | rfl | cases h

omit [Zero F] [Zero D] in
/-- No two reads find anything in the same variant. -/
theorem eq_of_found {k k' : TypedRead} {x : UAVariant F D O} (h : (k.found x).isSome)
    (h' : (k'.found x).isSome) : k = k' := by
  cases x with
  | empty | untyped => cases h
  | scalar type x =>
      have hread := scalarRead_of_inScalar h
      rw [scalarRead_of_inScalar h'] at hread
      exact (Option.some.inj hread).symm
  | array type xs =>
      simp only [found] at h h'
      split at h
      case isTrue hkept =>
        rw [if_pos hkept] at h'
        have hread := arrayRead_of_inElements h
        rw [arrayRead_of_inElements h'] at hread
        exact (Option.some.inj hread).symm
      case isFalse hkept =>
        rw [if_neg hkept] at h'
        cases xs with
        | nil => cases h
        | cons x xs =>
            have hread := scalarRead_of_inScalar h
            rw [scalarRead_of_inScalar h'] at hread
            exact (Option.some.inj hread).symm

end TypedRead

/-- **What the typed reads give.**  Each gives what it finds in the variant that a good call
answers, and the default if there is nothing to find, and is undefined for an empty array;
so of all reads of one answer at most one gives anything but its default. -/
theorem typedReads (service : UAReadValueId → UInt32 × List (AnswerValue F D O)) (node : NodeId) :
    (∀ k : TypedRead, k.perform service node =
      match OPCUAClient.answered service node with
      | none => some k.default
      | some x => if x.isEmptyArray then none else some ((k.found x).getD k.default)) ∧
    ∀ k k' : TypedRead, ∀ y ∈ k.perform service node, ∀ y' ∈ k'.perform service node,
      y ≠ k.default → y' ≠ k'.default → k = k' := by
  refine ⟨typedRead_eq service node, fun k k' y hy y' hy' hne hne' => ?_⟩
  rw [Option.mem_def, typedRead_eq] at hy hy'
  cases hanswer : OPCUAClient.answered service node with
  | none =>
      rw [hanswer] at hy
      exact absurd (Option.some.inj hy).symm hne
  | some x =>
      rw [hanswer] at hy hy'
      obtain ⟨hempty, hy⟩ := Option.ite_none_left_eq_some.mp hy
      obtain ⟨-, hy'⟩ := Option.ite_none_left_eq_some.mp hy'
      refine TypedRead.eq_of_found (x := x) ?_ ?_
      · by_contra hnone
        rw [Option.not_isSome_iff_eq_none.mp hnone] at hy
        exact hne (Option.some.inj hy).symm
      · by_contra hnone
        rw [Option.not_isSome_iff_eq_none.mp hnone] at hy'
        exact hne' (Option.some.inj hy').symm

end Opencode.Opcua
