import Opencode.Opcua.Variant

/-!
# The two conversions against each other

What comes back when a variant is converted to its protobuf form and again to a variant,
and the other way round.  Neither way is lossless: the tags of the narrow integers and of
the time stamps are not accepted on the way out, eight types have no branch for arrays on
the way in, an empty array is taken for a scalar and read through the sentinel, and a
string is cut at its first NUL.  Each theorem names exactly the values that survive.

## Main definitions

* `UAVariant.Writable` — the variants that can be read and written back.
* `VariantValue.selected` — the field of a message its type selects.
* `VariantValue.Intact` — the messages that can be written and read back.
-/

namespace Opencode.Opcua

variable {F D O : Type}

/-- The element type has a branch in `variantToProto`. -/
def UAType.HasBranch : UAType → Prop
  | .other _ => False
  | _ => True

def UAVariant.HasBranch : UAVariant F D O → Prop
  | .scalar type _ => type.HasBranch
  | .array type _ => type.HasBranch
  | _ => False

/-! ## Reading and writing back -/

/-- The types that are accepted as scalars on the way out, a string without a NUL only. -/
def ScalarWritable : (type : UAType) → type.Elem F D O → Prop
  | .boolean, _ | .int32, _ | .int64, _ | .uint32, _ | .uint64, _ | .float, _ | .double, _ => True
  | .string, s => (0 : UInt8) ∉ (s : List UInt8)
  | _, _ => False

/-- The types that have a branch for arrays on the way in, strings without a NUL only. -/
def ElementsWritable : (type : UAType) → List (type.Elem F D O) → Prop
  | .boolean, _ | .int32, _ | .float, _ | .double, _ => True
  | .string, ss => ∀ s ∈ (ss : List (List UInt8)), (0 : UInt8) ∉ s
  | _, _ => False

/-- The variants that survive: an array must have a length that counts its elements. -/
def UAVariant.Writable : UAVariant F D O → Prop
  | .scalar type x => ScalarWritable type x
  | .array type xs => Counts xs ∧ ElementsWritable type xs
  | _ => False

/-- The tags of arrays. -/
def DataTypeId.isArray : DataTypeId → Bool
  | .arrayBool | .arrayInt32 | .arrayFloat | .arrayDouble | .arrayString => true
  | _ => false

/-- Where the length does not count elements, nothing is converted to an array. -/
theorem isArray_of_convert {type : UAType} {n : ℕ} {data : Pointer (type.Elem F D O)}
    (hn : isArray n = false) {v : VariantValue F D} (h : convert type n data = some v) :
    v.type.isArray = false := by
  cases type with
  | other i =>
      cases h
      rfl
  | string =>
      simp only [convert, hn, Bool.false_eq_true, if_false] at h
      obtain ⟨s, -, rfl⟩ := Option.map_eq_some_iff.mp h
      split <;> rfl
  | _ =>
      simp only [convert, hn, Bool.false_eq_true, if_false] at h
      obtain ⟨x, -, rfl⟩ := Option.map_eq_some_iff.mp h
      rfl

/-- A string is converted as it is, the empty one by leaving the field unset. -/
theorem convert_string (s : List UInt8) :
    ∃ v : VariantValue F D,
      convert .string 0 (.elements [s] : Pointer (UAType.Elem F D O .string)) = some v ∧
        v.type = .string ∧ v.stringVal = s := by
  cases s with
  | nil => exact ⟨_, rfl, rfl, rfl⟩
  | cons c cs => exact ⟨_, rfl, rfl, rfl⟩

section

variable [Zero F] [Zero D]

/-- A scalar comes back exactly when its type is accepted and its bytes have no NUL. -/
theorem convert_scalar_iff (type : UAType) (x : type.Elem F D O) :
    (convert type 0 (.elements [x])).bind protoToVariant = some (UAVariant.scalar type x) ↔
      ScalarWritable type x := by
  cases type with
  | string =>
      obtain ⟨v, hv, htype, hval⟩ := convert_string (F := F) (D := D) (O := O) x
      simp [hv, protoToVariant, htype, hval, ScalarWritable, fromChars_eq_self_iff]
  | _ =>
      simp [convert, protoToVariant, ScalarWritable, VariantValue.boolVal, VariantValue.int32Val,
        VariantValue.int64Val, VariantValue.uint32Val, VariantValue.uint64Val,
        VariantValue.floatVal, VariantValue.doubleVal]

/-- Only a message with the tag of an array is converted to an array. -/
theorem isArray_of_protoToVariant {v : VariantValue F D} {type : UAType}
    {xs : List (type.Elem F D O)} (h : protoToVariant v = some (UAVariant.array type xs)) :
    v.type.isArray = true := by
  unfold protoToVariant at h
  split at h <;> simp_all [DataTypeId.isArray]

/-- An array whose length counts its elements comes back exactly when its type has a
branch for arrays and its strings have no NUL. -/
theorem convert_array_iff {type : UAType} {xs : List (type.Elem F D O)} (hc : Counts xs) :
    (convert type xs.length (.ofArray xs)).bind protoToVariant =
        some (UAVariant.array type xs) ↔ ElementsWritable type xs := by
  have hflag : isArray xs.length = true := isArray_length.mpr hc
  cases type with
  | string =>
      simp only [convert, hflag, if_true, Pointer.read_length_ofArray, Option.map_some,
        Option.bind_some, protoToVariant, ElementsWritable]
      rw [← map_fromChars_eq_self_iff]
      simp
  | boolean | int32 | float | double =>
      simp only [convert, hflag, if_true, Pointer.read_length_ofArray, Option.map_some,
        Option.bind_some, protoToVariant, ElementsWritable]
  | _ =>
      obtain ⟨x, tail, rfl⟩ := List.exists_cons_of_ne_nil hc.1
      simp [convert, protoToVariant, ElementsWritable]

/-- The variant is read and written back as it was. -/
def UAVariant.Restored (x : UAVariant F D O) : Prop :=
  (variantToProto x).bind protoToVariant = some x

/-- **Which variants can be read and written back.**  Exactly the scalars of the types
both conversions know, and the arrays of those with a branch for them, if the array is not
empty and no string has a NUL. -/
theorem restored_iff_writable (x : UAVariant F D O) (h : x.HasBranch) :
    x.Restored ↔ x.Writable := by
  cases x with
  | empty => exact h.elim
  | untyped => exact h.elim
  | scalar type x => exact convert_scalar_iff type x
  | array type xs =>
      by_cases hc : Counts xs
      · rw [UAVariant.Restored, variantToProto, convert_array_iff hc]
        exact ⟨fun hw => ⟨hc, hw⟩, fun hw => hw.2⟩
      · refine iff_of_false (fun hback => ?_) fun hw => hc hw.1
        obtain ⟨v, hv, hx⟩ := Option.bind_eq_some_iff.mp hback
        have hflag : isArray xs.length = false := by
          rwa [← Bool.not_eq_true, isArray_length]
        have hfalse := isArray_of_convert hflag hv
        rw [isArray_of_protoToVariant hx] at hfalse
        cases hfalse

end

/-- An array of strings. -/
theorem restored_strings :
    (UAVariant.array .string [[104, 105], []] : UAVariant ℕ ℕ Unit).Restored :=
  (restored_iff_writable (UAVariant.array .string [[104, 105], []]) trivial).mpr
    ⟨by simp [Counts, sizeMax], by simp [ElementsWritable]⟩

/-- A `UInt16` is read and cannot be written. -/
theorem not_restored_uint16 :
    (UAVariant.scalar .uint16 7 : UAVariant ℕ ℕ Unit).HasBranch ∧
      ¬ (UAVariant.scalar .uint16 7 : UAVariant ℕ ℕ Unit).Restored := by
  refine ⟨trivial, ?_⟩
  simp [UAVariant.Restored, variantToProto, convert, protoToVariant]

/-! ## Writing and reading back -/

/-- What a message holds: the field its type selects. -/
inductive Selected (F D : Type)
  | bool (b : Bool)
  | int32 (x : Int32)
  | int64 (x : Int64)
  | uint32 (x : UInt32)
  | uint64 (x : UInt64)
  | float (x : F)
  | double (x : D)
  | string (s : List UInt8)
  | arrayBool (xs : List Bool)
  | arrayInt32 (xs : List Int32)
  | arrayFloat (xs : List F)
  | arrayDouble (xs : List D)
  | arrayString (ss : List (List UInt8))
  deriving DecidableEq

namespace VariantValue

variable [Zero F] [Zero D]

/-- The field the type selects, for the types `protoToVariant` accepts. -/
def selected (v : VariantValue F D) : Option (Selected F D) :=
  match v.type with
  | .bool => some (.bool v.boolVal)
  | .int32 => some (.int32 v.int32Val)
  | .int64 => some (.int64 v.int64Val)
  | .uint32 => some (.uint32 v.uint32Val)
  | .uint64 => some (.uint64 v.uint64Val)
  | .float => some (.float v.floatVal)
  | .double => some (.double v.doubleVal)
  | .string => some (.string v.stringVal)
  | .arrayBool => some (.arrayBool v.boolArray)
  | .arrayInt32 => some (.arrayInt32 v.int32Array)
  | .arrayFloat => some (.arrayFloat v.floatArray)
  | .arrayDouble => some (.arrayDouble v.doubleArray)
  | .arrayString => some (.arrayString v.stringArray)
  | _ => none

/-- The message a conversion there and back leaves: same type, same selected field. -/
def Preserved (O : Type) (v : VariantValue F D) : Prop :=
  ∃ w, (protoToVariant v : Option (UAVariant F D O)).bind variantToProto = some w ∧
    w.type = v.type ∧ w.selected = v.selected

/-- The selected field has no NUL and, if it is an array, counts its elements. -/
def Intact (v : VariantValue F D) : Prop :=
  match v.selected with
  | some (.string s) => 0 ∉ s
  | some (.arrayBool xs) => Counts xs
  | some (.arrayInt32 xs) => Counts xs
  | some (.arrayFloat xs) => Counts xs
  | some (.arrayDouble xs) => Counts xs
  | some (.arrayString ss) => Counts ss ∧ ∀ s ∈ ss, 0 ∉ s
  | _ => True

/-- An array that comes back as an array counts its elements. -/
theorem Preserved.counts {v : VariantValue F D} (h : v.Preserved O) {type : UAType}
    {xs : List (type.Elem F D O)} (hx : protoToVariant v = some (UAVariant.array type xs)) :
    Counts xs := by
  by_contra hc
  obtain ⟨w, hw, htype, -⟩ := h
  rw [hx, Option.bind_some, variantToProto] at hw
  have hflag : isArray xs.length = false := by rwa [← Bool.not_eq_true, isArray_length]
  have hfalse := isArray_of_convert hflag hw
  rw [htype, isArray_of_protoToVariant hx] at hfalse
  cases hfalse

theorem preserved_scalar_iff {v w : VariantValue F D} {type : UAType} {x : type.Elem F D O}
    (hx : protoToVariant v = some (UAVariant.scalar type x))
    (hw : convert type 0 (.elements [x]) = some w) (htype : w.type = v.type) :
    v.Preserved O ↔ w.selected = v.selected := by
  simp [Preserved, hx, variantToProto, hw, htype]

theorem preserved_array_iff {v w : VariantValue F D} {type : UAType}
    {xs : List (type.Elem F D O)} (hx : protoToVariant v = some (UAVariant.array type xs))
    (hw : isArray xs.length = true → convert type xs.length (.ofArray xs) = some w)
    (htype : w.type = v.type) : v.Preserved O ↔ Counts xs ∧ w.selected = v.selected := by
  constructor
  · intro hp
    have hc := hp.counts hx
    obtain ⟨w', hw', -, hsel⟩ := hp
    rw [hx, Option.bind_some, variantToProto, hw (isArray_length.mpr hc)] at hw'
    cases hw'
    exact ⟨hc, hsel⟩
  · rintro ⟨hc, hsel⟩
    refine ⟨w, ?_, htype, hsel⟩
    rw [hx, Option.bind_some, variantToProto, hw (isArray_length.mpr hc)]

/-- **Which messages can be written and read back.**  Of those that are accepted, exactly
the ones whose selected field is a scalar, or an array that is not empty, and whose strings
have no NUL. -/
theorem preserved_iff_intact (v : VariantValue F D)
    (h : (protoToVariant v : Option (UAVariant F D O)).isSome) : v.Preserved O ↔ v.Intact := by
  cases hv : v.type
  case bool | int32 | int64 | uint32 | uint64 | float | double =>
    rw [preserved_scalar_iff (by simp only [protoToVariant, hv]; rfl) rfl (by rw [hv])]
    simp [Intact, selected, hv, boolVal, int32Val, int64Val, uint32Val, uint64Val, floatVal,
      doubleVal]
  case string =>
    obtain ⟨w, hw, hwt, hws⟩ := convert_string (F := F) (D := D) (O := O) (fromChars v.stringVal)
    rw [preserved_scalar_iff (by simp only [protoToVariant, hv]) hw (hwt.trans hv.symm)]
    simp [Intact, selected, hv, hwt, hws, fromChars_eq_self_iff]
  case arrayBool | arrayInt32 | arrayFloat | arrayDouble =>
    rw [preserved_array_iff (by simp only [protoToVariant, hv]; rfl)
      (fun hflag => by simp only [convert, hflag, if_true, Pointer.read_length_ofArray,
        Option.map_some]; rfl) (by rw [hv])]
    simp [Intact, selected, hv]
  case arrayString =>
    rw [preserved_array_iff (by simp only [protoToVariant, hv]; rfl)
      (fun hflag => by simp only [convert, hflag, if_true, Pointer.read_length_ofArray,
        Option.map_some]; rfl) (by rw [hv])]
    simp [Intact, selected, hv, map_fromChars_eq_self_iff]
  all_goals simp [protoToVariant, hv] at h

/-- A scalar and, beside it, an array that is not selected. -/
theorem preserved_int32 :
    ({ type := .int32, value := some (.int32Val (-5)), boolArray := [true] } :
      VariantValue ℕ ℕ).Preserved Unit :=
  (preserved_iff_intact _ rfl).mpr trivial

/-- A NUL ends the string that is written. -/
theorem not_preserved_nul :
    (protoToVariant ({ type := .string, value := some (.stringVal [97, 0, 98]) } :
      VariantValue ℕ ℕ) : Option (UAVariant ℕ ℕ Unit)).isSome ∧
      ¬ ({ type := .string, value := some (.stringVal [97, 0, 98]) } :
        VariantValue ℕ ℕ).Preserved Unit := by
  refine ⟨rfl, ?_⟩
  rintro ⟨w, hw, -, hsel⟩
  have hcut : w = { type := .string, value := some (.stringVal [97]) } :=
    (Option.some.inj hw).symm
  subst hcut
  simp [selected, stringVal] at hsel

end VariantValue

end Opencode.Opcua
