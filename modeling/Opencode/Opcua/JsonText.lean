import Opencode.Lib.Json
import Opencode.Opcua.StructParser

/-!
# The JSON text of a parsed value

`toJson` writes a tree of parsed values.  The line breaks of an array and of a structure are
written as a backslash and the letter `n`, names and strings are written as they are, and an
element of an array brings its name along.  Whatever type has no case of its own is written as
the string the value holds, which the parser leaves empty for an enumeration and a date.

How a floating-point number is printed is a parameter.  A Boolean whose byte is neither zero
nor one is undefined and gives `none`.

## Main definitions

* `toJson` — the printer.
* `ParsedValue.Denotes` — the value a tree stands for.
* `ParsedValue.toJson_iff` — when the text is that value, or a member with the field's name.
-/

namespace Opencode.Opcua

open Opencode.Lib
open Json (IsWs Unescaped IsValue IsMember)

/-! ## The printer -/

/-- The bytes of a text. -/
def bytes (text : String) : List UInt8 := utf8 text.toList

/-- The text in front of the value: the padding, the name and a colon, or nothing if there is
no name. -/
def nameToJson (indent : ℕ) (fieldName : String) : List UInt8 :=
  if fieldName ≠ "" then
    utf8 (List.replicate indent ' ') ++ bytes "\"" ++ bytes fieldName ++ bytes "\": "
  else []

section

variable (printDouble : Float → List UInt8)

/-- The last `switch` of `toJson`. -/
def scalarToJson (ft : FieldType) (num : Num) (str : List UInt8) : Option (List UInt8) :=
  match ft with
  | .bool => num.b.map fun x => bytes (if x then "true" else "false")
  | .i8 | .i16 | .i32 | .i64 => some (bytes (toString num.i64))
  | .u8 | .u16 | .u32 | .u64 => some (bytes (toString num.u64))
  | .float | .double => some (printDouble num.d)
  | _ => some (bytes "\"" ++ str ++ bytes "\"")

mutual

/-- `toJson`. -/
def toJson (indent : ℕ) : ParsedValue → Option (List UInt8)
  | ⟨fieldName, ft, isArray, num, str, structFields, arrayElems⟩ =>
      let pad := utf8 (List.replicate indent ' ')
      let value : Option (List UInt8) :=
        if isArray then
          (toJsonAll (indent + 2) arrayElems).map fun elems =>
            bytes "[\\n" ++ elems ++ pad ++ bytes "]"
        else if structFields ≠ [] then
          (toJsonAll (indent + 2) structFields).map fun fields =>
            bytes "\x7b\\n" ++ fields ++ pad ++ bytes "\x7d"
        else scalarToJson printDouble ft num str
      value.map (nameToJson indent fieldName ++ ·)

/-- The loop over the elements of an array and over the fields of a structure: a comma behind
each but the last, and the line break. -/
def toJsonAll (indent : ℕ) : List ParsedValue → Option (List UInt8)
  | [] => some []
  | v :: vs => do
      let first ← toJson indent v
      let rest ← toJsonAll indent vs
      some (first ++ (if vs ≠ [] then bytes "," else []) ++ bytes "\\n" ++ rest)

end

end

/-! ## What a tree stands for -/

namespace FieldType

/-- The types of signed integers. -/
def signed : List FieldType := [.i8, .i16, .i32, .i64]

/-- The types of unsigned integers. -/
def unsigned : List FieldType := [.u8, .u16, .u32, .u64]

end FieldType

namespace ParsedValue

/-- An array stands for the array of its elements, a structure for the object of its fields,
and a scalar for the value the parser puts into it. -/
inductive Denotes : ParsedValue → Json → Prop
  | arr {v : ParsedValue} {js : List Json} (harr : v.isArray = true)
      (helems : List.Forall₂ Denotes v.arrayElems js) : Denotes v (.arr js)
  | obj {v : ParsedValue} {js : List Json} (harr : v.isArray = false)
      (hstruct : v.ft = .struct ∨ v.structFields ≠ [])
      (hfields : List.Forall₂ Denotes v.structFields js) :
      Denotes v (.obj ((v.structFields.map fun field => field.fieldName.toList).zip js))
  | bool {v : ParsedValue} {x : Bool} (harr : v.isArray = false) (hfields : v.structFields = [])
      (hft : v.ft = .bool) (hnum : v.num.b = some x) : Denotes v (.bool x)
  | signed {v : ParsedValue} {x : ℤ} (harr : v.isArray = false) (hfields : v.structFields = [])
      (hft : v.ft ∈ FieldType.signed ∨ v.ft = .enum) (hnum : v.num.i64 = x) :
      Denotes v (.num x)
  | unsigned {v : ParsedValue} {x : ℕ} (harr : v.isArray = false) (hfields : v.structFields = [])
      (hft : v.ft ∈ FieldType.unsigned ∨ v.ft = .dateTime) (hnum : v.num.u64 = x) :
      Denotes v (.num x)
  | str {v : ParsedValue} {s : List Char} (harr : v.isArray = false)
      (hfields : v.structFields = []) (hft : v.ft = .string) (hstr : utf8 s = v.str) :
      Denotes v (.str s)

/-- The text reads as the value of the tree: on its own if the field has no name, and as a
member with that name otherwise. -/
def IsTextOf (v : ParsedValue) (text : List UInt8) : Prop :=
  ∃ cs j, utf8 cs = text ∧ v.Denotes j ∧
    if v.fieldName = "" then IsValue cs j else IsMember cs v.fieldName.toList j

/-- The type is that of an integer, or of a Boolean that the union holds. -/
def IsUnquoted (v : ParsedValue) : Prop :=
  (v.ft = .bool ∧ ∃ x, v.num.b = some x) ∨ v.ft ∈ FieldType.signed ∨ v.ft ∈ FieldType.unsigned

/-- The type is that of a string, and its characters stand for themselves. -/
def IsPlainString (v : ParsedValue) : Prop :=
  v.ft = .string ∧ ∃ s, utf8 s = v.str ∧ ∀ c ∈ s, Unescaped c

/-- The tree is a Boolean, an integer or a plain string, with a plain name or none. -/
def IsPlainScalar (v : ParsedValue) : Prop :=
  v.isArray = false ∧ v.structFields = [] ∧ (∀ c ∈ v.fieldName.toList, Unescaped c) ∧
    (v.IsUnquoted ∨ v.IsPlainString)

variable {v : ParsedValue} {body rest : List UInt8} {printDouble : Float → List UInt8}

/-! ## The name -/

/-- The name needs characters that stand for themselves, and the value has to read as one. -/
theorem isTextOf_append_iff (hbody : ∃ d rest, body = utf8 [d] ++ rest ∧ ¬ IsWs d) :
    v.IsTextOf (nameToJson 0 v.fieldName ++ body) ↔
      (∀ c ∈ v.fieldName.toList, Unescaped c) ∧
        ∃ cs j, utf8 cs = body ∧ v.Denotes j ∧ IsValue cs j := by
  unfold IsTextOf nameToJson
  by_cases hname : v.fieldName = ""
  · simp [hname]
  · have htext : utf8 (List.replicate 0 ' ') ++ bytes "\"" ++ bytes v.fieldName ++ bytes "\": " =
        utf8 ('\"' :: (v.fieldName.toList ++ ['\"', ':', ' '])) := by
      simp [bytes]
    have hstart : ∀ {cs : List Char}, utf8 cs = body → ∃ d tail, cs = d :: tail ∧ ¬ IsWs d := by
      intro cs hcs
      obtain ⟨d, rest, rfl, hd⟩ := hbody
      obtain ⟨tail, rfl, -⟩ := exists_of_utf8_eq_append hcs
      exact ⟨d, tail, rfl, hd⟩
    simp only [ne_eq, hname, not_false_eq_true, if_true, if_false, htext]
    constructor
    · rintro ⟨cs, j, hcs, hj, hmember⟩
      obtain ⟨tail, rfl, htail⟩ := exists_of_utf8_eq_append hcs
      rw [List.cons_append, List.append_assoc] at hmember
      obtain ⟨hplain, hvalue⟩ := (Json.isMember_iff_of_name (hstart htail)).mp hmember
      exact ⟨hplain, tail, j, htail, hj, hvalue⟩
    · rintro ⟨hplain, cs, j, rfl, hj, hvalue⟩
      refine ⟨'\"' :: (v.fieldName.toList ++ '\"' :: ':' :: ' ' :: cs), j, by simp, hj, ?_⟩
      exact (Json.isMember_iff_of_name (hstart rfl)).mpr ⟨hplain, hvalue⟩

/-! ## The value -/

/-- The line break behind the first bracket is none. -/
theorem not_isTextOf_bracket {o : Char} (ho : o = '[' ∨ o = '{') :
    ¬ v.IsTextOf (nameToJson 0 v.fieldName ++ (utf8 [o, '\\', 'n'] ++ rest)) := by
  rw [isTextOf_append_iff]
  · rintro ⟨-, cs, j, hcs, -, hvalue⟩
    obtain ⟨tail, rfl, -⟩ := exists_of_utf8_eq_append hcs
    exact Json.not_isValue_bracket_backslash ho hvalue
  · exact ⟨o, utf8 ['\\', 'n'] ++ rest, by simp, Json.not_isWs_bracket ho⟩

/-- Every array and every structure with fields starts so. -/
theorem exists_of_toJson_bracket (h : v.isArray = true ∨ v.structFields ≠ [])
    {text : List UInt8} (htext : toJson printDouble 0 v = some text) :
    ∃ o rest, (o = '[' ∨ o = '{') ∧
      text = nameToJson 0 v.fieldName ++ (utf8 [o, '\\', 'n'] ++ rest) := by
  obtain ⟨fieldName, ft, isArray, num, str, structFields, arrayElems⟩ := v
  rw [toJson] at htext
  obtain ⟨value, hvalue, rfl⟩ := Option.map_eq_some_iff.mp htext
  cases isArray with
  | true =>
      rw [if_pos rfl] at hvalue
      obtain ⟨elems, -, rfl⟩ := Option.map_eq_some_iff.mp hvalue
      exact ⟨'[', _, .inl rfl, by simp only [List.append_assoc]; rfl⟩
  | false =>
      have hne : structFields ≠ [] := h.resolve_left Bool.false_ne_true
      rw [if_neg Bool.false_ne_true, if_pos hne] at hvalue
      obtain ⟨fields, -, rfl⟩ := Option.map_eq_some_iff.mp hvalue
      exact ⟨'{', _, .inr rfl, by simp only [List.append_assoc]; rfl⟩

theorem toJson_of_scalar (harr : v.isArray = false) (hfields : v.structFields = []) :
    toJson printDouble 0 v =
      (scalarToJson printDouble v.ft v.num v.str).map (nameToJson 0 v.fieldName ++ ·) := by
  obtain ⟨fieldName, ft, isArray, num, str, structFields, arrayElems⟩ := v
  subst harr hfields
  rw [toJson]
  rfl

/-- A numeral starts with a digit or a minus. -/
theorem start_of_isNumber {cs : List Char} {x : ℚ} (h : Json.IsNumber cs x) :
    ∃ d rest, utf8 cs = utf8 [d] ++ rest ∧ ¬ IsWs d := by
  obtain ⟨d, tail, rfl, hd⟩ := h.exists_cons
  refine ⟨d, utf8 tail, by simp, ?_⟩
  rintro (rfl | rfl | rfl | rfl) <;> simp at hd

/-- A string reads as its value if none of its characters has to be escaped, and nothing else
reads as a value between quotes. -/
theorem quoted_iff (harr : v.isArray = false) (hfields : v.structFields = []) :
    (∃ cs j, utf8 cs = bytes "\"" ++ v.str ++ bytes "\"" ∧ v.Denotes j ∧ IsValue cs j) ↔
      v.IsPlainString := by
  constructor
  · rintro ⟨cs, j, hcs, hj, hvalue⟩
    rw [List.append_assoc] at hcs
    obtain ⟨tail, rfl, htail⟩ := exists_of_utf8_eq_append hcs
    obtain ⟨s, rfl, hstring⟩ := IsValue.of_quote hvalue
    cases hj with
    | str _ _ hft hstr =>
        rw [← hstr, bytes, ← utf8_append, utf8_inj] at htail
        subst htail
        exact ⟨hft, s, hstr, Json.isString_quoted_iff.mp hstring⟩
  · rintro ⟨hft, s, hstr, hplain⟩
    refine ⟨'\"' :: (s ++ ['\"']), .str s, ?_, .str harr hfields hft hstr,
      .str (Json.isString_quoted_iff.mpr hplain)⟩
    simp [bytes, hstr]

/-- A Boolean or an integer is printed as the value it stands for. -/
theorem exists_of_isUnquoted (harr : v.isArray = false) (hfields : v.structFields = [])
    (h : v.IsUnquoted) :
    ∃ cs j, scalarToJson printDouble v.ft v.num v.str = some (utf8 cs) ∧
      (∃ d rest, utf8 cs = utf8 [d] ++ rest ∧ ¬ IsWs d) ∧ v.Denotes j ∧ IsValue cs j := by
  rcases h with ⟨hft, x, hnum⟩ | hft | hft
  · refine ⟨(if x then "true" else "false").toList, _, by rw [hft, scalarToJson, hnum]; rfl, ?_,
      .bool harr hfields hft hnum, ?_⟩
    · cases x
      · exact ⟨'f', bytes "alse", rfl, by decide⟩
      · exact ⟨'t', bytes "rue", rfl, by decide⟩
    · cases x
      · exact .false
      · exact .true
  · have hnumber := Json.isNumber_intToString v.num.i64
    refine ⟨(toString v.num.i64).toList, _, ?_, start_of_isNumber hnumber,
      .signed harr hfields (.inl hft) rfl, .num hnumber⟩
    simp only [FieldType.signed, List.mem_cons, List.not_mem_nil, or_false] at hft
    rcases hft with hft | hft | hft | hft <;> rw [hft] <;> rfl
  · have hnumber := Json.isNumber_natToString v.num.u64
    refine ⟨(toString v.num.u64).toList, _, ?_, start_of_isNumber hnumber,
      .unsigned harr hfields (.inl hft) rfl, .num hnumber⟩
    simp only [FieldType.unsigned, List.mem_cons, List.not_mem_nil, or_false] at hft
    rcases hft with hft | hft | hft | hft <;> rw [hft] <;> rfl

/-- Of the other scalars that stand for something, all are printed between quotes. -/
theorem scalarToJson_quoted (h : v.ft ∈ [.string, .struct, .enum, .dateTime]) :
    scalarToJson printDouble v.ft v.num v.str = some (bytes "\"" ++ v.str ++ bytes "\"") := by
  simp only [List.mem_cons, List.not_mem_nil, or_false] at h
  rcases h with h | h | h | h <;> rw [h] <;> rfl

theorem Denotes.isUnquoted_or {j : Json} (h : v.Denotes j) (harr : v.isArray = false)
    (hfields : v.structFields = []) :
    v.IsUnquoted ∨ v.ft ∈ [.string, .struct, .enum, .dateTime] := by
  cases h with
  | arr htrue _ => simp [harr] at htrue
  | obj _ hstruct _ => simp [hstruct.resolve_right (not_not.mpr hfields)]
  | bool _ _ hft hnum => exact .inl (.inl ⟨hft, _, hnum⟩)
  | signed _ _ hft _ =>
      rcases hft with hft | hft
      · exact .inl (.inr (.inl hft))
      · simp [hft]
  | unsigned _ _ hft _ =>
      rcases hft with hft | hft
      · exact .inl (.inr (.inr hft))
      · simp [hft]
  | str _ _ hft _ => simp [hft]

/-- A quote is no white space. -/
theorem start_of_quoted (str : List UInt8) :
    ∃ d rest, bytes "\"" ++ str ++ bytes "\"" = utf8 [d] ++ rest ∧ ¬ IsWs d :=
  ⟨'\"', str ++ bytes "\"", List.append_assoc _ _ _, by decide⟩

/-- **The text of a tree** reads as its value, on its own or as a member with the name of the
field, exactly if the tree is a Boolean, an integer or a string, and neither the name nor the
string has a character that has to be escaped. -/
theorem toJson_iff (printDouble : Float → List UInt8) (v : ParsedValue) :
    (∃ text, toJson printDouble 0 v = some text ∧ v.IsTextOf text) ↔ v.IsPlainScalar := by
  constructor
  · rintro ⟨text, htext, hread⟩
    by_cases hbracket : v.isArray = true ∨ v.structFields ≠ []
    · obtain ⟨o, rest, ho, rfl⟩ := exists_of_toJson_bracket hbracket htext
      exact absurd hread (not_isTextOf_bracket ho)
    · rw [not_or, Bool.not_eq_true, not_not] at hbracket
      obtain ⟨harr, hfields⟩ := hbracket
      rw [toJson_of_scalar harr hfields] at htext
      obtain ⟨body, hbody, rfl⟩ := Option.map_eq_some_iff.mp htext
      have ⟨_, _, _, hj, _⟩ := hread
      rcases hj.isUnquoted_or harr hfields with hplain | hquoted
      · obtain ⟨cs, j, hcs, hstart, -⟩ := exists_of_isUnquoted harr hfields hplain
        obtain rfl := Option.some.inj (hbody.symm.trans hcs)
        exact ⟨harr, hfields, ((isTextOf_append_iff hstart).mp hread).1, .inl hplain⟩
      · obtain rfl := Option.some.inj (hbody.symm.trans (scalarToJson_quoted hquoted))
        obtain ⟨hname, hvalue⟩ := (isTextOf_append_iff (start_of_quoted v.str)).mp hread
        exact ⟨harr, hfields, hname, .inr ((quoted_iff harr hfields).mp hvalue)⟩
  · rintro ⟨harr, hfields, hname, hplain | hstring⟩
    · obtain ⟨cs, j, hcs, hstart, hj, hvalue⟩ := exists_of_isUnquoted harr hfields hplain
      refine ⟨_, by rw [toJson_of_scalar harr hfields, hcs]; rfl, ?_⟩
      exact (isTextOf_append_iff hstart).mpr ⟨hname, cs, j, rfl, hj, hvalue⟩
    · have hquoted : v.ft ∈ [.string, .struct, .enum, .dateTime] := by simp [hstring.1]
      refine ⟨_, by rw [toJson_of_scalar harr hfields, scalarToJson_quoted hquoted]; rfl, ?_⟩
      exact (isTextOf_append_iff (start_of_quoted v.str)).mpr
        ⟨hname, (quoted_iff harr hfields).mpr hstring⟩

/-- An axis with one Boolean field. -/
private def axis : ParsedValue where
  fieldName := "J1_Axis"
  ft := .struct
  structFields := [{ fieldName := "enabled", ft := .bool, num := .ofB true }]

/-- The text of a structure is no member. -/
theorem not_toJson_axis :
    ¬ ∀ (printDouble : Float → List UInt8) (v : ParsedValue), (∃ j, v.Denotes j) →
      ∃ text, toJson printDouble 0 v = some text ∧ v.IsTextOf text := by
  intro h
  have hfields : List.Forall₂ Denotes axis.structFields [.bool true] :=
    .cons (.bool rfl rfl rfl rfl) .nil
  obtain ⟨text, htext, hread⟩ := h (fun _ => []) axis ⟨_, .obj rfl (.inl rfl) hfields⟩
  obtain ⟨o, rest, ho, rfl⟩ := exists_of_toJson_bracket (.inr (by simp [axis])) htext
  exact not_isTextOf_bracket ho hread

end ParsedValue

end Opencode.Opcua
