import Opencode.Opcua.StructLayout

/-!
# Types the structure parser misreads

For every type that is not `Aligned` there is a memory with a value of the type that the
parser gets wrong.  An array is lost when it is empty, so a memory of zeros will do.  A
scalar that the parser looks for too early is missed when only its last byte is not zero; a
string, when its length is one and its pointer has only its last byte set.  These memories
are zero outside the value, so the values of the other members can be filled in.

## Main definitions

* `Misread` — a memory that shows it, zero outside the value.
* `parses_iff_aligned` — the parser is correct exactly for the aligned types.
-/

namespace Opencode.Opcua

open Opencode.Lib

variable {mem : Memory}

/-! ## Zeros -/

/-- The scalar of zero bytes. -/
def TypeKind.zero : TypeKind → Value
  | .boolean => .bool false
  | .string => .string []
  | _ => .int 0

theorem readBoolean_of_zeroOn {addr : ℕ} (h : ZeroOn mem addr 1) :
    readBoolean mem addr = some false := by
  simp [readBoolean, h addr le_rfl (by omega)]

theorem decodeString_of_zeroOn {addr : ℕ} (h : ZeroOn mem addr 16) :
    decodeString mem addr = some [] := by
  have hlen := readUnsigned_of_zeroOn (h.mono le_rfl (by omega) : ZeroOn mem addr 8)
  have hptr := readUnsigned_of_zeroOn (h.mono (by omega) (by omega) : ZeroOn mem (addr + 8) 8)
  simp [decodeString, hlen, hptr]

theorem decodeScalar_of_zeroOn {typeKind : TypeKind} {addr n : ℕ}
    (hn : typeKind.scalarSize = some n) (h : ZeroOn mem addr n) :
    decodeScalar mem addr typeKind = some typeKind.zero := by
  cases typeKind <;> simp only [TypeKind.scalarSize, Option.some.injEq, reduceCtorEq] at hn <;>
    subst hn <;>
    simp [decodeScalar, TypeKind.zero, readBoolean_of_zeroOn, decodeString_of_zeroOn,
      readUnsigned_of_zeroOn, readSigned_of_zeroOn, h]

theorem scannedScalar_of_zeroOn {typeKind : TypeKind} {addr n : ℕ}
    (hn : typeKind.scalarSize = some n) (h : ZeroOn mem addr n) :
    scannedScalar mem addr typeKind = some typeKind.zero :=
  scannedScalar_of_decodeScalar (decodeScalar_of_zeroOn hn h)

mutual

/-- Zero bytes hold a value of every supported type. -/
theorem decode_of_zeroOn : ∀ (dt : DataType) {addr : ℕ}, Supported dt = true →
    ZeroOn mem addr dt.memSize → ∃ v, decode mem addr dt = some v
  | .mk typeName typeKind memSize members, addr, hs, hz => by
      by_cases hk : typeKind = .struct
      · subst hk
        simp only [Supported, if_true, Bool.and_eq_true, decide_eq_true_eq] at hs
        obtain ⟨vs, hvs⟩ := decodeFields_of_zeroOn members hs.1
          (hz.mono le_rfl (Nat.add_le_add_left hs.2 addr))
        exact ⟨.struct vs, by simp [decode, hvs]⟩
      · rw [decode_of_scalar hk]
        exact ⟨_, decodeScalar_of_zeroOn (scalarSize_of_supported hs hk) hz⟩

theorem decodeFields_of_zeroOn : ∀ (members : Members) {addr : ℕ},
    supportedMembers members = true → ZeroOn mem addr (extents members) →
    ∃ vs, decodeFields mem addr members = some vs
  | .nil, addr, _, _ => ⟨[], rfl⟩
  | .cons memberName memberType padding isArray rest, addr, hs, hz => by
      simp only [supportedMembers, Bool.and_eq_true] at hs
      simp only [extents] at hz
      obtain ⟨xs, hxs⟩ := decodeFields_of_zeroOn rest hs.2
        (hz.mono (by omega) (by omega) :
          ZeroOn mem (addr + padding + extent memberType isArray) (extents rest))
      have hstart : ZeroOn mem (addr + padding) (extent memberType isArray) :=
        hz.mono (by omega) (by omega)
      cases isArray with
      | false =>
          obtain ⟨x, hx⟩ := decode_of_zeroOn memberType hs.1 hstart
          exact ⟨(memberName, x) :: xs, by
            rw [decodeFields_cons, hx, Option.bind_some]
            exact congrArg _ hxs⟩
      | true =>
          have hlen := readUnsigned_of_zeroOn
            (hstart.mono le_rfl (by simp [extent]) : ZeroOn mem (addr + padding) 8)
          have hptr := readUnsigned_of_zeroOn
            (hstart.mono (by omega) (by simp [extent]) :
              ZeroOn mem (addr + padding + 8) 8)
          exact ⟨(memberName, .array []) :: xs, by simp [decodeFields, hlen, hptr, hxs]⟩

end

/-! ## Scalars -/

/-- The address of the one byte a misread string points to. -/
def heap : ℕ := 2 ^ 56

/-- The memory is mapped and zero outside a range, as far as it lies above `heap`. -/
def ZeroOutside (mem : Memory) (addr n : ℕ) : Prop :=
  ∀ x, heap < x → x < addr ∨ addr + n ≤ x → mem x = some 0

theorem ZeroOutside.zeroOn {addr n addr' n' : ℕ} (h : ZeroOutside mem addr n)
    (hlo : heap < addr') (hdisj : addr' + n' ≤ addr ∨ addr + n ≤ addr') :
    ZeroOn mem addr' n' := by
  intro x hx hx'
  exact h x (by omega) (by omega)

theorem ZeroOutside.mono {addr n addr' n' : ℕ} (h : ZeroOutside mem addr n)
    (hlo : addr' ≤ addr) (hhi : addr + n ≤ addr' + n') : ZeroOutside mem addr' n' := by
  intro x hx hx'
  exact h x hx (by omega)

/-- A memory with a value of the type, `off` bytes behind the address the parser looks at,
that the parser does not find. -/
def Misread (dt : DataType) (off data : ℕ) : Prop :=
  ∃ mem : Memory, ZeroOutside mem (data + off) dt.memSize ∧
    ∃ v, decode mem (data + off) dt = some v ∧
      ∀ fieldName pv, parseValue mem data dt fieldName = some pv → pv.content ≠ v

/-- One byte is not zero. -/
def spot (x : ℕ) : Memory := fun y => if y = x then some 1 else some 0

theorem zeroOn_spot {x addr n : ℕ} (h : x < addr ∨ addr + n ≤ x) : ZeroOn (spot x) addr n := by
  intro y hy hy'
  have hne : y ≠ x := by omega
  simp [spot, hne]

/-- A scalar with its last byte set is not zero. -/
theorem decodeScalar_last {typeKind : TypeKind} {addr n : ℕ}
    (hn : typeKind.scalarSize = some (n + 1)) (hstr : typeKind ≠ .string)
    (hz : ZeroOn mem addr n) (hlast : mem (addr + n) = some 1) :
    ∃ v, decodeScalar mem addr typeKind = some v ∧ v ≠ typeKind.zero := by
  have hread := readUnsigned_last hz hlast
  cases typeKind <;>
    simp only [TypeKind.scalarSize, Option.some.injEq, reduceCtorEq, Nat.reduceEqDiff] at hn hstr <;>
    subst hn
  case boolean =>
    exact ⟨.bool true, by simp [decodeScalar, readBoolean, show mem addr = some 1 from hlast],
      by simp [TypeKind.zero]⟩
  case string => exact absurd rfl hstr
  all_goals
    refine ⟨_, by simp only [decodeScalar, readSigned, hread, Option.map_some]; rfl, ?_⟩
    simp [TypeKind.zero, Int.bmod]

/-- Where the parser finds something else than the value, it misreads it. -/
theorem misread_of_scanned {typeName : Option String} {typeKind : TypeKind} {memSize off data : ℕ}
    {members : Members} (hs : Supported (.mk typeName typeKind memSize members) = true)
    (hk : typeKind ≠ .struct) (hdata : data ≠ 0)
    (hout : ZeroOutside mem (data + off) memSize) {v : Value}
    (hv : decodeScalar mem (data + off) typeKind = some v)
    (hscan : scannedScalar mem data typeKind ≠ some v) :
    Misread (.mk typeName typeKind memSize members) off data := by
  refine ⟨mem, hout, v, by rw [decode_of_scalar hk, hv], fun fieldName pv hpv hcontent => ?_⟩
  rw [parseValue_of_scalar hs hk hdata] at hpv
  have hmap : (parseScalar mem data (.mk typeName typeKind memSize members) fieldName).map
      ParsedValue.content = scannedScalar mem data typeKind :=
    map_content_parseScalar (scalarSize_of_supported hs hk) fieldName
  rw [hpv, Option.map_some, hcontent] at hmap
  exact hscan hmap.symm

/-- A string of one byte: the first byte of its length, the last of its pointer and the byte
it points to are not zero. -/
def stringSpots (addr : ℕ) : Memory :=
  fun y => if y = addr ∨ y = addr + 15 ∨ y = heap then some 1 else some 0

theorem zeroOn_stringSpots {addr addr' n : ℕ} (h : addr < addr' ∨ addr' + n ≤ addr)
    (hlast : addr + 15 < addr' ∨ addr' + n ≤ addr + 15) (hheap : heap < addr') :
    ZeroOn (stringSpots addr) addr' n := by
  intro y hy hy'
  have hne : ¬ (y = addr ∨ y = addr + 15 ∨ y = heap) := by omega
  simp [stringSpots, hne]

theorem decodeString_stringSpots {addr : ℕ} (h : heap < addr) :
    decodeString (stringSpots addr) addr = some [1] := by
  have hlen : readUnsigned (stringSpots addr) addr 8 = some 1 := by
    have hz : ZeroOn (stringSpots addr) (addr + 1) 7 :=
      zeroOn_stringSpots (by omega) (by omega) (by omega)
    have hfirst : stringSpots addr addr = some 1 := by simp [stringSpots]
    simpa using readUnsigned_first hfirst hz
  have hptr : readUnsigned (stringSpots addr) (addr + 8) 8 = some heap := by
    have hz : ZeroOn (stringSpots addr) (addr + 8) 7 :=
      zeroOn_stringSpots (by omega) (by omega) (by omega)
    have hlast : stringSpots addr (addr + 8 + 7) = some 1 := by simp [stringSpots]
    simpa [heap] using readUnsigned_last hz hlast
  simp [decodeString, hlen, hptr, heap, readBytes, stringSpots]

/-- Too early by any number of bytes, the parser takes it for empty. -/
theorem readString_stringSpots {off data : ℕ} {s : List UInt8} (hoff : off ≠ 0)
    (hdata : heap < data) (h : readString (stringSpots (data + off)) data = some s) : s = [] := by
  unfold readString at h
  rcases lt_or_ge off 8 with hlt | hge
  · have hptr := readUnsigned_of_zeroOn
      (zeroOn_stringSpots (by omega) (by omega) (by omega) :
        ZeroOn (stringSpots (data + off)) (data + 8) 8)
    cases hlen : readUnsigned (stringSpots (data + off)) data 8 with
    | none => simp [hlen] at h
    | some length => simpa [hlen, hptr, eq_comm] using h
  · have hlen := readUnsigned_of_zeroOn
      (zeroOn_stringSpots (by omega) (by omega) (by omega) :
        ZeroOn (stringSpots (data + off)) data 8)
    cases hptr : readUnsigned (stringSpots (data + off)) (data + 8) 8 with
    | none => simp [hlen, hptr] at h
    | some ptr => simpa [hlen, hptr, eq_comm] using h

/-- **A scalar that the parser looks for too early is misread.** -/
theorem misread_scalar {typeName : Option String} {typeKind : TypeKind} {memSize off data : ℕ}
    {members : Members} (hs : Supported (.mk typeName typeKind memSize members) = true)
    (hk : typeKind ≠ .struct) (hoff : off ≠ 0) (hdata : heap < data) :
    Misread (.mk typeName typeKind memSize members) off data := by
  have hsize := scalarSize_of_supported hs hk
  by_cases hstr : typeKind = .string
  · subst hstr
    obtain rfl : memSize = 16 := by simpa [TypeKind.scalarSize, eq_comm] using hsize
    have hout : ZeroOutside (stringSpots (data + off)) (data + off) 16 := by
      intro x hx hx'
      have hne : ¬ (x = data + off ∨ x = data + off + 15 ∨ x = heap) := by omega
      simp [stringSpots, hne]
    have hv : decodeScalar (stringSpots (data + off)) (data + off) .string =
        some (.string [1]) := by
      simp [decodeScalar, decodeString_stringSpots (show heap < data + off by omega)]
    refine misread_of_scanned hs hk (by omega) hout hv fun hscan => ?_
    obtain ⟨s, hread, heq⟩ := Option.map_eq_some_iff.mp hscan
    rw [readString_stringSpots hoff hdata hread] at heq
    cases heq
  · obtain ⟨n, rfl⟩ : ∃ n, memSize = n + 1 := by
      cases typeKind <;> simp [TypeKind.scalarSize] at hsize <;> exact ⟨_, hsize.symm⟩
    obtain ⟨v, hv, hne⟩ := decodeScalar_last hsize hstr
      (zeroOn_spot (by omega) : ZeroOn (spot (data + off + n)) (data + off) n) (by simp [spot])
    have hout : ZeroOutside (spot (data + off + n)) (data + off) (n + 1) := by
      intro x hx hx'
      have hx : x ≠ data + off + n := by omega
      simp [spot, hx]
    refine misread_of_scanned hs hk (by omega) hout hv ?_
    rw [scannedScalar_of_zeroOn hsize (zeroOn_spot (by omega))]
    intro heq
    exact hne (Option.some.inj heq).symm

/-! ## Structures -/

/-- A member is an array. -/
def hasArray : Members → Bool
  | .nil => false
  | .cons _ _ _ isArray rest => isArray || hasArray rest

def memberCount : Members → ℕ
  | .nil => 0
  | .cons _ _ _ _ rest => memberCount rest + 1

/-- There is a value for every member. -/
theorem length_of_decodeFields : ∀ (members : Members) {addr : ℕ}
    {vs : List (String × Value)}, decodeFields mem addr members = some vs →
    vs.length = memberCount members
  | .nil, addr, vs, h => by
      cases h
      rfl
  | .cons memberName memberType padding isArray rest, addr, vs, h => by
      simp only [decodeFields] at h
      obtain ⟨x, -, hrest⟩ := Option.bind_eq_some_iff.mp h
      obtain ⟨xs, hxs, rfl⟩ := Option.map_eq_some_iff.mp hrest
      simp [memberCount, length_of_decodeFields rest hxs]

theorem length_fieldContents (fs : List ParsedValue) : (fieldContents fs).length = fs.length := by
  induction fs with
  | nil => rfl
  | cons f fs ih => simp [fieldContents, ih]

/-- In a memory of zeros every array is empty, and the parser leaves its field out. -/
theorem length_parseFields_zero : ∀ (members : Members) {base : ℕ} {fs : List ParsedValue},
    parseFields (fun _ => some 0) base members = some fs →
    fs.length ≤ memberCount members ∧
      (hasArray members = true → fs.length < memberCount members)
  | .nil, base, fs, h => by
      cases h
      simp [hasArray, memberCount]
  | .cons memberName memberType padding false rest, base, fs, h => by
      rw [parseFields_cons_eq] at h
      obtain ⟨field, hfield, hrest⟩ := Option.bind_eq_some_iff.mp h
      obtain ⟨fs', hfs', rfl⟩ := Option.map_eq_some_iff.mp hrest
      obtain ⟨hle, hlt⟩ := length_parseFields_zero rest hfs'
      have hone : field.length = 1 := by
        split at hfield <;>
          (obtain ⟨f, -, rfl⟩ := Option.map_eq_some_iff.mp hfield
           rfl)
      simp only [List.length_append, hone, memberCount, hasArray, Bool.false_or]
      exact ⟨by omega, fun harr => by have := hlt harr; omega⟩
  | .cons memberName memberType padding true rest, base, fs, h => by
      rw [parseFields] at h
      obtain ⟨field, hfield, hrest⟩ := Option.bind_eq_some_iff.mp h
      obtain ⟨fs', hfs', rfl⟩ := Option.map_eq_some_iff.mp hrest
      obtain ⟨hle, -⟩ := length_parseFields_zero rest hfs'
      have hread : ∀ addr, readUnsigned (fun _ => some 0) addr 8 = some 0 :=
        fun addr => readUnsigned_of_zeroOn fun _ _ _ => rfl
      have hnil : field = [] := by simpa [analyzeMember, hread, eq_comm] using hfield
      simp only [hnil, List.nil_append, memberCount]
      exact ⟨by omega, fun _ => by omega⟩

/-- A structure is misread where its members are. -/
theorem misread_structure {typeName : Option String} {memSize off data : ℕ} {members : Members}
    (hdata : heap < data) (hout : ZeroOutside mem (data + off) memSize)
    {vs : List (String × Value)} (hvs : decodeFields mem (data + off) members = some vs)
    (hne : ∀ fs, parseFields mem data members = some fs → fieldContents fs ≠ vs) :
    Misread (.mk typeName .struct memSize members) off data := by
  refine ⟨mem, hout, .struct vs, by simp [decode, hvs], fun fieldName pv hpv hcontent => ?_⟩
  rw [parseValue_of_structure (by omega)] at hpv
  obtain ⟨fs, hfs, rfl⟩ := Option.map_eq_some_iff.mp hpv
  have heq : Value.struct (fieldContents fs) = .struct vs := hcontent
  exact hne fs hfs (Value.struct.inj heq)

/-- The fields parsed from a member that is no array and from the members behind it. -/
theorem parsed_cons {memberName : String} {memberType : DataType} {padding base : ℕ}
    {rest : Members} {fs : List ParsedValue} (hs : Supported memberType = true) (hbase : base ≠ 0)
    (h : parseFields mem base (.cons memberName memberType padding false rest) = some fs) :
    ∃ f fs', parseValue mem (base + padding) memberType memberName = some f ∧
      parseFields mem base rest = some fs' ∧
      fieldContents fs = (f.fieldName, f.content) :: fieldContents fs' := by
  rw [parseFields_cons hs hbase] at h
  obtain ⟨f, hf, hrest⟩ := Option.bind_eq_some_iff.mp h
  obtain ⟨fs', hfs', rfl⟩ := Option.map_eq_some_iff.mp hrest
  exact ⟨f, fs', hf, hfs', rfl⟩

mutual

/-- **A supported type that is not aligned is misread.** -/
theorem misread_of_not_aligned : ∀ (dt : DataType) {off data : ℕ}, Supported dt = true →
    Aligned off dt = false → heap < data → Misread dt off data
  | .mk typeName typeKind memSize members, off, data, hs, ha, hdata => by
      by_cases hk : typeKind = .struct
      · subst hk
        simp only [Supported, if_true, Bool.and_eq_true, decide_eq_true_eq] at hs
        simp only [Aligned, if_true] at ha
        cases harr : hasArray members with
        | true =>
            have hzero : ZeroOn (fun _ => some 0) (data + off) (extents members) :=
              fun _ _ _ => rfl
            obtain ⟨vs, hvs⟩ := decodeFields_of_zeroOn members hs.1 hzero
            refine misread_structure hdata (fun _ _ _ => rfl) hvs fun fs hfs heq => ?_
            have hlen := (length_parseFields_zero members hfs).2 harr
            rw [← length_of_decodeFields members hvs, ← heq, length_fieldContents] at hlen
            exact lt_irrefl _ hlen
        | false =>
            obtain ⟨mem, hout, vs, hvs, hne⟩ := misread_members members hs.1 harr ha hdata
            exact misread_structure hdata (hout.mono le_rfl (Nat.add_le_add_left hs.2 _)) hvs hne
      · have hoff : off ≠ 0 := by simpa [Aligned, hk] using ha
        exact misread_scalar hs hk hoff hdata

/-- The members, when none of them is an array. -/
theorem misread_members : ∀ (members : Members) {off base : ℕ},
    supportedMembers members = true → hasArray members = false →
    alignedMembers off members = false → heap < base →
    ∃ mem : Memory, ZeroOutside mem (base + off) (extents members) ∧
      ∃ vs, decodeFields mem (base + off) members = some vs ∧
        ∀ fs, parseFields mem base members = some fs → fieldContents fs ≠ vs
  | .nil, off, base, _, _, ha, _ => by cases ha
  | .cons memberName memberType padding true rest, off, base, _, harr, _, _ => by
      simp [hasArray] at harr
  | .cons memberName memberType padding false rest, off, base, hs, harr, ha, hbase => by
      simp only [supportedMembers, Bool.and_eq_true] at hs
      simp only [hasArray, Bool.false_or] at harr
      simp only [alignedMembers, Bool.not_false, Bool.true_and, extent, Bool.false_eq_true,
        if_false] at ha
      have hext : extents (.cons memberName memberType padding false rest) =
          padding + memberType.memSize + extents rest := by simp [extents, extent]
      cases hfirst : Aligned off memberType with
      | false =>
          obtain ⟨mem, hout, v, hv, hne⟩ := misread_of_not_aligned memberType hs.1 hfirst
            (by omega : heap < base + padding)
          obtain ⟨vs, hvs⟩ := decodeFields_of_zeroOn rest hs.2 (hout.zeroOn (by omega) (by omega) :
            ZeroOn mem (base + off + padding + memberType.memSize) (extents rest))
          refine ⟨mem, hout.mono (by omega) (by omega), (memberName, v) :: vs, ?_, ?_⟩
          · rw [decodeFields_cons, Nat.add_right_comm base off padding, hv, Option.bind_some,
              ← Nat.add_right_comm base off padding, hvs, Option.map_some]
          · intro fs hfs heq
            obtain ⟨f, fs', hf, -, hcontents⟩ := parsed_cons hs.1 (by omega) hfs
            rw [hcontents, List.cons.injEq, Prod.mk.injEq] at heq
            exact hne memberName f hf heq.1.2
      | true =>
          rw [hfirst, Bool.true_and] at ha
          obtain ⟨mem, hout, vs, hvs, hne⟩ := misread_members rest hs.2 harr ha hbase
          obtain ⟨v, hv⟩ := decode_of_zeroOn memberType hs.1 (hout.zeroOn (by omega) (by omega) :
            ZeroOn mem (base + off + padding) memberType.memSize)
          refine ⟨mem, hout.mono (by omega) (by omega), (memberName, v) :: vs, ?_, ?_⟩
          · have hvs' : decodeFields mem (base + off + padding + memberType.memSize) rest =
                some vs := by
              rw [← hvs]
              congr 1
              omega
            rw [decodeFields_cons, hv, Option.bind_some, hvs', Option.map_some]
          · intro fs hfs heq
            obtain ⟨f, fs', -, hfs', hcontents⟩ := parsed_cons hs.1 (by omega) hfs
            rw [hcontents, List.cons.injEq] at heq
            exact hne fs' hfs' heq.2

end

/-! ## The main result -/

/-- The parser finds every value of the type in every memory that holds it. -/
def Parses (dt : DataType) : Prop :=
  ∀ (mem : Memory) (data : ℕ) (fieldName : String) (v : Value), data ≠ 0 →
    decode mem data dt = some v →
    ∃ pv, parseValue mem data dt fieldName = some pv ∧ pv.content = v

/-- **Which structures are parsed correctly**: exactly those without an array at any depth
in which every scalar is the first thing in its structure, and that structure in its own. -/
theorem parses_iff_aligned (dt : DataType) (hs : Supported dt = true) :
    Parses dt ↔ Aligned 0 dt = true := by
  constructor
  · intro h
    by_contra hnot
    obtain ⟨mem, -, v, hv, hne⟩ := misread_of_not_aligned dt hs (by simpa using hnot)
      (Nat.lt_succ_self heap)
    obtain ⟨pv, hpv, hcontent⟩ := h mem (heap + 1) "" v (by omega) hv
    exact hne "" pv hpv hcontent
  · intro ha mem data fieldName v hdata hv
    exact parseValue_of_aligned dt hs ha hdata hv fieldName

/-- A structure around a structure with one integer, behind some padding. -/
theorem parses_nested :
    Parses (.mk (some "Outer") .struct 8
      (.cons "inner" (.mk (some "Inner") .struct 4
        (.cons "x" (.mk (some "Int32") .int32 4 .nil) 0 false .nil)) 4 false .nil)) :=
  (parses_iff_aligned _ (by decide)).mpr (by decide)

/-- A structure of two integers. -/
def pair : DataType :=
  .mk (some "Pair") .struct 8 (.cons "a" (.mk (some "Int32") .int32 4 .nil) 0 false
    (.cons "b" (.mk (some "Int32") .int32 4 .nil) 0 false .nil))

/-- The pair of one and two at address `16`. -/
def pairMemory : Memory :=
  fun x => if x = 16 then some 1 else if x = 20 then some 2 else some 0

/-- The second integer of the pair is read as one. -/
theorem not_parses_pair : Supported pair = true ∧ ¬ Parses pair := by
  refine ⟨by decide, fun h => ?_⟩
  have hone : readSigned pairMemory 16 4 = some 1 := by decide
  have htwo : readSigned pairMemory 20 4 = some 2 := by decide
  have hdecode : decode pairMemory 16 pair = some (.struct [("a", .int 1), ("b", .int 2)]) := by
    simp [pair, decode, decodeFields, decodeScalar, extent, DataType.memSize, hone, htwo]
  have hparse : parseValue pairMemory 16 pair "" = some
      { ft := .struct, structFields := [{ fieldName := "a", ft := .i32, num := .ofI64 1 },
        { fieldName := "b", ft := .i32, num := .ofI64 1 }] } := by
    have hnil : parseFields pairMemory 16 .nil = some [] := rfl
    simp [pair, parseValue_of_structure, parseFields_cons_eq, hnil, parseScalar,
      typeKindToFieldType, DataType.typeKind, hone]
  obtain ⟨pv, hpv, hcontent⟩ := h pairMemory 16 "" _ (by decide) hdecode
  rw [hparse] at hpv
  cases hpv
  simp only [ParsedValue.content, fieldContents, Bool.false_eq_true, if_false] at hcontent
  have hone_eq_two : (Num.ofI64 1).i64 = 1 ∧ (Num.ofI64 1).i64 = 2 := by simpa using hcontent
  exact absurd hone_eq_two.2 (by decide)

end Opencode.Opcua
