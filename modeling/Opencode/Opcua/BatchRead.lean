import Opencode.Lib.Traverse
import Opencode.Opcua.PlcClient

/-!
# Batch reads against single reads

`batchRead` asks for all nodes in one request, `readNode` for one in each.  Against a server
that answers per node the two have to give the same values.  They take a missing connection
and a failing service each in their own way: a single read gives a value in both cases, with
the status of the service in the second, while the batch gives no values without a
connection and does not look at the status of the service.

## Main definitions

* `ReadServer` — a service result and an answer for every node.
* `CachedValue.content` — what of a value is compared.
* `PlcClient.Agrees` — the batch gives what the single reads give.
* `PlcClient.agrees_iff` — when it does.
-/

namespace Opencode.Opcua

open Opencode.Lib

/-- The server of a read: the result of the service and the answer for each node.  A failing
response may have the answers too. -/
structure ReadServer where
  serviceResult : UInt32
  answersOnFailure : Bool
  answer : UANodeId → UADataValue
  mem : Memory

/-- The response to a request for some nodes. -/
def ReadServer.serve (s : ReadServer) (ids : List UANodeId) : UAReadResponse where
  serviceResult := s.serviceResult
  results := if s.serviceResult = 0 ∨ s.answersOnFailure = true then ids.map s.answer else []
  mem := s.mem

/-! ## Values without their names -/

/-- The value without the name it was given. -/
def ParsedValue.unnamed (pv : ParsedValue) : ParsedValue := { pv with fieldName := "" }

@[simp] theorem ParsedValue.unnamed_mk (pv : ParsedValue) (name : String) :
    ({ pv with fieldName := name } : ParsedValue).unnamed = pv.unnamed := rfl

/-- Status, time stamps and parsed value, the name aside. -/
def CachedValue.content (cv : CachedValue ParsedValue) :
    UInt32 × UInt64 × UInt64 × ParsedValue :=
  (cv.statusCode, cv.serverTs, cv.sourceTs, cv.parsed.unnamed)

theorem parseScalar_unnamed (mem : Memory) (data : ℕ) (dt : DataType) (name name' : String) :
    (parseScalar mem data dt name).map ParsedValue.unnamed =
      (parseScalar mem data dt name').map ParsedValue.unnamed := by
  unfold parseScalar
  cases dt.typeKind <;> simp only [Option.map_map, Option.map_some] <;> rfl

/-- The name is only put into the field for it. -/
theorem parseValue_unnamed (mem : Memory) (data : ℕ) (dt : DataType) (name name' : String) :
    (parseValue mem data dt name).map ParsedValue.unnamed =
      (parseValue mem data dt name').map ParsedValue.unnamed := by
  by_cases hdata : data = 0
  · rw [hdata, parseValue_null, parseValue_null]
    rfl
  · by_cases hs : dt.typeKind = .struct
    · simp only [parseValue_struct hdata hs, Option.map_map]
      rfl
    · by_cases he : dt.typeKind = .enum
      · simp only [parseValue_enum hdata he, Option.map_map]
        rfl
      · rw [parseValue_scalar hdata hs he, parseValue_scalar hdata hs he]
        exact parseScalar_unnamed mem data dt name name'

/-- Blank are the values at the null address and those of the types the parser does not
have. -/
theorem parseValue_blank_iff {mem : Memory} {data : ℕ} {dt : DataType} :
    (parseValue mem data dt "").map ParsedValue.unnamed = some ({} : ParsedValue) ↔
      data = 0 ∨ typeKindToFieldType dt.typeKind = .unknown := by
  constructor
  · intro h
    obtain ⟨pv, hpv, hblank⟩ := Option.map_eq_some_iff.mp h
    refine or_iff_not_imp_left.mpr fun hdata => ?_
    rw [← ft_of_parseValue hdata hpv]
    exact congrArg ParsedValue.ft hblank
  · rintro (rfl | h)
    · rw [parseValue_null]
      rfl
    · rw [parseValue_of_unknown h]
      rfl

/-- What a result parses to, the name aside. -/
def UADataValue.parsed (mem : Memory) (dv : UADataValue) : Option ParsedValue :=
  match dv.type with
  | none => some ({} : ParsedValue)
  | some dt => (parseValue mem dv.data dt "").map ParsedValue.unnamed

/-- What a result makes of a value with nothing parsed depends on the result alone. -/
theorem CachedValue.fill_content {cv : CachedValue ParsedValue} {mem : Memory}
    {dv : UADataValue} {name : String} (h : cv.parsed.unnamed = {}) :
    (cv.fill mem dv name).map content =
      (dv.parsed mem).map fun pv =>
        (dv.status, dv.serverTimestamp.toUInt64, dv.sourceTimestamp.toUInt64, pv) := by
  unfold fill UADataValue.parsed
  cases dv.type with
  | none => simp [content, h]
  | some dt =>
      dsimp only
      rw [parseValue_unnamed mem dv.data dt "" name]
      by_cases hdata : dv.data = 0
      · simp [hdata, content, h]
        rfl
      · simp only [hdata, if_false, Option.map_map]
        rfl

/-- The answer looks like a single read that failed: it has the status of the service, no
time stamps, and no value or one the parser has no type for. -/
def ReadServer.Blank (s : ReadServer) (dv : UADataValue) : Prop :=
  dv.status = s.serviceResult ∧ dv.serverTimestamp = 0 ∧ dv.sourceTimestamp = 0 ∧
    ∀ dt, dv.type = some dt → dv.data = 0 ∨ typeKindToFieldType dt.typeKind = .unknown

namespace PlcClient

variable (c : PlcClient) (s : ReadServer) (name : UInt32 × UInt32 → String)
  (nodes : List (UInt32 × UInt32))

/-- The node a read asks for. -/
def nodeId (x : UInt32 × UInt32) : UANodeId := .numeric x.1.toUInt16 x.2

/-- The single reads of the nodes, under any names. -/
def readNodes : Option (List (CachedValue ParsedValue)) :=
  nodes.mapM fun x => c.readNode (fun id => s.serve [id]) x.1 x.2 (name x)

/-- As many values, and value by value the same content. -/
def Agrees : Prop :=
  (c.batchRead s.serve nodes).map (List.map CachedValue.content) =
    (c.readNodes s name nodes).map (List.map CachedValue.content)

variable {c s name nodes}

theorem content_begun (text : String) : (begun text).content = (0, 0, 0, {}) := rfl

/-! ## The single reads -/

theorem readNode_of_disconnected (h : c.connected = false) (x : UInt32 × UInt32) (text : String) :
    (c.readNode (fun id => s.serve [id]) x.1 x.2 text).map CachedValue.content =
      some (0, 0, 0, {}) := by
  simp [readNode, read, h, content_begun]

theorem readNode_of_failed (hc : c.connected = true) (h : s.serviceResult ≠ 0)
    (x : UInt32 × UInt32) (text : String) :
    (c.readNode (fun id => s.serve [id]) x.1 x.2 text).map CachedValue.content =
      some (s.serviceResult, 0, 0, {}) := by
  simp [readNode, read, hc, h, ReadServer.serve]
  rfl

theorem readNode_of_good (hc : c.connected = true) (h : s.serviceResult = 0)
    (x : UInt32 × UInt32) (text : String) :
    c.readNode (fun id => s.serve [id]) x.1 x.2 text =
      (begun text).fill s.mem (s.answer (nodeId x)) text := by
  simp [readNode, read, hc, h, ReadServer.serve, nodeId]

/-! ## The batch -/

theorem batchValues_map {α : Type*} (mem : Memory) (answer : α → UADataValue) (xs : List α) :
    batchValues mem xs.length (xs.map answer) =
      xs.mapM fun x => pending.fill mem (answer x) "" := by
  induction xs with
  | nil => rfl
  | cons x xs ih =>
      rw [List.mapM_cons, ← ih]
      rfl

theorem batchValues_nil (mem : Memory) (n : ℕ) :
    batchValues mem n [] = some (List.replicate n pending) := by
  induction n with
  | zero => rfl
  | succ n ih =>
      rw [batchValues, ih]
      rfl

/-- The batch with an answer for every node. -/
theorem batchRead_of_answers (hc : c.connected = true)
    (h : s.serviceResult = 0 ∨ s.answersOnFailure = true) (hne : nodes ≠ []) :
    (c.batchRead s.serve nodes).map (List.map CachedValue.content) =
      nodes.mapM fun x =>
        (pending.fill s.mem (s.answer (nodeId x)) "").map CachedValue.content := by
  rw [← map_mapM, ← batchValues_map]
  simp [batchRead, hc, hne, ReadServer.serve, h, nodeId, Function.comp_def]

/-- The batch without answers. -/
theorem batchRead_of_no_answers (hc : c.connected = true) (h : s.serviceResult ≠ 0)
    (hno : s.answersOnFailure = false) (hne : nodes ≠ []) :
    (c.batchRead s.serve nodes).map (List.map CachedValue.content) =
      some (nodes.map fun _ => (0x80000000, 0, 0, {})) := by
  simp only [batchRead, hc, hne, ReadServer.serve, h, hno, batchValues_nil, List.isEmpty_iff,
    Bool.not_true, Bool.false_or, Bool.false_eq_true, or_self, if_false, Option.map_some,
    List.map_replicate, List.map_const']
  rfl

/-- A result gives the content of a failed single read exactly if it is blank. -/
theorem fill_content_iff_blank (dv : UADataValue) :
    (pending.fill s.mem dv "").map CachedValue.content = some (s.serviceResult, 0, 0, {}) ↔
      s.Blank dv := by
  have hts : ∀ x : Int64, x.toUInt64 = 0 ↔ x = 0 :=
    fun x => ⟨congrArg Int64.ofUInt64, congrArg Int64.toUInt64⟩
  have hsplit : ∀ parsed : Option ParsedValue,
      (parsed.map fun pv =>
          (dv.status, dv.serverTimestamp.toUInt64, dv.sourceTimestamp.toUInt64, pv)) =
        some (s.serviceResult, 0, 0, ({} : ParsedValue)) ↔
      dv.status = s.serviceResult ∧ dv.serverTimestamp = 0 ∧ dv.sourceTimestamp = 0 ∧
        parsed = some ({} : ParsedValue) := by
    intro parsed
    cases parsed <;> simp [hts]
  rw [CachedValue.fill_content rfl, hsplit, ReadServer.Blank, UADataValue.parsed]
  cases dv.type with
  | none => simp
  | some dt =>
      dsimp only
      rw [parseValue_blank_iff]
      simp

/-- **When batch reads agree with single reads**: with no nodes; or with a connection, if the
service is good, or if what the batch makes of its failing response is what a single read
does. -/
theorem agrees_iff (c : PlcClient) (s : ReadServer) (name : UInt32 × UInt32 → String)
    (nodes : List (UInt32 × UInt32)) :
    c.Agrees s name nodes ↔
      nodes = [] ∨ c.connected = true ∧
        (s.serviceResult = 0 ∨
          if s.answersOnFailure then ∀ x ∈ nodes, s.Blank (s.answer (nodeId x))
          else s.serviceResult = 0x80000000) := by
  rcases eq_or_ne nodes [] with rfl | hne
  · exact iff_of_true (by simp [Agrees, batchRead, readNodes]) (.inl rfl)
  rw [or_iff_right hne, Agrees, readNodes, map_mapM]
  cases hc : c.connected with
  | false =>
      rw [mapM_eq_some_map_iff.mpr fun x _ => readNode_of_disconnected hc x (name x)]
      have hbatch : c.batchRead s.serve nodes = some [] := by simp [batchRead, hc]
      rw [hbatch]
      exact iff_of_false (fun h => hne (List.map_eq_nil_iff.mp (Option.some.inj h).symm)) (by simp)
  | true =>
      by_cases hgood : s.serviceResult = 0
      · rw [batchRead_of_answers hc (.inl hgood) hne]
        refine iff_of_true (mapM_congr_left fun x _ => ?_) ⟨rfl, .inl hgood⟩
        rw [readNode_of_good hc hgood, CachedValue.fill_content rfl, CachedValue.fill_content rfl]
      · rw [mapM_eq_some_map_iff.mpr fun x _ => readNode_of_failed hc hgood x (name x)]
        cases hans : s.answersOnFailure with
        | true =>
            rw [batchRead_of_answers hc (.inr hans) hne, mapM_eq_some_map_iff]
            simp only [fill_content_iff_blank, hgood, false_or, true_and, if_true]
        | false =>
            rw [batchRead_of_no_answers hc hgood hans hne]
            simp [hgood, hne, eq_comm]

/-- A server that refuses a request as a whole. -/
private def refusing (serviceResult : UInt32) : ReadServer where
  serviceResult := serviceResult
  answersOnFailure := false
  answer := fun _ => ⟨0, 0, 0, none, 0⟩
  mem := fun _ => none

/-- Without a connection the single read of one node gives a value and the batch none. -/
theorem not_agrees_disconnected :
    ¬ ∀ (c : PlcClient) (s : ReadServer) (name : UInt32 × UInt32 → String)
      (nodes : List (UInt32 × UInt32)), c.Agrees s name nodes := by
  intro h
  have hlen := congrArg (Option.map List.length)
    (h ⟨false⟩ (refusing 0) (fun _ => "") [(0, 1005)])
  exact absurd hlen (by decide)

end PlcClient
end Opencode.Opcua
