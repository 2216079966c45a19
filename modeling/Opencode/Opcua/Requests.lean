import Opencode.Opcua.PlcClient
import Opencode.Opcua.Subscription
import Opencode.Opcua.Variant

/-!
# The requests of the OPC UA client

Every operation of `OPCUAClient` takes a message, builds a native request from it and hands
that to a service.  The node id of the message is converted in each operation for itself:
as a numeric one everywhere, and once more as a string in three of them.  The service is a
function from the native request to an arbitrary answer; the client is a connected one.

The requests of all operations are here, with `read` and `callMethod`; the other operations
have modules of their own.

## Main definitions

* `ReadRequest`, `WriteRequest`, … — the messages.
* `UAReadValueId`, `UAWriteValue`, … — the native requests made from them.
* `OPCUAClient.read`, `OPCUAClient.callMethod` — the operations.
* `NodeRequest.targets` — the node ids of a request, each with the native one.
* `NodeRequest.targets_iff` — which requests reach the node they name.
-/

namespace Opencode.Opcua

/-! ## Node ids -/

namespace NodeId

/-- `UA_NODEID_NUMERIC(namespace_index, numeric_id)`. -/
def numeric (n : NodeId) : UANodeId := .numeric n.namespaceIndex.toUInt16 n.numericId

/-- The numeric node id, replaced by `UA_NODEID_STRING_ALLOC` when the message has a
string. -/
def numericOrString (n : NodeId) : UANodeId :=
  match n.id with
  | .string id => PlcClient.stringId n.namespaceIndex id
  | _ => n.numeric

end NodeId

/-! ## Messages -/

structure ReadRequest where
  nodeId : NodeId
  attributeId : UInt32 := 0
  includeTimestamp : Bool := false

structure WriteRequest (F D : Type) where
  nodeId : NodeId
  value : VariantValue F D
  attributeId : UInt32 := 0

structure BrowseRequest where
  nodeId : NodeId
  maxReferences : UInt32 := 0
  nodeClassMask : UInt32 := 0

structure CallMethodRequest (F D : Type) where
  objectId : NodeId
  methodId : NodeId
  inputArgs : List (VariantValue F D)

structure HistoryReadRequest where
  nodeId : NodeId
  startTime : UInt64
  endTime : UInt64
  maxValues : UInt32

structure ReadResponse (F D : Type) where
  status : UInt32
  value : Option (VariantValue F D) := none
  serverTimestamp : UInt64 := 0
  sourceTimestamp : UInt64 := 0

structure CallMethodResponse (F D : Type) where
  status : UInt32
  outputArgs : List (VariantValue F D) := []

/-! ## Native requests -/

/-- `UA_ATTRIBUTEID_VALUE`. -/
def attributeValue : UInt32 := 13

structure UAReadValueId where
  nodeId : UANodeId
  attributeId : UInt32

/-- `UA_WriteValue`: of its data value, the variant and the flag that there is one. -/
structure UAWriteValue (F D O : Type) where
  nodeId : UANodeId
  attributeId : UInt32
  hasValue : Bool
  value : UAVariant F D O

structure UABrowseDescription where
  nodeId : UANodeId
  nodeClassMask : UInt32
  resultMask : UInt32
  requestedMaxReferencesPerNode : UInt32

structure UACallMethodRequest (F D O : Type) where
  objectId : UANodeId
  methodId : UANodeId
  inputArguments : List (UAVariant F D O)

/-- `UA_HistoryReadValueId` with `UA_ReadRawModifiedDetails`. -/
structure UAHistoryRead where
  nodeId : UANodeId
  startTime : Int64
  endTime : Int64
  numValuesPerNode : UInt32
  isReadModified : Bool

section

variable {F D O : Type} [Zero F] [Zero D]

def ReadRequest.native (req : ReadRequest) : UAReadValueId where
  nodeId := req.nodeId.numericOrString
  attributeId := if req.attributeId ≠ 0 then req.attributeId else attributeValue

/-- The request of `writeAttribute`.  `UA_WriteValue_new` leaves the flag off; a value that
has no conversion leaves the variant empty. -/
def writeValue (node : NodeId) (val : VariantValue F D) (attrId : UInt32) :
    UAWriteValue F D O where
  nodeId := node.numericOrString
  attributeId := attrId
  hasValue := false
  value := (protoToVariant val).getD .empty

def WriteRequest.native (req : WriteRequest F D) : UAWriteValue F D O :=
  writeValue req.nodeId req.value
    (if req.attributeId ≠ 0 then req.attributeId else attributeValue)

/-- `UA_BROWSERESULTMASK_ALL` is 63. -/
def BrowseRequest.native (req : BrowseRequest) : UABrowseDescription where
  nodeId := req.nodeId.numericOrString
  nodeClassMask := if 0 < req.nodeClassMask then req.nodeClassMask else 0
  resultMask := 63
  requestedMaxReferencesPerNode := if 0 < req.maxReferences then req.maxReferences else 0

/-- An argument that has no conversion is left empty. -/
def CallMethodRequest.native (req : CallMethodRequest F D) : UACallMethodRequest F D O where
  objectId := req.objectId.numeric
  methodId := req.methodId.numeric
  inputArguments := req.inputArgs.map fun arg => (protoToVariant arg).getD .empty

def HistoryReadRequest.native (req : HistoryReadRequest) : UAHistoryRead where
  nodeId := req.nodeId.numeric
  startTime := req.startTime.toInt64
  endTime := req.endTime.toInt64
  numValuesPerNode := if 0 < req.maxValues then req.maxValues else 100
  isReadModified := false

end

/-! ## Answers -/

/-- A variant of an answer: one of `UAVariant`, an empty one without a type, or an array of
undefined length, which has a type and no data. -/
inductive AnswerVariant (F D O : Type)
  | plain (v : UAVariant F D O)
  | undefinedArray (type : UAType)

/-- `UA_DataValue` of an answer. -/
structure AnswerValue (F D O : Type) where
  hasValue : Bool
  value : AnswerVariant F D O
  status : UInt32
  serverTimestamp : Int64
  sourceTimestamp : Int64

namespace AnswerVariant

variable {F D O : Type}

/-- Whether the type pointer is set. -/
def hasType : AnswerVariant F D O → Bool
  | .plain .empty | .plain .untyped => false
  | _ => true

/-- `variantToProto`; it asks for the data before the type. -/
def toProto : AnswerVariant F D O → Option (VariantValue F D)
  | .plain v => variantToProto v
  | .undefinedArray _ => some { type := .int32 }

end AnswerVariant

namespace OPCUAClient

variable {F D O : Type} [Zero F] [Zero D]

def read (service : UAReadValueId → UInt32 × List (AnswerValue F D O)) (req : ReadRequest) :
    Option (ReadResponse F D) :=
  match service req.native with
  | (status, []) => some { status }
  | (status, result :: _) =>
      if status ≠ good then some { status }
      else do
        let value ← if result.value.hasType then result.value.toProto.map some else some none
        some {
          status := result.status
          value
          serverTimestamp := if req.includeTimestamp then result.serverTimestamp.toUInt64 else 0
          sourceTimestamp := if req.includeTimestamp then result.sourceTimestamp.toUInt64 else 0 }

/-- A result of the call service is a status and the output arguments. -/
def callMethod
    (service : UACallMethodRequest F D O → UInt32 × List (UInt32 × List (AnswerVariant F D O)))
    (req : CallMethodRequest F D) : Option (CallMethodResponse F D) :=
  match service req.native with
  | (status, []) => some { status }
  | (status, result :: _) =>
      if status ≠ good then some { status }
      else (result.2.mapM AnswerVariant.toProto).map fun outputArgs =>
        { status := result.1, outputArgs }

end OPCUAClient

/-! ## The node a request is sent to -/

/-- The requests that carry node ids. -/
inductive NodeRequest (F D : Type)
  | read (req : ReadRequest)
  | write (req : WriteRequest F D)
  | browse (req : BrowseRequest)
  | subscribe (req : SubscribeRequest)
  | callMethod (req : CallMethodRequest F D)
  | historyRead (req : HistoryReadRequest)

namespace NodeRequest

variable {F D : Type}

/-- The node ids of a request, each with the one the native request has in its place. -/
def targets (O : Type) [Zero F] [Zero D] : NodeRequest F D → List (NodeId × UANodeId)
  | .read req => [(req.nodeId, req.native.nodeId)]
  | .write req => [(req.nodeId, (req.native : UAWriteValue F D O).nodeId)]
  | .browse req => [(req.nodeId, req.native.nodeId)]
  | .subscribe req => [(req.nodeId, .numeric req.itemToMonitor.1 req.itemToMonitor.2)]
  | .callMethod req =>
      [(req.objectId, (req.native : UACallMethodRequest F D O).objectId),
        (req.methodId, (req.native : UACallMethodRequest F D O).methodId)]
  | .historyRead req => [(req.nodeId, req.native.nodeId)]

/-- The operations that convert a string id. -/
def TakesStrings : NodeRequest F D → Prop
  | .read _ | .write _ | .browse _ => True
  | _ => False

instance : DecidablePred (TakesStrings : NodeRequest F D → Prop)
  | .read _ | .write _ | .browse _ => .isTrue trivial
  | .subscribe _ | .callMethod _ | .historyRead _ => .isFalse id

end NodeRequest

namespace NodeId

/-- The native node id has the namespace and the identifier of the message, in the same
kind. -/
def Addresses (n : NodeId) : UANodeId → Prop
  | .numeric ns id => ns.toNat = n.namespaceIndex.toNat ∧ n.id = .numeric id
  | .string ns id => ns.toNat = n.namespaceIndex.toNat ∧ n.id = .string id

/-- The id is a number or a string. -/
def Identified (n : NodeId) : Prop := (∃ id, n.id = .numeric id) ∨ ∃ id, n.id = .string id

/-- The namespace is a native one. -/
def FitsNamespace (n : NodeId) : Prop := n.namespaceIndex.toNat < 65536

instance (n : NodeId) : Decidable n.FitsNamespace :=
  inferInstanceAs (Decidable (n.namespaceIndex.toNat < 65536))

theorem toUInt16_eq_iff {n : NodeId} :
    n.namespaceIndex.toUInt16.toNat = n.namespaceIndex.toNat ↔ n.FitsNamespace :=
  PlcClient.toNat_toUInt16_eq_iff

variable {n : NodeId}

theorem numericOrString_of_numeric {id : UInt32} (h : n.id = .numeric id) :
    n.numericOrString = n.numeric := by
  simp [numericOrString, h]

theorem numericOrString_of_string {id : String} (h : n.id = .string id) :
    n.numericOrString = PlcClient.stringId n.namespaceIndex id := by
  simp [numericOrString, h]

/-- The numeric node id is the right one for a number in a native namespace. -/
theorem addresses_numeric_iff :
    n.Addresses n.numeric ↔ n.FitsNamespace ∧ ∃ id, n.id = .numeric id := by
  rw [numeric, Addresses, toUInt16_eq_iff]
  refine and_congr_right fun _ => ⟨fun h => ⟨_, h⟩, ?_⟩
  rintro ⟨id, h⟩
  rw [numericId, h]

/-- The string node id is the right one for a string without a null. -/
theorem addresses_stringId_iff {id : String} (h : n.id = .string id) :
    n.Addresses (PlcClient.stringId n.namespaceIndex id) ↔
      n.FitsNamespace ∧ '\x00' ∉ id.toList := by
  rw [PlcClient.stringId, Addresses, toUInt16_eq_iff, h, NodeIdent.string.injEq, eq_comm (a := id),
    PlcClient.ofList_takeWhile_eq_iff]

end NodeId

namespace NodeRequest

variable {F D O : Type} [Zero F] [Zero D] {r r' : NodeRequest F D} {n : NodeId} {t t' : UANodeId}

/-- Each operation converts its node ids in one of two ways. -/
theorem eq_of_mem_targets (h : (n, t) ∈ r.targets O) :
    t = if r.TakesStrings then n.numericOrString else n.numeric := by
  cases r with
  | callMethod req =>
      rcases List.mem_pair.mp h with h | h
      · obtain ⟨rfl, rfl⟩ := Prod.mk.inj h
        rfl
      · obtain ⟨rfl, rfl⟩ := Prod.mk.inj h
        rfl
  | _ req =>
      obtain ⟨rfl, rfl⟩ := Prod.mk.inj (List.mem_singleton.mp h)
      rfl

/-- **Which requests reach the node they name.**  A number reaches it from every operation
and a string from those that take strings, in a native namespace and without a null; and
two operations given one node id send it to one node unless it is a string and only one of
them takes strings. -/
theorem targets_iff (h : (n, t) ∈ r.targets O) (h' : (n, t') ∈ r'.targets O)
    (hid : n.Identified) :
    (n.Addresses t ↔
      n.FitsNamespace ∧
        ((∃ id, n.id = .numeric id) ∨
          r.TakesStrings ∧ ∃ id, n.id = .string id ∧ '\x00' ∉ id.toList)) ∧
    (t = t' ↔ (∃ id, n.id = .numeric id) ∨ (r.TakesStrings ↔ r'.TakesStrings)) := by
  rw [eq_of_mem_targets h, eq_of_mem_targets h']
  rcases hid with ⟨id, hn⟩ | ⟨id, hs⟩
  · simp [NodeId.numericOrString_of_numeric hn, NodeId.addresses_numeric_iff, hn]
  · have hne : PlcClient.stringId n.namespaceIndex id ≠ n.numeric := by
      simp [PlcClient.stringId, NodeId.numeric]
    rw [NodeId.numericOrString_of_string hs]
    constructor
    · by_cases hr : r.TakesStrings
      · simp [hr, NodeId.addresses_stringId_iff hs, hs]
      · simp [hr, NodeId.addresses_numeric_iff, hs]
    · by_cases hr : r.TakesStrings <;> by_cases hr' : r'.TakesStrings <;>
        simp [hr, hr', hs, hne, hne.symm]

private def temperature : NodeId := ⟨2, .string "Temperature"⟩

/-- A subscription to a string id: the native request is for the node of number 0. -/
theorem not_addresses_subscribe :
    ¬ ∀ (r : NodeRequest ℚ ℚ) (n : NodeId) (t : UANodeId), (n, t) ∈ r.targets Unit →
      n.Identified → n.Addresses t := by
  intro h
  have hsub := h (.subscribe ⟨temperature, 100, 10, true⟩) temperature (.numeric 2 0)
    (List.mem_singleton.mpr rfl) (.inr ⟨_, rfl⟩)
  cases hsub.2

/-- A read of the same node and a subscription to it. -/
theorem targets_temperature :
    temperature.Addresses (.string 2 "Temperature") ∧
      (UANodeId.string 2 "Temperature" ≠ .numeric 2 0) := by
  have hread : (temperature, .string 2 "Temperature") ∈
      (.read ⟨temperature, 0, false⟩ : NodeRequest ℚ ℚ).targets Unit :=
    List.mem_singleton.mpr (by decide)
  have hsub : (temperature, .numeric 2 0) ∈
      (.subscribe ⟨temperature, 100, 10, true⟩ : NodeRequest ℚ ℚ).targets Unit :=
    List.mem_singleton.mpr rfl
  have h := targets_iff hread hsub (.inr ⟨_, rfl⟩)
  refine ⟨h.1.mpr ⟨by decide, .inr ⟨trivial, _, rfl, by decide⟩⟩, fun heq => ?_⟩
  rcases h.2.mp heq with ⟨id, hid⟩ | hiff
  · cases hid
  · exact hiff.mp trivial

end NodeRequest
end Opencode.Opcua
