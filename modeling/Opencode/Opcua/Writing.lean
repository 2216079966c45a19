import Opencode.Opcua.Requests

/-!
# Writing

`write` and the typed helpers put a value into a native request and report the status of the
write service.  What became of the one item is in a status of its own, which they do not
read, and a value without a conversion goes out as an empty variant.  The request's data
value has a flag that says whether there is a variant; nothing sets it.

## Main definitions

* `OPCUAClient.writeAttribute`, `write`, `writeBool`, … — the operations.
* `WriteServer` — the two statuses, and what is stored.
* `VariantValue.denoted` — the variant a message stands for.
* `WriteCall` — a call of one of the operations.
* `WriteCall.carried_of_reported_iff` — when a write reported good has written its value.
-/

namespace Opencode.Opcua

/-- The write service: the status of the call and the status of its item. -/
structure WriteServer (F D O : Type) where
  transport : UAWriteValue F D O → UInt32
  nodeStatus : UAWriteValue F D O → UInt32

/-- The variant that arrives: none without the flag. -/
def UAWriteValue.received {F D O : Type} (req : UAWriteValue F D O) : UAVariant F D O :=
  if req.hasValue then req.value else .empty

/-- What the service stores for a request. -/
def WriteServer.stored {F D O : Type} (server : WriteServer F D O) (req : UAWriteValue F D O) :
    Option (UAVariant F D O) :=
  if server.nodeStatus req = good then some req.received else none

/-- The types `protoToVariant` has a branch for. -/
def DataTypeId.Converted : DataTypeId → Prop
  | .bool | .int32 | .int64 | .uint32 | .uint64 | .float | .double | .string => True
  | .arrayInt32 | .arrayFloat | .arrayDouble | .arrayBool | .arrayString => True
  | _ => False

namespace VariantValue

variable {F D O : Type} [Zero F] [Zero D]

/-- The variant a message stands for: the field its type names, with all bytes of a
string. -/
def denoted (v : VariantValue F D) : Option (UAVariant F D O) :=
  match v.type with
  | .bool => some (.scalar .boolean v.boolVal)
  | .int32 => some (.scalar .int32 v.int32Val)
  | .int64 => some (.scalar .int64 v.int64Val)
  | .uint32 => some (.scalar .uint32 v.uint32Val)
  | .uint64 => some (.scalar .uint64 v.uint64Val)
  | .float => some (.scalar .float v.floatVal)
  | .double => some (.scalar .double v.doubleVal)
  | .string => some (.scalar .string v.stringVal)
  | .arrayInt32 => some (.array .int32 v.int32Array)
  | .arrayFloat => some (.array .float v.floatArray)
  | .arrayDouble => some (.array .double v.doubleArray)
  | .arrayBool => some (.array .boolean v.boolArray)
  | .arrayString => some (.array .string v.stringArray)
  | _ => none

/-- No string of the value has a null. -/
def NulFree (v : VariantValue F D) : Prop :=
  (v.type = .string → 0 ∉ v.stringVal) ∧ (v.type = .arrayString → ∀ s ∈ v.stringArray, 0 ∉ s)

/-- The conversion is the denoted variant for a type with a branch and strings without a
null. -/
theorem denoted_eq_iff {v : VariantValue F D} :
    (∃ x : UAVariant F D O, v.denoted = some x ∧ (protoToVariant v).getD .empty = x) ↔
      v.type.Converted ∧ v.NulFree := by
  cases hT : v.type with
  | string =>
      simp [denoted, protoToVariant, hT, DataTypeId.Converted, NulFree,
        ← fromChars_eq_self_iff, eq_comm]
  | arrayString =>
      simp [denoted, protoToVariant, hT, DataTypeId.Converted, NulFree,
        ← map_fromChars_eq_self_iff, eq_comm]
  | _ => simp [denoted, protoToVariant, hT, DataTypeId.Converted, NulFree]

/-- The empty variant is no value's. -/
theorem denoted_ne_empty (v : VariantValue F D) :
    v.denoted ≠ some (.empty : UAVariant F D O) := by
  cases hT : v.type <;> simp [denoted, hT]

end VariantValue

structure WriteResponse where
  status : UInt32
  deriving DecidableEq

namespace OPCUAClient

variable {F D O : Type} [Zero F] [Zero D] (server : WriteServer F D O) (node : NodeId)

/-- The status of the call.  The response, with the status of the item, is cleared. -/
def writeAttribute (val : VariantValue F D) (attrId : UInt32) : UInt32 :=
  server.transport (writeValue node val attrId)

def write (req : WriteRequest F D) : WriteResponse where
  status := writeAttribute server req.nodeId req.value
    (if req.attributeId ≠ 0 then req.attributeId else attributeValue)

/-! The typed helpers write a value of their type and compare the status. -/

def writeTyped (val : VariantValue F D) : Bool :=
  writeAttribute server node val attributeValue = good

def writeBool (val : Bool) : Bool :=
  writeTyped server node { type := .bool, value := some (.boolVal val) }

def writeInt32 (val : Int32) : Bool :=
  writeTyped server node { type := .int32, value := some (.int32Val val) }

def writeInt64 (val : Int64) : Bool :=
  writeTyped server node { type := .int64, value := some (.int64Val val) }

def writeUInt32 (val : UInt32) : Bool :=
  writeTyped server node { type := .uint32, value := some (.uint32Val val) }

def writeFloat (val : F) : Bool :=
  writeTyped server node { type := .float, value := some (.floatVal val) }

def writeDouble (val : D) : Bool :=
  writeTyped server node { type := .double, value := some (.doubleVal val) }

def writeString (val : List UInt8) : Bool :=
  writeTyped server node { type := .string, value := some (.stringVal val) }

def writeInt32Array (vals : List Int32) : Bool :=
  writeTyped server node { type := .arrayInt32, int32Array := vals }

def writeFloatArray (vals : List F) : Bool :=
  writeTyped server node { type := .arrayFloat, floatArray := vals }

end OPCUAClient

/-! ## Calls -/

/-- A call of one of the operations, with the value the caller gives. -/
inductive WriteCall (F D : Type)
  | write (req : WriteRequest F D)
  | writeBool (node : NodeId) (val : Bool)
  | writeInt32 (node : NodeId) (val : Int32)
  | writeInt64 (node : NodeId) (val : Int64)
  | writeUInt32 (node : NodeId) (val : UInt32)
  | writeFloat (node : NodeId) (val : F)
  | writeDouble (node : NodeId) (val : D)
  | writeString (node : NodeId) (val : List UInt8)
  | writeInt32Array (node : NodeId) (vals : List Int32)
  | writeFloatArray (node : NodeId) (vals : List F)

namespace WriteCall

variable {F D O : Type} [Zero F] [Zero D]

/-- What the caller is told: the status is good, or the helper returns true. -/
def reported (server : WriteServer F D O) : WriteCall F D → Bool
  | .write req => (OPCUAClient.write server req).status = good
  | .writeBool node val => OPCUAClient.writeBool server node val
  | .writeInt32 node val => OPCUAClient.writeInt32 server node val
  | .writeInt64 node val => OPCUAClient.writeInt64 server node val
  | .writeUInt32 node val => OPCUAClient.writeUInt32 server node val
  | .writeFloat node val => OPCUAClient.writeFloat server node val
  | .writeDouble node val => OPCUAClient.writeDouble server node val
  | .writeString node val => OPCUAClient.writeString server node val
  | .writeInt32Array node vals => OPCUAClient.writeInt32Array server node vals
  | .writeFloatArray node vals => OPCUAClient.writeFloatArray server node vals

/-- The request message of a call: the helpers write the value attribute. -/
def message : WriteCall F D → WriteRequest F D
  | .write req => req
  | .writeBool node val => ⟨node, { type := .bool, value := some (.boolVal val) }, 0⟩
  | .writeInt32 node val => ⟨node, { type := .int32, value := some (.int32Val val) }, 0⟩
  | .writeInt64 node val => ⟨node, { type := .int64, value := some (.int64Val val) }, 0⟩
  | .writeUInt32 node val => ⟨node, { type := .uint32, value := some (.uint32Val val) }, 0⟩
  | .writeFloat node val => ⟨node, { type := .float, value := some (.floatVal val) }, 0⟩
  | .writeDouble node val => ⟨node, { type := .double, value := some (.doubleVal val) }, 0⟩
  | .writeString node val => ⟨node, { type := .string, value := some (.stringVal val) }, 0⟩
  | .writeInt32Array node vals => ⟨node, { type := .arrayInt32, int32Array := vals }, 0⟩
  | .writeFloatArray node vals => ⟨node, { type := .arrayFloat, floatArray := vals }, 0⟩

/-- The native request of a call. -/
def native (call : WriteCall F D) : UAWriteValue F D O := call.message.native

/-- Every operation hands its native request to the service and reports the status of the
call. -/
theorem reported_iff {server : WriteServer F D O} {call : WriteCall F D} :
    call.reported server = true ↔ server.transport call.native = good := by
  cases call <;> exact decide_eq_true_iff

/-- The variant of the native request. -/
theorem native_value (call : WriteCall F D) :
    (call.native : UAWriteValue F D O).value = (protoToVariant call.message.value).getD .empty :=
  rfl

/-- Nothing arrives as a value. -/
theorem received_native (call : WriteCall F D) :
    (call.native : UAWriteValue F D O).received = .empty :=
  rfl

/-- The request carries the variant of the value given, the flag aside, and the item is
good. -/
def Carried (server : WriteServer F D O) (call : WriteCall F D) : Prop :=
  (∃ x, call.message.value.denoted = some x ∧ (call.native : UAWriteValue F D O).value = x) ∧
    server.nodeStatus call.native = good

/-- The service stores the variant of the value given. -/
def Stored (server : WriteServer F D O) (call : WriteCall F D) : Prop :=
  ∃ x, call.message.value.denoted = some x ∧ server.stored call.native = some x

theorem not_stored {server : WriteServer F D O} (call : WriteCall F D) : ¬ call.Stored server := by
  rintro ⟨x, hx, hstored⟩
  rw [WriteServer.stored, received_native] at hstored
  split at hstored
  · cases hstored
    exact call.message.value.denoted_ne_empty hx
  · cases hstored

/-- **A write reported good** has carried its value exactly if it was not reported good, or
its type has a conversion, no string has a null and the item is good; and as the flag of the
data value is never set, none has stored its value. -/
theorem carried_of_reported_iff (server : WriteServer F D O) (call : WriteCall F D) :
    ((call.reported server = true → call.Carried server) ↔
      server.transport call.native ≠ good ∨
        call.message.value.type.Converted ∧ call.message.value.NulFree ∧
          server.nodeStatus call.native = good) ∧
    ((call.reported server = true → call.Stored server) ↔
      server.transport call.native ≠ good) := by
  rw [reported_iff, Carried, native_value, VariantValue.denoted_eq_iff, and_assoc,
    imp_iff_not_or]
  exact ⟨Iff.rfl, imp_iff_not call.not_stored⟩

/-- A server that takes every call and refuses every item. -/
private def readOnly : WriteServer ℚ ℚ Unit := ⟨fun _ => good, fun _ => 0x803B0000⟩

/-- A write to a read-only node is reported good. -/
theorem not_carried_readOnly :
    ¬ ∀ (server : WriteServer ℚ ℚ Unit) (call : WriteCall ℚ ℚ),
      call.reported server = true → call.Carried server := by
  intro h
  have hgood := (h readOnly (.writeBool ⟨0, .numeric 1001⟩ false) (by decide)).2
  exact absurd hgood (by decide)

end WriteCall
end Opencode.Opcua
