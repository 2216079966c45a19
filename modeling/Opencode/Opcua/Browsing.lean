import Opencode.Lib.Walks
import Opencode.Opcua.Requests

/-!
# Browsing

`browse` asks the server for the references of a node and makes a description of each.
`browseRecursive` goes on from the node id it finds in a description, so what the
description says of the target decides where the next level starts.

## Main definitions

* `OPCUAClient.browse`, `browseChildren`, `browseRecursive` — the operations.
* `Lists` — a service that answers with the references of the node asked for.
* `UAReference.full` — a description that names the target.
* `browseRecursive_eq_iff` — when the descriptions found are those of all walks.
-/

namespace Opencode.Opcua

open Opencode.Lib

/-- `UA_ReferenceDescription`, as far as the client reads it. -/
structure UAReference where
  nodeId : UANodeId
  browseName : List UInt8
  displayName : List UInt8
  nodeClass : UInt32
  deriving DecidableEq

structure ReferenceDescription where
  nodeId : NodeId := ⟨0, .unset⟩
  browseName : List UInt8
  displayName : List UInt8
  nodeClass : UInt32
  deriving DecidableEq

structure BrowseResponse where
  status : UInt32 := 0
  references : List ReferenceDescription := []
  deriving DecidableEq

namespace UAReference

/-- The description `browse` makes: a node id that is not numeric is left out. -/
def describe (ref : UAReference) : ReferenceDescription where
  nodeId :=
    match ref.nodeId with
    | .numeric ns id => ⟨ns.toUInt32, .numeric id⟩
    | .string _ _ => ⟨0, .unset⟩
  browseName := ref.browseName
  displayName := ref.displayName
  nodeClass := ref.nodeClass

end UAReference

namespace OPCUAClient

def browse (service : UABrowseDescription → UInt32 × List (List UAReference))
    (req : BrowseRequest) : BrowseResponse :=
  match service req.native with
  | (status, results) =>
      if status = good then
        { status := good, references := results.flatMap (·.map UAReference.describe) }
      else { status }

variable (service : UABrowseDescription → UInt32 × List (List UAReference))

def browseChildren (node : NodeId) : List ReferenceDescription :=
  (browse service { nodeId := node }).references

/-- The levels of `browseRecursive`, counted. -/
def browseLevels (node : NodeId) : ℕ → BrowseResponse
  | 0 => {}
  | depth + 1 => {
      status := good
      references := (browseChildren service node).flatMap fun child =>
        child :: (browseLevels child.nodeId depth).references }

/-- A depth below zero is like none. -/
def browseRecursive (node : NodeId) (depth : ℤ) : BrowseResponse :=
  browseLevels service node depth.toNat

end OPCUAClient

/-! ## What is there -/

namespace UANodeId

/-- The node id as a message. -/
def message : UANodeId → NodeId
  | .numeric ns id => ⟨ns.toUInt32, .numeric id⟩
  | .string ns id => ⟨ns.toUInt32, .string id⟩

/-- The node id the native request has for this message. -/
def asked (n : UANodeId) : UANodeId := n.message.numericOrString

def IsNumeric : UANodeId → Prop
  | .numeric _ _ => True
  | .string _ _ => False

variable {n : UANodeId}

theorem asked_of_isNumeric (h : n.IsNumeric) : n.asked = n := by
  cases n with
  | numeric ns id => simp [asked, message, NodeId.numericOrString, NodeId.numeric, NodeId.numericId]
  | string ns id => exact h.elim

theorem message_injective {n' : UANodeId} (h : n.message = n'.message) : n = n' := by
  cases n <;> cases n' <;> simp_all [message, UInt16.toUInt32_inj]

end UANodeId

/-- The service answers a request without a mask and without a limit with the references of
its node, in their order. -/
def Lists (service : UABrowseDescription → UInt32 × List (List UAReference))
    (references : UANodeId → List UAReference) : Prop :=
  ∀ n, service ⟨n, 0, 63, 0⟩ = (good, [references n])

namespace UAReference

/-- The description with the node id of the target. -/
def full (ref : UAReference) : ReferenceDescription :=
  { ref.describe with nodeId := ref.nodeId.message }

variable {ref ref' : UAReference}

theorem describe_of_isNumeric (h : ref.nodeId.IsNumeric) : ref.describe = ref.full := by
  obtain ⟨nodeId, browseName, displayName, nodeClass⟩ := ref
  cases nodeId with
  | numeric ns id => rfl
  | string ns id => exact h.elim

/-- No description has a string, and a full one always has an id. -/
theorem isNumeric_of_describe_eq (h : ref.describe = ref'.full) :
    ref.nodeId.IsNumeric ∧ ref'.nodeId.IsNumeric := by
  have hid := congrArg (fun r => r.nodeId.id) h
  obtain ⟨nodeId, browseName, displayName, nodeClass⟩ := ref
  obtain ⟨nodeId', browseName', displayName', nodeClass'⟩ := ref'
  cases nodeId <;> cases nodeId' <;> simp [describe, full, UANodeId.message] at hid
  exact ⟨trivial, trivial⟩

/-- A full description says everything about a reference. -/
theorem full_injective (h : ref.full = ref'.full) : ref = ref' := by
  obtain ⟨nodeId, browseName, displayName, nodeClass⟩ := ref
  obtain ⟨nodeId', browseName', displayName', nodeClass'⟩ := ref'
  simp only [full, describe, ReferenceDescription.mk.injEq] at h
  rw [UANodeId.message_injective h.1, h.2.1, h.2.2.1, h.2.2.2]

end UAReference

namespace OPCUAClient

variable {service : UABrowseDescription → UInt32 × List (List UAReference)}
  {references : UANodeId → List UAReference} {n : UANodeId} {d : ℕ}

/-- The descriptions of a node are those of the references of the node asked for. -/
theorem browseChildren_message (hlists : Lists service references) :
    browseChildren service n.message = (references n.asked).map UAReference.describe := by
  have hnative : (BrowseRequest.native { nodeId := n.message }) = ⟨n.asked, 0, 63, 0⟩ := rfl
  simp [browseChildren, browse, hnative, hlists n.asked]

/-- One level of the recursion. -/
theorem browseLevels_succ (hlists : Lists service references) :
    (browseLevels service n.message (d + 1)).references =
      (references n.asked).flatMap fun ref =>
        ref.describe :: (browseLevels service ref.describe.nodeId d).references := by
  rw [browseLevels, browseChildren_message hlists, List.flatMap_map]

/-- One level of what is there, where the targets are numeric and the recursion finds what
is there from each of them. -/
theorem map_full_visits_succ
    (hnum : ∀ ref ∈ references n, ref.nodeId.IsNumeric)
    (hbelow : ∀ ref ∈ references n,
      (browseLevels service ref.nodeId.message d).references =
        (visits references UAReference.nodeId d ref.nodeId).map UAReference.full) :
    (visits references UAReference.nodeId (d + 1) n).map UAReference.full =
      (references n).flatMap fun ref =>
        ref.describe :: (browseLevels service ref.describe.nodeId d).references := by
  rw [visits_succ, List.map_flatMap]
  refine List.flatMap_congr fun ref href => ?_
  rw [List.map_cons, UAReference.describe_of_isNumeric (hnum ref href)]
  exact congrArg _ (hbelow ref href).symm

/-- Where only numeric ids are met, the recursion finds what is there. -/
theorem browseLevels_eq (hlists : Lists service references)
    (hasked : references n.asked = references n)
    (hnum : ∀ ref ∈ visits references UAReference.nodeId d n, ref.nodeId.IsNumeric) :
    (browseLevels service n.message d).references =
      (visits references UAReference.nodeId d n).map UAReference.full := by
  induction d generalizing n with
  | zero => rfl
  | succ d ih =>
      obtain ⟨hself, hrest⟩ := forall_visits_succ.mp hnum
      rw [browseLevels_succ hlists, hasked, map_full_visits_succ hself]
      intro ref href
      exact ih (by rw [UANodeId.asked_of_isNumeric (hself ref href)]) (hrest ref href)

/-- Every description found was made by `browse`. -/
theorem exists_describe_of_mem {node : NodeId} {r : ReferenceDescription}
    (hr : r ∈ (browseLevels service node d).references) : ∃ ref : UAReference, ref.describe = r := by
  induction d generalizing node with
  | zero => cases hr
  | succ d ih =>
      obtain ⟨child, hchild, hr⟩ := List.mem_flatMap.mp hr
      rcases List.mem_cons.mp hr with rfl | hr
      · unfold browseChildren browse at hchild
        split at hchild
        split at hchild
        · obtain ⟨refs, -, href⟩ := List.mem_flatMap.mp hchild
          obtain ⟨ref, -, rfl⟩ := List.mem_map.mp href
          exact ⟨ref, rfl⟩
        · cases hchild
      · exact ih hr

/-- If the recursion finds what is there, it met only numeric ids. -/
theorem isNumeric_of_browseLevels_eq
    (h : (browseLevels service n.message d).references =
      (visits references UAReference.nodeId d n).map UAReference.full) :
    ∀ ref ∈ visits references UAReference.nodeId d n, ref.nodeId.IsNumeric := by
  intro ref href
  obtain ⟨ref', hdesc⟩ := exists_describe_of_mem (h ▸ List.mem_map_of_mem href)
  exact (UAReference.isNumeric_of_describe_eq hdesc).2

/-- If the recursion finds what is there, the node asked for has the references of the node
given. -/
theorem references_asked_of_browseLevels_eq (hlists : Lists service references)
    (h : (browseLevels service n.message (d + 1)).references =
      (visits references UAReference.nodeId (d + 1) n).map UAReference.full) :
    references n.asked = references n := by
  obtain ⟨hself, hrest⟩ := forall_visits_succ.mp (isNumeric_of_browseLevels_eq h)
  have hbelow : ∀ ref ∈ references n, _ := fun ref href =>
    browseLevels_eq hlists (by rw [UANodeId.asked_of_isNumeric (hself ref href)]) (hrest ref href)
  rw [browseLevels_succ hlists, map_full_visits_succ hself hbelow] at h
  refine eq_of_flatMap_cons_eq ?_ h
  intro x _ y hy heq
  rw [UAReference.describe_of_isNumeric (hself y hy)] at heq
  have hx := (UAReference.isNumeric_of_describe_eq heq).1
  exact UAReference.full_injective (by rw [← UAReference.describe_of_isNumeric hx, heq])

/-- **What recursive browsing finds**: the references of all walks of length 1 to `depth`,
in pre-order and each with the id of its target, exactly when the depth is not positive or
the node asked for has the references of the node given and every target on the way is
numeric. -/
theorem browseRecursive_eq_iff (hlists : Lists service references) (n : UANodeId) (depth : ℤ) :
    (browseRecursive service n.message depth).references =
        (visits references UAReference.nodeId depth.toNat n).map UAReference.full ↔
      depth ≤ 0 ∨ references n.asked = references n ∧
        ∀ ref ∈ visits references UAReference.nodeId depth.toNat n, ref.nodeId.IsNumeric := by
  unfold browseRecursive
  rcases hd : depth.toNat with _ | d
  · exact iff_of_true rfl (.inl (Int.toNat_eq_zero.mp hd))
  · have hpos : ¬ depth ≤ 0 := by omega
    rw [or_iff_right hpos]
    constructor
    · intro h
      exact ⟨references_asked_of_browseLevels_eq hlists h, isNumeric_of_browseLevels_eq h⟩
    · rintro ⟨hasked, hnum⟩
      exact browseLevels_eq hlists hasked hnum

/-- A service over an address space. -/
private def serving (references : UANodeId → List UAReference) :
    UABrowseDescription → UInt32 × List (List UAReference) :=
  fun desc => (good, [references desc.nodeId])

private theorem lists_serving (references : UANodeId → List UAReference) :
    Lists (serving references) references :=
  fun _ => rfl

/-- The objects folder holds a motor, which has a string id and one variable. -/
private def plant : UANodeId → List UAReference
  | .numeric 0 85 => [⟨.string 2 "Motor", [77], [77], 1⟩]
  | .string 2 "Motor" => [⟨.numeric 2 7, [83], [83], 2⟩]
  | _ => []

/-- Two nodes that refer to each other. -/
private def ring : UANodeId → List UAReference
  | .numeric 0 85 => [⟨.numeric 0 86, [65], [65], 1⟩]
  | .numeric 0 86 => [⟨.numeric 0 85, [66], [66], 1⟩]
  | _ => []

/-- The motor is found without its id, and the variable below it is not found. -/
theorem not_browseRecursive_eq_plant :
    ¬ ∀ (service : UABrowseDescription → UInt32 × List (List UAReference))
      (references : UANodeId → List UAReference), Lists service references →
        ∀ (n : UANodeId) (depth : ℤ),
          (browseRecursive service n.message depth).references =
            (visits references UAReference.nodeId depth.toNat n).map UAReference.full := by
  intro h
  have heq := h (serving plant) plant (lists_serving plant) (.numeric 0 85) 2
  exact absurd heq (by decide)

/-- Around the ring and once more. -/
theorem browseRecursive_ring :
    (browseRecursive (serving ring) (UANodeId.numeric 0 85).message 3).references =
      (visits ring UAReference.nodeId (3 : ℤ).toNat (.numeric 0 85)).map UAReference.full :=
  (browseRecursive_eq_iff (lists_serving ring) (.numeric 0 85) 3).mpr
    (.inr ⟨rfl, by simp [visits_succ, ring, UANodeId.IsNumeric]⟩)

end OPCUAClient
end Opencode.Opcua
