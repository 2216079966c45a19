import Mathlib
import Opencode.Lib.Run

/-!
# Subscriptions of the OPC UA client

Every `subscribe` creates a subscription of its own with one monitored item, and the
client finds the callback of a data change in one table.  A server scopes monitored
item ids by subscription; the table is keyed by the item id alone.  This module has
the three operations and the handler, and runs them against an arbitrary server.

The ghost field `registered` is what the callers asked for: the callback of every
pair of subscription and item that was subscribed and not unsubscribed since.  A
delivery is right when it invokes what `registered` holds for its pair.  That is so
throughout a run in which no step touches an item id that another subscription
holds at that moment.

## Main definitions

* `OPCUAClient.subscribe`, `unsubscribe`, `dataChangeHandler`, `isSubscribed` — the
  client.
* `Session.step` — the client together with the ghost table.
* `Session.Unconfused` — what a step has to do.
* `Session.Clash` — the step that meets a foreign item id.
-/

namespace Opencode.Opcua

open Opencode.Lib

universe u v w

/-- The identifier of a node: the `oneof` of the message, `unset` included. -/
inductive NodeIdent
  | unset
  | numeric (id : UInt32)
  | string (id : String)
  | guid (id : List UInt8)
  | opaqueId (id : UInt64)
  deriving DecidableEq

structure NodeId where
  namespaceIndex : UInt32
  id : NodeIdent
  deriving DecidableEq

/-- Reading `numeric_id` of a message that holds another case gives the default. -/
def NodeId.numericId (n : NodeId) : UInt32 :=
  match n.id with
  | .numeric id => id
  | _ => 0

structure SubscribeRequest where
  nodeId : NodeId
  samplingIntervalMs : Float
  queueSize : UInt32
  discardOldest : Bool

structure SubscribeResponse where
  status : UInt32 := 0
  monitoredItemId : UInt32 := 0
  subscriptionId : UInt32 := 0
  deriving DecidableEq

structure UnsubscribeRequest where
  subscriptionId : UInt32
  monitoredItemId : UInt32

/-- `UA_STATUSCODE_GOOD`. -/
def good : UInt32 := 0

/-- The native request for a monitored item, as far as the client sets it. -/
structure MonitoredItemCreateRequest where
  ns : UInt16
  id : UInt32
  samplingInterval : Float
  queueSize : UInt32
  discardOldest : Bool

/-- What `UA_MonitoredItemCreateRequest_default` puts beside the node: the library's own
choice. -/
structure MonitoringDefaults where
  samplingInterval : Float
  queueSize : UInt32

/-- The node `UA_MonitoredItemCreateRequest_default` is given, a numeric one. -/
def SubscribeRequest.itemToMonitor (req : SubscribeRequest) : UInt16 × UInt32 :=
  (req.nodeId.namespaceIndex.toUInt16, req.nodeId.numericId)

/-- `UA_MonitoredItemCreateRequest_default` and the overrides of the request. -/
def monitoredItem (defaults : MonitoringDefaults) (req : SubscribeRequest) :
    MonitoredItemCreateRequest where
  ns := req.itemToMonitor.1
  id := req.itemToMonitor.2
  samplingInterval :=
    if 0 < req.samplingIntervalMs then req.samplingIntervalMs else defaults.samplingInterval
  queueSize := if 0 < req.queueSize then req.queueSize else defaults.queueSize
  discardOldest := req.discardOldest

/-- The other side of one `subscribe`: the defaults of the native library, the server's
answer to the creation of the subscription, and to the creation of an item in it. -/
structure Server where
  defaults : MonitoringDefaults
  serviceResult : UInt32
  subscriptionId : UInt32
  addMonitoredItem : UInt32 → MonitoredItemCreateRequest → UInt32 × UInt32

/-- A value of the native library; the value itself is absent when its type is. -/
structure DataValue (υ : Type v) where
  hasValue : Bool
  value : Option υ
  status : UInt32

/-- What a callback receives.  The handler leaves the subscription id and the time
stamps at their defaults. -/
structure DataChangeNotification (ω : Type w) where
  monitoredItemId : UInt32
  subscriptionId : UInt32 := 0
  value : Option ω
  serverTimestamp : UInt64 := 0
  sourceTimestamp : UInt64 := 0
  status : UInt32

/-- The client's table of callbacks. -/
structure OPCUAClient (γ : Type u) where
  callbacks : AList fun _ : UInt32 => γ

namespace OPCUAClient

variable {γ : Type u} {υ : Type v} {ω : Type w}

/-- The callback the handler finds for an item, with the notification it is given.
The subscription id of the delivery is not used. -/
def dataChangeHandler (variantToProto : υ → ω) (c : OPCUAClient γ) (_sub mon : UInt32)
    (dv : DataValue υ) : Option (γ × DataChangeNotification ω) :=
  (c.callbacks.lookup mon).map fun cb =>
    (cb, {
      monitoredItemId := mon
      value := if dv.hasValue then dv.value.map variantToProto else none
      status := dv.status })

/-- Create a subscription and one item in it, and enter the callback.  Both failures
return before the table is written; the second one leaves the subscription behind. -/
def subscribe (c : OPCUAClient γ) (server : Server) (req : SubscribeRequest) (cb : γ) :
    SubscribeResponse × OPCUAClient γ :=
  if server.serviceResult ≠ good then ({ status := server.serviceResult }, c)
  else
    let sub := server.subscriptionId
    let (statusCode, mon) := server.addMonitoredItem sub (monitoredItem server.defaults req)
    if statusCode ≠ good then ({ status := statusCode, subscriptionId := sub }, c)
    else
      ({ status := good, monitoredItemId := mon, subscriptionId := sub },
        { c with callbacks := c.callbacks.insert mon cb })

/-- The entry goes by its item id; the answer is always good. -/
def unsubscribe (c : OPCUAClient γ) (req : UnsubscribeRequest) : UInt32 × OPCUAClient γ :=
  (good, { c with callbacks := c.callbacks.erase req.monitoredItemId })

def isSubscribed (c : OPCUAClient γ) (mon : UInt32) : Bool := (c.callbacks.lookup mon).isSome

end OPCUAClient

/-- The client, the subscriptions created so far, and the callbacks the callers
asked for. -/
structure Session (γ : Type u) where
  client : OPCUAClient γ
  created : List UInt32
  registered : AList fun _ : UInt32 × UInt32 => γ

/-- What happens to the client. -/
inductive SubscriptionEvent (γ : Type u) (υ : Type v)
  | subscribe (server : Server) (req : SubscribeRequest) (cb : γ)
  | unsubscribe (req : UnsubscribeRequest)
  | deliver (sub mon : UInt32) (dv : DataValue υ)

namespace Session

variable {γ : Type u} {υ : Type v} {ω : Type w}

/-- A client that has not subscribed to anything. -/
def start : Session γ := ⟨⟨∅⟩, [], ∅⟩

/-- The pair a `subscribe` ends up with, unless the server refuses. -/
def granted (server : Server) (req : SubscribeRequest) : Option (UInt32 × UInt32) :=
  let item := server.addMonitoredItem server.subscriptionId (monitoredItem server.defaults req)
  if server.serviceResult = good ∧ item.1 = good then some (server.subscriptionId, item.2)
  else none

/-- One event.  A server never gives a new subscription the id of one it created
before: such an answer is no step. -/
def step (s : Session γ) : SubscriptionEvent γ υ → Option (Session γ)
  | .subscribe server req cb =>
      if server.serviceResult = good ∧ server.subscriptionId ∈ s.created then none
      else some {
        client := (s.client.subscribe server req cb).2
        created :=
          if server.serviceResult = good then server.subscriptionId :: s.created
          else s.created
        registered :=
          match granted server req with
          | some pair => s.registered.insert pair cb
          | none => s.registered }
  | .unsubscribe req =>
      some { s with
        client := (s.client.unsubscribe req).2
        registered := s.registered.erase (req.subscriptionId, req.monitoredItemId) }
  | .deliver _ _ _ => some s

/-- A delivery invokes exactly the callback registered for its pair, with the data of
the delivery, and none if there is none; an `unsubscribe` leaves every other
registered pair the callback it had. -/
def Unconfused (variantToProto : υ → ω) (s : Session γ) : SubscriptionEvent γ υ → Prop
  | .subscribe _ _ _ => True
  | .unsubscribe req =>
      ∀ sub mon, (sub, mon) ≠ (req.subscriptionId, req.monitoredItemId) →
        (sub, mon) ∈ s.registered →
        ∀ dv, (s.client.unsubscribe req).2.dataChangeHandler variantToProto sub mon dv =
          s.client.dataChangeHandler variantToProto sub mon dv
  | .deliver sub mon dv =>
      s.client.dataChangeHandler variantToProto sub mon dv =
        (s.registered.lookup (sub, mon)).map fun cb =>
          (cb, {
            monitoredItemId := mon
            value := if dv.hasValue then dv.value.map variantToProto else none
            status := dv.status })

/-- The item id is held by another subscription than `sub`. -/
def HeldElsewhere (s : Session γ) (sub mon : UInt32) : Prop :=
  ∃ other, other ≠ sub ∧ (other, mon) ∈ s.registered

instance (s : Session γ) (sub mon : UInt32) : Decidable (s.HeldElsewhere sub mon) :=
  decidable_of_iff (∃ p ∈ s.registered.keys, p.1 ≠ sub ∧ p.2 = mon) <| by
    constructor
    · rintro ⟨⟨other, m⟩, hmem, hne, rfl⟩
      exact ⟨other, hne, hmem⟩
    · rintro ⟨other, hne, hmem⟩
      exact ⟨(other, mon), hmem, hne, rfl⟩

/-- The event is about an item id that another subscription holds. -/
def Clash (s : Session γ) : SubscriptionEvent γ υ → Prop
  | .subscribe server req _ =>
      match granted server req with
      | some (sub, mon) => s.HeldElsewhere sub mon
      | none => False
  | .unsubscribe req => s.HeldElsewhere req.subscriptionId req.monitoredItemId
  | .deliver sub mon _ => s.HeldElsewhere sub mon

instance (s : Session γ) : ∀ a : SubscriptionEvent γ υ, Decidable (s.Clash a)
  | .subscribe server req _ =>
      match h : granted server req with
      | some (sub, mon) => decidable_of_iff (s.HeldElsewhere sub mon) (by simp [Clash, h])
      | none => .isFalse (by simp [Clash, h])
  | .unsubscribe req =>
      inferInstanceAs (Decidable (s.HeldElsewhere req.subscriptionId req.monitoredItemId))
  | .deliver sub mon _ => inferInstanceAs (Decidable (s.HeldElsewhere sub mon))

/-- The table is the registered one, seen by item id. -/
def Agree (s : Session γ) : Prop :=
  ∀ mon cb, s.client.callbacks.lookup mon = some cb ↔
    ∃ sub, s.registered.lookup (sub, mon) = some cb

/-! ## One event -/

theorem agree_start : Agree (start : Session γ) := by
  intro mon cb
  simp [start]

theorem subscribe_callbacks (c : OPCUAClient γ) (server : Server) (req : SubscribeRequest)
    (cb : γ) :
    (c.subscribe server req cb).2.callbacks =
      match granted server req with
      | some (_, mon) => c.callbacks.insert mon cb
      | none => c.callbacks := by
  unfold OPCUAClient.subscribe granted
  by_cases h1 : server.serviceResult = good
  · by_cases h2 : (server.addMonitoredItem server.subscriptionId
        (monitoredItem server.defaults req)).1 = good
    · simp [h1, h2]
    · simp [h1, h2]
  · simp [h1]

/-- An item id no other subscription holds is registered for `sub` or not at all. -/
theorem lookup_of_not_heldElsewhere {s : Session γ} {sub mon other : UInt32} {cb : γ}
    (h : ¬ s.HeldElsewhere sub mon) (hl : s.registered.lookup (other, mon) = some cb) :
    other = sub := by
  by_contra hne
  exact h ⟨other, hne, AList.lookup_isSome.mp (by simp [hl])⟩

/-- Entering one pair keeps the agreement when the item id is not held elsewhere. -/
theorem Agree.insert {s : Session γ} (h : Agree s) {sub mon : UInt32} (cb : γ)
    (hfree : ¬ s.HeldElsewhere sub mon) (created : List UInt32) :
    Agree ⟨⟨s.client.callbacks.insert mon cb⟩, created, s.registered.insert (sub, mon) cb⟩ := by
  intro m c
  by_cases hm : m = mon
  · subst hm
    constructor
    · intro hl
      exact ⟨sub, by simpa using hl⟩
    · rintro ⟨other, hl⟩
      by_cases ho : other = sub
      · subst ho
        simpa using hl
      · rw [AList.lookup_insert_ne (by simp [ho])] at hl
        exact absurd (lookup_of_not_heldElsewhere hfree hl) ho
  · have hpair : ∀ other, (other, m) ≠ (sub, mon) := by simp [hm]
    simpa [AList.lookup_insert_ne, hm, hpair] using h m c

/-- Dropping one pair keeps the agreement when the item id is not held elsewhere. -/
theorem Agree.erase {s : Session γ} (h : Agree s) {sub mon : UInt32}
    (hfree : ¬ s.HeldElsewhere sub mon) :
    Agree { s with
      client := ⟨s.client.callbacks.erase mon⟩
      registered := s.registered.erase (sub, mon) } := by
  intro m c
  by_cases hm : m = mon
  · subst hm
    constructor
    · intro hl
      simp at hl
    · rintro ⟨other, hl⟩
      by_cases ho : other = sub
      · subst ho
        simp at hl
      · rw [AList.lookup_erase_ne (by simp [ho])] at hl
        exact absurd (lookup_of_not_heldElsewhere hfree hl) ho
  · have hpair : ∀ other, (other, m) ≠ (sub, mon) := by simp [hm]
    simpa [AList.lookup_erase_ne, hm, hpair] using h m c

/-- An event that meets no foreign item id keeps the two tables in agreement. -/
theorem agree_step {s t : Session γ} {a : SubscriptionEvent γ υ} (h : Agree s)
    (hfree : ¬ Clash s a) (hstep : s.step a = some t) : Agree t := by
  cases a with
  | subscribe server req cb =>
      simp only [step] at hstep
      split at hstep
      · cases hstep
      · cases hstep
        have hc := subscribe_callbacks s.client server req cb
        cases hg : granted server req with
        | none =>
            rw [hg] at hc
            intro mon c
            simpa [hc] using h mon c
        | some pair =>
            obtain ⟨sub, mon⟩ := pair
            rw [hg] at hc
            have hkeep := h.insert cb (fun hheld => hfree (by simpa [Clash, hg] using hheld))
              (if server.serviceResult = good then server.subscriptionId :: s.created
                else s.created)
            intro m c
            simpa [hc] using hkeep m c
  | unsubscribe req =>
      cases hstep
      exact h.erase hfree
  | deliver sub mon dv =>
      cases hstep
      exact h

/-- In agreement, the handler of a pair whose item id is not held elsewhere finds what
was registered for the pair. -/
theorem Agree.lookup_eq {s : Session γ} (h : Agree s) {sub mon : UInt32}
    (hfree : ¬ s.HeldElsewhere sub mon) :
    s.client.callbacks.lookup mon = s.registered.lookup (sub, mon) := by
  refine Option.ext fun cb => ?_
  rw [h mon cb]
  constructor
  · rintro ⟨other, hl⟩
    obtain rfl := lookup_of_not_heldElsewhere hfree hl
    exact hl
  · intro hl
    exact ⟨sub, hl⟩

/-- In agreement, an event that meets no foreign item id does what it has to do. -/
theorem unconfused_of_not_clash (variantToProto : υ → ω) {s : Session γ}
    {a : SubscriptionEvent γ υ} (h : Agree s) (hfree : ¬ Clash s a) :
    Unconfused variantToProto s a := by
  cases a with
  | subscribe server req cb => trivial
  | unsubscribe req =>
      intro sub mon hne hreg dv
      -- The erased item id is not the one of a registered pair: the pair would hold it.
      have hmon : mon ≠ req.monitoredItemId := by
        rintro rfl
        exact hfree ⟨sub, fun hsub => hne (by rw [hsub]), hreg⟩
      simp [OPCUAClient.dataChangeHandler, OPCUAClient.unsubscribe, AList.lookup_erase_ne hmon]
  | deliver sub mon dv =>
      simp only [Unconfused, OPCUAClient.dataChangeHandler, h.lookup_eq hfree]

/-- In agreement, `isSubscribed` says whether any subscription holds the item id. -/
theorem isSubscribed_iff {s : Session γ} (h : Agree s) (mon : UInt32) :
    s.client.isSubscribed mon ↔ ∃ sub, (sub, mon) ∈ s.registered := by
  simp only [OPCUAClient.isSubscribed, Option.isSome_iff_exists, ← AList.lookup_isSome]
  constructor
  · rintro ⟨cb, hl⟩
    obtain ⟨sub, hs⟩ := (h mon cb).mp hl
    exact ⟨sub, cb, hs⟩
  · rintro ⟨sub, cb, hl⟩
    exact ⟨cb, (h mon cb).mpr ⟨sub, hl⟩⟩

/-! ## Whole runs -/

/-- **Callbacks are not confused** in a run that never meets a foreign item id. -/
theorem unconfused_of_no_clash (variantToProto : υ → ω) (ls : List (SubscriptionEvent γ υ))
    (hfree : Along step (fun s a => ¬ Clash s a) (start : Session γ) ls) :
    Along step (Unconfused variantToProto) (start : Session γ) ls :=
  along_of_invariant (fun _ _ _ h hf ht => agree_step h hf ht)
    (fun _ _ h hf => unconfused_of_not_clash variantToProto h hf) agree_start hfree

/-- A server that grants the given pair. -/
private def granting (sub mon : UInt32) : Server :=
  ⟨⟨250, 1⟩, good, sub, fun _ _ => (good, mon)⟩

private def someNode : SubscribeRequest := ⟨⟨0, .numeric 1001⟩, 100, 10, true⟩

private def reading (n : ℤ) : DataValue ℤ := ⟨true, some n, good⟩

/-- Two subscriptions whose servers gave both items the id one: the data of the first
goes to the callback of the second. -/
theorem not_unconfused_of_shared_item_id :
    ¬ Along step (Unconfused id) (start : Session String)
      [.subscribe (granting 1 1) someNode "temperature",
        .subscribe (granting 2 1) someNode "pressure", .deliver 1 1 (reading 25)] := by
  intro h
  have hlast := (((h _ rfl).2 _ rfl).2 _ rfl).1
  have hwho := congrArg (Option.map Prod.fst) hlast
  exact absurd hwho (by decide)

/-- Items with ids of their own keep their callbacks, also when one is dropped. -/
theorem unconfused_of_own_item_ids :
    Along step (Unconfused id) (start : Session String)
      [.subscribe (granting 1 1) someNode "temperature",
        .subscribe (granting 2 2) someNode "pressure",
        .unsubscribe ⟨1, 1⟩, .deliver 2 2 (reading 25)] := by
  refine unconfused_of_no_clash id _ ?_
  decide +kernel

end Session
end Opencode.Opcua
