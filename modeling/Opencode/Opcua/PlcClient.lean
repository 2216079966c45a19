import Mathlib
import Opencode.Lib.Run
import Opencode.Opcua.NodeCache
import Opencode.Opcua.StructParser

/-!
# Reading nodes, and the poller

`PlcClient` reads one node by its numeric or its string id and fills a `CachedValue`;
`PlcPoller` reads the items of a group in turn, counts the valid values, reports the others
to the error callback and puts all of them into the cache.  The call into open62541 is a
function from the node asked for to an arbitrary answer.

A value is valid when its status is `0`, and `0` is the status a `CachedValue` starts with.
A read by a client that is not connected, and a read whose good answer has no result, leave
that status as it is.  `batchRead` overwrites it first.

## Main definitions

* `PlcClient.readNode`, `PlcClient.readNodeString`, `PlcClient.batchRead` — the reads.
* `PlcPoller.readNode`, `PlcPoller.pollGroup` — the poller.
* `PlcClient.GoodAnswer` — what a valid value is taken for.
* `PlcClient.Answered` — the answer says what became of the read.
-/

namespace Opencode.Opcua

open Opencode.Lib

/-! ## The client -/

/-- `UA_NodeId`, with the two kinds of identifier the client asks for. -/
inductive UANodeId
  | numeric (ns : UInt16) (id : UInt32)
  | string (ns : UInt16) (id : String)
  deriving DecidableEq

/-- `UA_DataValue`: the variant is a type, or none, and the address of its content. -/
structure UADataValue where
  status : UInt32
  serverTimestamp : Int64
  sourceTimestamp : Int64
  type : Option DataType
  data : ℕ

/-- `UA_ReadResponse`, with the memory its values are in. -/
structure UAReadResponse where
  serviceResult : UInt32
  results : List UADataValue
  mem : Memory

instance : Inhabited ParsedValue := ⟨{}⟩

/-- `CachedValue::valid`. -/
def CachedValue.valid {ν : Type*} (cv : CachedValue ν) : Bool := cv.statusCode = 0

/-- Take over a result: its status, its time stamps and, unless the variant is empty, its
content. -/
def CachedValue.fill (cv : CachedValue ParsedValue) (mem : Memory) (dv : UADataValue)
    (name : String) : Option (CachedValue ParsedValue) :=
  let cv := { cv with
    statusCode := dv.status
    serverTs := dv.serverTimestamp.toUInt64
    sourceTs := dv.sourceTimestamp.toUInt64 }
  match dv.type with
  | none => some cv
  | some dt =>
      if dv.data = 0 then some cv
      else (parseValue mem dv.data dt name).map fun pv => { cv with parsed := pv }

/-- `connected` is whether there is a native client. -/
structure PlcClient where
  connected : Bool

namespace PlcClient

/-- The value a read starts with. -/
def begun (name : String) : CachedValue ParsedValue :=
  { (CachedValue.empty : CachedValue ParsedValue) with parsed := { fieldName := name } }

/-- What the two reads have in common: all but the node they ask for. -/
def read (c : PlcClient) (service : UANodeId → UAReadResponse) (nodeId : UANodeId)
    (name : String) : Option (CachedValue ParsedValue) :=
  let cv := begun name
  if c.connected then
    let resp := service nodeId
    if resp.serviceResult ≠ 0 then some { cv with statusCode := resp.serviceResult }
    else
      match resp.results with
      | [] => some cv
      | dv :: _ => cv.fill resp.mem dv name
  else some cv

def readNode (c : PlcClient) (service : UANodeId → UAReadResponse) (ns id : UInt32)
    (name : String) : Option (CachedValue ParsedValue) :=
  c.read service (.numeric ns.toUInt16 id) name

/-- The string of a node id; it is passed as `id.c_str()` and ends at its first null. -/
def stringId (ns : UInt32) (id : String) : UANodeId :=
  .string ns.toUInt16 (String.ofList (id.toList.takeWhile (· ≠ '\x00')))

/-- A string without a null is passed unchanged, and no other one is. -/
theorem ofList_takeWhile_eq_iff {id : String} :
    String.ofList (id.toList.takeWhile (· ≠ '\x00')) = id ↔ '\x00' ∉ id.toList := by
  rw [← takeWhile_ne_eq_self_iff, ← String.ofList_inj, String.ofList_toList]

/-- The namespaces a native node id can have. -/
theorem toNat_toUInt16_eq_iff {ns : UInt32} :
    ns.toUInt16.toNat = ns.toNat ↔ ns.toNat < 65536 := by
  rw [UInt32.toNat_toUInt16]
  exact Nat.mod_eq_iff_lt (by norm_num)

/-- The string node id has the namespace and the string given to it. -/
theorem stringId_exact_iff {ns : UInt32} {id : String} :
    (∃ ns' : UInt16, ns'.toNat = ns.toNat ∧ stringId ns id = .string ns' id) ↔
      ns.toNat < 65536 ∧ '\x00' ∉ id.toList := by
  simp only [stringId, UANodeId.string.injEq, ofList_takeWhile_eq_iff, ← toNat_toUInt16_eq_iff]
  constructor
  · rintro ⟨_, hns, rfl, hid⟩
    exact ⟨hns, hid⟩
  · rintro ⟨hns, hid⟩
    exact ⟨_, hns, rfl, hid⟩

def readNodeString (c : PlcClient) (service : UANodeId → UAReadResponse) (ns : UInt32)
    (id name : String) : Option (CachedValue ParsedValue) :=
  c.read service (stringId ns id) name

/-- What `batchRead` starts each value with. -/
def pending : CachedValue ParsedValue :=
  { (CachedValue.empty : CachedValue ParsedValue) with statusCode := 0x80000000 }

/-- The loop of `batchRead` over `n` nodes.  The service result is not looked at. -/
def batchValues (mem : Memory) : ℕ → List UADataValue → Option (List (CachedValue ParsedValue))
  | 0, _ => some []
  | n + 1, [] => (batchValues mem n []).map (pending :: ·)
  | n + 1, dv :: results => do
      let cv ← pending.fill mem dv ""
      let cvs ← batchValues mem n results
      some (cv :: cvs)

def batchRead (c : PlcClient) (service : List UANodeId → UAReadResponse)
    (nodes : List (UInt32 × UInt32)) : Option (List (CachedValue ParsedValue)) :=
  if !c.connected || nodes.isEmpty then some []
  else
    let resp := service (nodes.map fun x => .numeric x.1.toUInt16 x.2)
    batchValues resp.mem nodes.length resp.results

end PlcClient

/-! ## The poller -/

structure PollItem where
  key : NodeKey
  name : String

structure PollGroup where
  name : String
  items : List PollItem

/-- The white space of the C locale. -/
def isspace (c : Char) : Bool :=
  c = ' ' || c = '\t' || c = '\n' || c = '\x0b' || c = '\x0c' || c = '\x0d'

/-- `std::stoul`; `none` where it throws.  A minus sign negates in the result type. -/
def stoul (s : String) : Option UInt64 :=
  let (negative, cs) :=
    match s.toList.dropWhile isspace with
    | '-' :: cs => (true, cs)
    | '+' :: cs => (false, cs)
    | cs => (false, cs)
  let digits := cs.takeWhile (·.isDigit)
  let x := Nat.ofDigitChars 10 digits 0
  if digits = [] ∨ 2 ^ 64 ≤ x then none
  else some (if negative then -UInt64.ofNat x else UInt64.ofNat x)

/-- A poller: whether its two callbacks are set. -/
structure PlcPoller where
  onPollDone : Bool
  onError : Bool

/-- What one item meets: the client as it is then, the answers, and, for the cache, the
clock and the visiting order. -/
structure Turn where
  client : PlcClient
  service : UANodeId → UAReadResponse
  now : ℤ
  order : List NodeKey

/-- The state of a poll: the cache and what it reported, the count, and the calls of the
error callback. -/
structure Polled where
  cache : NodeCache ParsedValue
  changes : List (Change ParsedValue)
  ok : ℕ
  errors : List (NodeKey × UInt32)

/-- The items of a group, each with its turn. -/
def PollGroup.turns (grp : PollGroup) (env : ℕ → Turn) : List (PollItem × Turn) :=
  grp.items.zipIdx.map fun x => (x.1, env x.2)

/-- The numeric id of an item; `0` when its text is not a number. -/
def PollItem.numId (item : PollItem) : UInt32 :=
  match stoul item.key.id with
  | some x => x.toUInt32
  | none => 0

namespace PlcPoller

/-- The value of an item, with the calls of the error callback. -/
def readNode (p : PlcPoller) (item : PollItem) (turn : Turn) :
    Option (CachedValue ParsedValue × List (NodeKey × UInt32)) :=
  let cv :=
    if 0 < item.numId then
      turn.client.readNode turn.service item.key.ns item.numId item.name
    else turn.client.readNodeString turn.service item.key.ns item.key.id item.name
  cv.map fun cv => (cv, if !cv.valid && p.onError then [(item.key, cv.statusCode)] else [])

/-- The body of the loop over the items. -/
def pollItem (p : PlcPoller) (s : Polled) (t : PollItem × Turn) : Option Polled := do
  let (cv, calls) ← p.readNode t.1 t.2
  let (cache, changes) ← s.cache.put t.1.key cv t.2.now t.2.order
  some {
    cache := cache
    changes := s.changes ++ changes
    ok := if cv.valid then s.ok + 1 else s.ok
    errors := s.errors ++ calls }

/-- One poll of a group, with the calls of the other callback. -/
def pollGroup (p : PlcPoller) (cache : NodeCache ParsedValue) (grp : PollGroup)
    (env : ℕ → Turn) : Option (Polled × List (String × ℕ)) :=
  (run p.pollItem ⟨cache, [], 0, []⟩ (grp.turns env)).map fun s =>
    (s, if p.onPollDone then [(grp.name, s.ok)] else [])

end PlcPoller

/-! ## What makes a value valid -/

theorem CachedValue.valid_iff {ν : Type*} {cv : CachedValue ν} :
    cv.valid = true ↔ cv.statusCode = 0 := by
  simp [valid]

theorem CachedValue.statusCode_of_fill {cv cv' : CachedValue ParsedValue} {mem : Memory}
    {dv : UADataValue} {name : String} (h : cv.fill mem dv name = some cv') :
    cv'.statusCode = dv.status := by
  unfold fill at h
  split at h
  · cases h
    rfl
  · split at h
    · cases h
      rfl
    · obtain ⟨pv, -, rfl⟩ := Option.map_eq_some_iff.mp h
      rfl

namespace PlcClient

/-- The client is connected, and the answer is good and has a first result, which is good. -/
def GoodAnswer (c : PlcClient) (resp : UAReadResponse) : Prop :=
  c.connected = true ∧ resp.serviceResult = 0 ∧ ∃ dv, resp.results.head? = some dv ∧ dv.status = 0

/-- The client is connected, and the answer is bad or has a result. -/
def Answered (c : PlcClient) (resp : UAReadResponse) : Prop :=
  c.connected = true ∧ (resp.serviceResult ≠ 0 ∨ resp.results ≠ [])

instance (c : PlcClient) (resp : UAReadResponse) : Decidable (c.GoodAnswer resp) :=
  match h : resp.results with
  | [] => .isFalse fun ⟨_, _, dv, hdv, _⟩ => by simp [h] at hdv
  | dv :: _ =>
      decidable_of_iff (c.connected = true ∧ resp.serviceResult = 0 ∧ dv.status = 0)
        (by simp [GoodAnswer, h])

instance (c : PlcClient) (resp : UAReadResponse) : Decidable (c.Answered resp) :=
  inferInstanceAs (Decidable (_ ∧ _))

variable {c : PlcClient} {resp : UAReadResponse} {service : UANodeId → UAReadResponse}
  {nodeId : UANodeId} {name : String} {cv : CachedValue ParsedValue}

theorem GoodAnswer.answered (h : c.GoodAnswer resp) : c.Answered resp := by
  obtain ⟨hconn, -, dv, hdv, -⟩ := h
  refine ⟨hconn, Or.inr ?_⟩
  rintro hnil
  rw [hnil] at hdv
  cases hdv

/-- A read that gets no answer, or an answer without a result, keeps the status it began
with. -/
theorem exists_read_of_not_answered (name : String) (h : ¬ c.Answered (service nodeId)) :
    ∃ cv, c.read service nodeId name = some cv ∧ cv.statusCode = 0 := by
  unfold read
  split
  · rename_i hconn
    obtain ⟨hres, hnil⟩ : (service nodeId).serviceResult = 0 ∧ (service nodeId).results = [] := by
      simpa [Answered, hconn] using h
    rw [if_neg (not_not.mpr hres), hnil]
    exact ⟨_, rfl, rfl⟩
  · exact ⟨_, rfl, rfl⟩

/-- **A read.**  Its value is valid after a good answer, and after none. -/
theorem valid_iff_of_read (h : c.read service nodeId name = some cv) :
    cv.valid = true ↔ c.GoodAnswer (service nodeId) ∨ ¬ c.Answered (service nodeId) := by
  by_cases hans : c.Answered (service nodeId)
  · rw [CachedValue.valid_iff, or_iff_left (not_not.mpr hans)]
    obtain ⟨hconn, hans⟩ := hans
    simp only [read, hconn, if_true] at h
    split at h
    · rename_i hbad
      cases h
      exact ⟨fun h0 => absurd h0 hbad, fun hgood => absurd hgood.2.1 hbad⟩
    · rename_i hres
      obtain ⟨dv, rest, hresults⟩ := List.exists_cons_of_ne_nil (hans.resolve_left hres)
      rw [hresults] at h
      rw [CachedValue.statusCode_of_fill h]
      simp [GoodAnswer, hconn, not_not.mp hres, hresults]
  · obtain ⟨cv', hcv', h0⟩ := exists_read_of_not_answered name hans
    obtain rfl : cv' = cv := Option.some.inj (hcv'.symm.trans h)
    exact iff_of_true (CachedValue.valid_iff.mpr h0) (Or.inr hans)

/-- A read gives valid values for good answers only exactly when it is answered. -/
theorem good_of_valid_iff :
    (∀ cv, c.read service nodeId name = some cv → cv.valid = true → c.GoodAnswer (service nodeId))
      ↔ c.Answered (service nodeId) := by
  constructor
  · intro h
    by_contra hans
    obtain ⟨cv, hcv, h0⟩ := exists_read_of_not_answered name hans
    exact hans (h cv hcv (CachedValue.valid_iff.mpr h0)).answered
  · intro hans cv hcv hvalid
    exact ((valid_iff_of_read hcv).mp hvalid).resolve_right (not_not.mpr hans)

end PlcClient

/-! ## What a poll counts -/

/-- The node the poller asks for. -/
def PollItem.nodeId (item : PollItem) : UANodeId :=
  if 0 < item.numId then .numeric item.key.ns.toUInt16 item.numId
  else PlcClient.stringId item.key.ns item.key.id

/-- The item is read: its answer is a good one. -/
def WasRead (t : PollItem × Turn) : Prop := t.2.client.GoodAnswer (t.2.service t.1.nodeId)

instance (t : PollItem × Turn) : Decidable (WasRead t) :=
  inferInstanceAs (Decidable (PlcClient.GoodAnswer _ _))

/-- The read of the item is answered. -/
def WasAnswered (t : PollItem × Turn) : Prop := t.2.client.Answered (t.2.service t.1.nodeId)

instance (t : PollItem × Turn) : Decidable (WasAnswered t) :=
  inferInstanceAs (Decidable (PlcClient.Answered _ _))

/-- The item gets a valid value: it was read, or nothing was answered. -/
def SeemsRead (t : PollItem × Turn) : Prop := WasRead t ∨ ¬ WasAnswered t

instance (t : PollItem × Turn) : Decidable (SeemsRead t) := inferInstanceAs (Decidable (_ ∨ _))

namespace PlcPoller

variable {p : PlcPoller}

theorem readNode_eq (item : PollItem) (turn : Turn) :
    p.readNode item turn =
      (turn.client.read turn.service item.nodeId item.name).map fun cv =>
        (cv, if !cv.valid && p.onError then [(item.key, cv.statusCode)] else []) := by
  unfold readNode PollItem.nodeId
  split <;> rfl

/-- One item: the count and the error callback. -/
theorem pollItem_spec {s s' : Polled} {t : PollItem × Turn} (h : p.pollItem s t = some s') :
    s'.ok = s.ok + (if SeemsRead t then 1 else 0) ∧
      (p.onError = true → s'.errors.map Prod.fst =
        s.errors.map Prod.fst ++ if SeemsRead t then [] else [t.1.key]) := by
  rw [pollItem, readNode_eq] at h
  obtain ⟨⟨cv, calls⟩, hread, h⟩ := Option.bind_eq_some_iff.mp h
  obtain ⟨⟨cache, changes⟩, -, h⟩ := Option.bind_eq_some_iff.mp h
  obtain ⟨_, hcv, hcalls⟩ := Option.map_eq_some_iff.mp hread
  cases hcalls
  cases h
  have hvalid : cv.valid = true ↔ SeemsRead t := PlcClient.valid_iff_of_read hcv
  by_cases hs : SeemsRead t
  · simp [hs, hvalid.mpr hs]
  · have hbad : cv.valid = false := by simpa [hs] using hvalid
    refine ⟨by simp [hs, hbad], fun hon => ?_⟩
    simp [hs, hbad, hon]

/-- **A poll.**  It counts the items that seem to be read and reports the others. -/
theorem run_pollItem {s s' : Polled} {ts : List (PollItem × Turn)}
    (h : run p.pollItem s ts = some s') :
    s'.ok = s.ok + ts.countP (SeemsRead ·) ∧
      (p.onError = true → s'.errors.map Prod.fst =
        s.errors.map Prod.fst ++ (ts.filter (¬ SeemsRead ·)).map (·.1.key)) := by
  induction ts generalizing s with
  | nil =>
      cases h
      simp
  | cons t ts ih =>
      obtain ⟨s₁, hs₁, h⟩ := Option.bind_eq_some_iff.mp h
      obtain ⟨hok, herr⟩ := pollItem_spec hs₁
      obtain ⟨hok', herr'⟩ := ih h
      constructor
      · rw [hok', hok, List.countP_cons]
        simp only [decide_eq_true_eq]
        omega
      · intro hon
        rw [herr' hon, herr hon]
        by_cases hs : SeemsRead t <;> simp [hs]

end PlcPoller

/-- Items that are read seem to be, and the two counts agree when no other item seems so. -/
theorem countP_wasRead_iff {ts : List (PollItem × Turn)} :
    ts.countP (SeemsRead ·) = ts.countP (WasRead ·) ↔ ∀ t ∈ ts, WasAnswered t := by
  have hsub : (ts.filter (WasRead ·)).Sublist (ts.filter (SeemsRead ·)) :=
    List.monotone_filter_right ts fun t h => decide_eq_true (Or.inl (of_decide_eq_true h))
  constructor
  · intro h t ht
    by_contra hans
    rw [List.countP_eq_length_filter, List.countP_eq_length_filter] at h
    have hmem : t ∈ ts.filter (SeemsRead ·) :=
      List.mem_filter.mpr ⟨ht, decide_eq_true (Or.inr hans)⟩
    rw [← hsub.eq_of_length h.symm] at hmem
    exact hans (of_decide_eq_true (List.mem_filter.mp hmem).2).answered
  · intro h
    refine List.countP_congr fun t ht => ?_
    simp [SeemsRead, h t ht]

/-- What a poll should report: it counts the items that were read and, when the error
callback is set, calls it for the others. -/
def Polled.ReportsRead (p : PlcPoller) (ts : List (PollItem × Turn)) (s : Polled) : Prop :=
  s.ok = ts.countP (WasRead ·) ∧
    (p.onError = true → s.errors.map Prod.fst = (ts.filter (¬ WasRead ·)).map (·.1.key))

theorem PlcPoller.reportsRead_iff {p : PlcPoller} {cache : NodeCache ParsedValue}
    {grp : PollGroup} {env : ℕ → Turn} {s : Polled} {done : List (String × ℕ)}
    (h : p.pollGroup cache grp env = some (s, done)) :
    s.ReportsRead p (grp.turns env) ↔ ∀ t ∈ grp.turns env, WasAnswered t := by
  obtain ⟨s', hrun, hs'⟩ := Option.map_eq_some_iff.mp h
  cases hs'
  obtain ⟨hok, herr⟩ := run_pollItem hrun
  rw [Nat.zero_add] at hok
  rw [← countP_wasRead_iff, Polled.ReportsRead, hok, and_iff_left_iff_imp]
  intro hcount hon
  rw [herr hon, List.map_nil, List.nil_append]
  congr 1
  refine List.filter_congr fun t ht => ?_
  simp [SeemsRead, countP_wasRead_iff.mp hcount t ht]

/-- **Where a good value comes from.**  A valid value means a good answer, and a poll
reports what it has read, exactly when the reads are answered: by a connected client,
with a bad service result or with a result. -/
theorem onlyRead_iff_answered (c : PlcClient) (service : UANodeId → UAReadResponse)
    (ns id : UInt32) (text name : String) (p : PlcPoller) (cache : NodeCache ParsedValue)
    (grp : PollGroup) (env : ℕ → Turn) :
    ((∀ cv, c.readNode service ns id name = some cv → cv.valid = true →
        c.GoodAnswer (service (.numeric ns.toUInt16 id))) ↔
        c.Answered (service (.numeric ns.toUInt16 id))) ∧
    ((∀ cv, c.readNodeString service ns text name = some cv → cv.valid = true →
        c.GoodAnswer (service (PlcClient.stringId ns text))) ↔
        c.Answered (service (PlcClient.stringId ns text))) ∧
    ∀ s done, p.pollGroup cache grp env = some (s, done) →
      (s.ReportsRead p (grp.turns env) ↔ ∀ t ∈ grp.turns env, WasAnswered t) :=
  ⟨PlcClient.good_of_valid_iff, PlcClient.good_of_valid_iff,
    fun _ _ h => PlcPoller.reportsRead_iff h⟩

/-- A group of two nodes, one with a numeric and one with a string id. -/
def plcGroup : PollGroup := ⟨"plc", [⟨⟨2, "100"⟩, "Counter"⟩, ⟨⟨2, "Motor.Speed"⟩, "Speed"⟩]⟩

/-- A server that has one node. -/
def oneNode (nodeId : UANodeId) : UAReadResponse :=
  ⟨0, [⟨if nodeId = .numeric 2 100 then 0 else 0x80340000, 0, 0, none, 0⟩], fun _ => none⟩

theorem onlyRead_iff_answered_oneNode :
    ∃ s done, PlcPoller.pollGroup ⟨true, true⟩ (.create 10 false) plcGroup
        (fun _ => ⟨⟨true⟩, oneNode, 0, []⟩) = some (s, done) ∧
      s.ReportsRead ⟨true, true⟩ (plcGroup.turns fun _ => ⟨⟨true⟩, oneNode, 0, []⟩) :=
  have ⟨⟨s, done⟩, h⟩ := Option.isSome_iff_exists.mp
    (show (PlcPoller.pollGroup ⟨true, true⟩ (.create 10 false) plcGroup
      fun _ => ⟨⟨true⟩, oneNode, 0, []⟩).isSome = true from rfl)
  ⟨s, done, h, ((onlyRead_iff_answered ⟨true⟩ oneNode 2 100 "Motor.Speed" "Speed" _ _ _ _).2.2
    s done h).mpr (by decide)⟩

/-- Without a connection a read gives a valid value; so does a good answer without a
result.  A poll without a connection counts every item and reports no error. -/
theorem not_onlyRead_disconnected :
    (∃ cv, PlcClient.readNode ⟨false⟩ oneNode 2 100 "Counter" = some cv ∧ cv.valid = true ∧
      ¬ PlcClient.GoodAnswer ⟨false⟩ (oneNode (.numeric 2 100))) ∧
    (∃ cv, PlcClient.readNodeString ⟨true⟩ (fun _ => ⟨0, [], fun _ => none⟩) 2 "Motor.Speed"
      "Speed" = some cv ∧ cv.valid = true ∧
      ¬ PlcClient.GoodAnswer ⟨true⟩ ⟨0, [], fun _ => none⟩) ∧
    (PlcPoller.pollGroup ⟨true, true⟩ (.create 10 false) plcGroup
        fun _ => ⟨⟨false⟩, oneNode, 0, []⟩).map (fun r => (r.1.ok, r.1.errors, r.2)) =
      some (2, [], [("plc", 2)]) ∧
    ∀ t ∈ plcGroup.turns fun _ => ⟨⟨false⟩, oneNode, 0, []⟩, ¬ WasRead t :=
  ⟨⟨_, rfl, rfl, by decide⟩, ⟨_, rfl, rfl, by decide⟩, rfl, by decide⟩

end Opencode.Opcua
