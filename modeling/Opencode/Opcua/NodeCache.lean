import Mathlib

/-!
# The node cache

`NodeCache` keeps the last value read for each node, bounded by `maxSize`.  A `put`
draws a version and a time stamp before it takes the lock, and stores under the
lock; the two parts are `draw` and `putLocked`, and `put` runs one after the other.

The map of the source is a hash map, and the eviction loop visits it in the map's
own order.  That order is unspecified, so `putLocked` is given the visiting order as
an argument.  On an empty map the loop has nothing to visit and the source erases
`end()`; that is undefined behaviour and the result is `none`.

## Main definitions

* `NodeKey`, `CachedValue`, `NodeCache` — the data.
* `NodeCache.draw`, `NodeCache.putLocked`, `NodeCache.put` — a write.
* `NodeCache.remove`, `NodeCache.clear`, `NodeCache.setMaxSize`, `NodeCache.getVersion`,
  `NodeCache.size` — the rest.
-/

namespace Opencode.Opcua

universe u

/-- The address a value is cached under. -/
structure NodeKey where
  ns : UInt32
  id : String
  deriving DecidableEq, Repr

/-- A cached value; `ν` is the parsed content. -/
structure CachedValue (ν : Type u) where
  parsed : ν
  rawBytes : List UInt8
  statusCode : UInt32
  serverTs : UInt64
  sourceTs : UInt64
  version : UInt64
  updateTime : ℤ
  deriving DecidableEq

/-- `CachedValue empty;` with its member initialisers. -/
def CachedValue.empty {ν : Type u} [Inhabited ν] : CachedValue ν :=
  ⟨default, [], 0, 0, 0, 0, 0⟩

/-- One call of the change callback. -/
structure Change (ν : Type u) where
  key : NodeKey
  old : CachedValue ν
  new : CachedValue ν

/-- The cache: its map, its bound, whether a change callback is set, and the
version counter. -/
structure NodeCache (ν : Type u) where
  data : AList fun _ : NodeKey => CachedValue ν
  maxSize : ℕ
  onChange : Bool
  seq : UInt64

namespace NodeCache

variable {ν : Type u}

/-- The constructor. -/
def create (maxSize : ℕ) (onChange : Bool) : NodeCache ν := ⟨∅, maxSize, onChange, 0⟩

def has (c : NodeCache ν) (key : NodeKey) : Prop := key ∈ c.data

instance (c : NodeCache ν) (key : NodeKey) : Decidable (c.has key) :=
  decidable_of_iff _ (AList.lookup_isSome (s := c.data))

/-- The version under a key, `0` when there is none. -/
def getVersion (c : NodeCache ν) (key : NodeKey) : UInt64 :=
  match c.data.lookup key with
  | some v => v.version
  | none => 0

/-- `val.version = ++seq_` and the clock: what a `put` does before the lock. -/
def draw (c : NodeCache ν) (val : CachedValue ν) (now : ℤ) : CachedValue ν × NodeCache ν :=
  let seq := c.seq + 1
  ({ val with version := seq, updateTime := now }, { c with seq := seq })

/-- The time stamp the eviction loop compares. -/
def timeOf (c : NodeCache ν) (key : NodeKey) : ℤ :=
  match c.data.lookup key with
  | some v => v.updateTime
  | none => 0

/-- The eviction loop: the first of the oldest entries in the visiting order. -/
def oldest (c : NodeCache ν) : List NodeKey → Option NodeKey
  | [] => none
  | k :: ks => some (ks.foldl (fun o k' => if c.timeOf k' < c.timeOf o then k' else o) k)

/-- The map with one entry less when it is full. -/
def makeRoom (c : NodeCache ν) (order : List NodeKey) :
    Option (AList fun _ : NodeKey => CachedValue ν) :=
  if c.maxSize ≤ c.data.entries.length then (c.oldest order).map c.data.erase else some c.data

/-- The section of `put` under the lock, with the calls of the change callback. -/
def putLocked [Inhabited ν] (c : NodeCache ν) (key : NodeKey) (val : CachedValue ν)
    (order : List NodeKey) : Option (NodeCache ν × List (Change ν)) :=
  match c.data.lookup key with
  | some old =>
      some ({ c with data := c.data.insert key val },
        if c.onChange then [⟨key, old, val⟩] else [])
  | none =>
      (c.makeRoom order).map fun data =>
        ({ c with data := data.insert key val },
          if c.onChange then [⟨key, .empty, val⟩] else [])

/-- A whole `put` by one thread. -/
def put [Inhabited ν] (c : NodeCache ν) (key : NodeKey) (val : CachedValue ν) (now : ℤ)
    (order : List NodeKey) : Option (NodeCache ν × List (Change ν)) :=
  let (val, c) := c.draw val now
  c.putLocked key val order

def remove (c : NodeCache ν) (key : NodeKey) : NodeCache ν :=
  { c with data := c.data.erase key }

def clear (c : NodeCache ν) : NodeCache ν := { c with data := ∅ }

def size (c : NodeCache ν) : ℕ := c.data.entries.length

/-- The bound moves and the entries stay, however many they are. -/
def setMaxSize (c : NodeCache ν) (maxSize : ℕ) : NodeCache ν := { c with maxSize := maxSize }

/-! ## What the locked section does -/

theorem getVersion_of_lookup {c : NodeCache ν} {key : NodeKey} {v : CachedValue ν}
    (h : c.data.lookup key = some v) : c.getVersion key = v.version := by
  simp [getVersion, h]

theorem lookup_of_lookup_remove {c : NodeCache ν} {key k : NodeKey} {v : CachedValue ν}
    (h : (c.remove key).data.lookup k = some v) : c.data.lookup k = some v := by
  by_cases hk : k = key
  · rw [hk, remove, AList.lookup_erase] at h
    cases h
  · rwa [remove, AList.lookup_erase_ne hk] at h

/-- Making room drops entries and changes none. -/
theorem lookup_of_makeRoom {c : NodeCache ν} {order : List NodeKey}
    {data : AList fun _ : NodeKey => CachedValue ν} (h : c.makeRoom order = some data)
    {k : NodeKey} {v : CachedValue ν} (hv : data.lookup k = some v) :
    c.data.lookup k = some v := by
  unfold makeRoom at h
  split at h
  · obtain ⟨victim, -, rfl⟩ := Option.map_eq_some_iff.mp h
    have hv' : (c.remove victim).data.lookup k = some v := hv
    exact lookup_of_lookup_remove hv'
  · cases h
    exact hv

/-- **The locked section.**  It keeps the counter, files the value under its key, adds
nothing else, and reports that one change. -/
theorem putLocked_spec [Inhabited ν] {c c' : NodeCache ν} {key : NodeKey}
    {val : CachedValue ν} {order : List NodeKey} {chs : List (Change ν)}
    (h : c.putLocked key val order = some (c', chs)) :
    c'.seq = c.seq ∧ c'.data.lookup key = some val ∧
      (∀ k v, k ≠ key → c'.data.lookup k = some v → c.data.lookup k = some v) ∧
      ∀ ch ∈ chs, ch.key = key ∧ ch.new = val ∧
        ∀ old, c.data.lookup key = some old → ch.old = old := by
  cases hold : c.data.lookup key with
  | some old =>
      simp only [putLocked, hold, Option.some.injEq, Prod.mk.injEq] at h
      obtain ⟨rfl, rfl⟩ := h
      refine ⟨rfl, by simp, ?_, ?_⟩
      · intro k v hk hv
        rwa [AList.lookup_insert_ne hk] at hv
      · intro ch hch
        split at hch
        · obtain rfl := List.mem_singleton.mp hch
          exact ⟨rfl, rfl, fun old' h' => Option.some.inj h'⟩
        · cases hch
  | none =>
      simp only [putLocked, hold, Option.map_eq_some_iff, Prod.mk.injEq] at h
      obtain ⟨data, hdata, rfl, rfl⟩ := h
      refine ⟨rfl, by simp, ?_, ?_⟩
      · intro k v hk hv
        rw [AList.lookup_insert_ne hk] at hv
        exact lookup_of_makeRoom hdata hv
      · intro ch hch
        split at hch
        · obtain rfl := List.mem_singleton.mp hch
          exact ⟨rfl, rfl, fun old' h' => by cases h'⟩
        · cases hch

end NodeCache
end Opencode.Opcua
