import Opencode.Lib.Recent
import Opencode.Opcua.CacheBound

/-!
# The most recently written keys

One thread puts values into a cache of constant size, and the clock moves between the
calls.  The cache then holds the most recently written keys, each with the value of its
last `put` and, as the version, the number of that `put`.

The eviction is a search for the smallest time stamp, so the invariant is about the time
stamps: along the recent keys, in the order of their last writes, they go up.  The least
recent key is then the one the search finds.

The version is a 64-bit number and starts again after `2 ^ 64` calls.

## Main definitions

* `lastPut`, `written` — the last `put` of a key, and what it stored.
* `NodeCache.Holds` — the invariant.
* `lookup_after_puts` — what the cache holds.
-/

namespace Opencode.Opcua

open Opencode.Lib

universe u
variable {ν : Type u}

/-- The last `put` of a key, with its number in the sequence. -/
def lastPut (puts : List (Put ν)) (key : NodeKey) : Option (Put ν × ℕ) :=
  (puts.zipIdx 1).reverse.find? fun x => x.1.key = key

/-- What the last `put` of a key stored. -/
def written (puts : List (Put ν)) (key : NodeKey) : Option (CachedValue ν) :=
  (lastPut puts key).map fun x =>
    { x.1.val with version := UInt64.ofNat x.2, updateTime := x.1.now }

theorem lastPut_concat (puts : List (Put ν)) (p : Put ν) (key : NodeKey) :
    lastPut (puts ++ [p]) key =
      if p.key = key then some (p, puts.length + 1) else lastPut puts key := by
  simp only [lastPut, List.zipIdx_append, List.reverse_append, List.zipIdx_cons, List.zipIdx_nil,
    List.reverse_singleton, List.singleton_append, List.find?_cons]
  by_cases h : p.key = key
  · simp [h, add_comm]
  · simp [h]

theorem written_concat (puts : List (Put ν)) (p : Put ν) (key : NodeKey) :
    written (puts ++ [p]) key =
      if p.key = key then
        some { p.val with version := UInt64.ofNat (puts.length + 1), updateTime := p.now }
      else written puts key := by
  rw [written, lastPut_concat]
  split <;> rfl

namespace NodeCache

/-- After some calls of `put`: the cache holds the recent keys with what was written under
them last, and the time stamps go up along them and are times of these calls. -/
structure Holds (m : ℕ) (puts : List (Put ν)) (c : NodeCache ν) : Prop where
  seq : c.seq = UInt64.ofNat puts.length
  maxSize : c.maxSize = m
  keys : c.data.keys.Perm (recent m (puts.map Put.key))
  lookup : ∀ key ∈ c.data, c.data.lookup key = written puts key
  times : (recent m (puts.map Put.key)).Pairwise fun a b => c.timeOf a < c.timeOf b
  clock : ∀ key ∈ c.data, ∃ p ∈ puts, c.timeOf key = p.now

variable {m : ℕ} {puts : List (Put ν)} {c : NodeCache ν} {p : Put ν}

theorem Holds.create (m : ℕ) (onChange : Bool) : Holds m [] (create m onChange : NodeCache ν) where
  seq := rfl
  maxSize := rfl
  keys := by simp [NodeCache.create]
  lookup := by simp [NodeCache.create]
  times := by simp
  clock := by simp [NodeCache.create]

theorem Holds.mem_recent (h : Holds m puts c) (key : NodeKey) :
    key ∈ recent m (puts.map Put.key) ↔ key ∈ c.data := by
  rw [← h.keys.mem_iff, AList.mem_keys]

theorem Holds.size_eq (h : Holds m puts c) : c.size = (recent m (puts.map Put.key)).length := by
  rw [size_eq_length_keys, h.keys.length_eq]

theorem Holds.stamped_eq (h : Holds m puts c) (p : Put ν) :
    c.seq + 1 = UInt64.ofNat (puts.length + 1) ∧
      c.stamped p =
        { p.val with version := UInt64.ofNat (puts.length + 1), updateTime := p.now } := by
  have hseq : c.seq + 1 = UInt64.ofNat (puts.length + 1) := by
    rw [h.seq, UInt64.ofNat_add]
    rfl
  exact ⟨hseq, by rw [← hseq]; rfl⟩

/-! ## A new value, next to some of the entries -/

section Insert

variable {data : AList fun _ : NodeKey => CachedValue ν} {key : NodeKey}

theorem timeOf_insert_self (c : NodeCache ν) (p : Put ν) (seq : UInt64) :
    timeOf { c with data := data.insert p.key (c.stamped p), seq } p.key = p.now := by
  rw [timeOf, AList.lookup_insert]
  rfl

/-- An entry that stays has the time it had. -/
theorem timeOf_insert_of_ne {seq : UInt64} (hne : key ≠ p.key)
    (hkept : data.lookup key = c.data.lookup key) :
    timeOf { c with data := data.insert p.key (c.stamped p), seq } key = c.timeOf key := by
  rw [timeOf, timeOf, AList.lookup_insert_ne hne, hkept]

variable (h : Holds m puts c) (hsub : ∀ key ∈ data, data.lookup key = c.data.lookup key)
include h hsub

omit h in
theorem mem_of_kept (hkey : key ∈ data) : key ∈ c.data := by
  rw [← AList.lookup_isSome, ← hsub key hkey]
  exact AList.lookup_isSome.mpr hkey

theorem Holds.lookup_insert (hkey : key ∈ data.insert p.key (c.stamped p)) :
    (data.insert p.key (c.stamped p)).lookup key = written (puts ++ [p]) key := by
  rw [written_concat]
  by_cases hne : p.key = key
  · subst hne
    rw [if_pos rfl, AList.lookup_insert, (h.stamped_eq p).2]
  · have hdata : key ∈ data := ((AList.mem_insert data).mp hkey).resolve_left (Ne.symm hne)
    rw [if_neg hne, AList.lookup_insert_ne (Ne.symm hne), hsub key hdata,
      h.lookup key (mem_of_kept hsub hdata)]

theorem Holds.clock_insert {seq : UInt64} (hkey : key ∈ data.insert p.key (c.stamped p)) :
    ∃ p' ∈ puts ++ [p],
      timeOf { c with data := data.insert p.key (c.stamped p), seq } key = p'.now := by
  by_cases hne : key = p.key
  · subst hne
    exact ⟨p, by simp, timeOf_insert_self c p seq⟩
  · have hdata : key ∈ data := ((AList.mem_insert data).mp hkey).resolve_left hne
    obtain ⟨p', hp', htime⟩ := h.clock key (mem_of_kept hsub hdata)
    exact ⟨p', List.mem_append_left _ hp',
      (timeOf_insert_of_ne hne (hsub key hdata)).trans htime⟩

/-- The new key has the latest time. -/
theorem Holds.times_insert (hnow : ∀ p' ∈ puts, p'.now < p.now) {seq : UInt64}
    {rest : List NodeKey} (hrest : rest.Sublist (recent m (puts.map Put.key)))
    (hkept : ∀ key ∈ rest, key ≠ p.key ∧ key ∈ data) :
    (rest ++ [p.key]).Pairwise fun a b =>
      timeOf { c with data := data.insert p.key (c.stamped p), seq } a <
        timeOf { c with data := data.insert p.key (c.stamped p), seq } b := by
  have htime : ∀ key ∈ rest,
      timeOf { c with data := data.insert p.key (c.stamped p), seq } key = c.timeOf key := by
    intro key hkey
    obtain ⟨hne, hdata⟩ := hkept key hkey
    exact timeOf_insert_of_ne hne (hsub key hdata)
  refine List.pairwise_append.mpr ⟨?_, List.pairwise_singleton _ _, ?_⟩
  · refine (h.times.sublist hrest).imp_of_mem fun {a b} ha hb hlt => ?_
    rwa [htime a ha, htime b hb]
  · intro a ha b hb
    obtain ⟨p', hp', hclock⟩ := h.clock a (mem_of_kept hsub (hkept a ha).2)
    rw [List.mem_singleton.mp hb, timeOf_insert_self, htime a ha, hclock]
    exact hnow p' hp'

/-- A new value is added to some of the entries, and its key comes last among the recent
keys, after the keys of these. -/
theorem Holds.insert (hnow : ∀ p' ∈ puts, p'.now < p.now) {rest : List NodeKey}
    (hrest : rest.Sublist (recent m (puts.map Put.key)))
    (hkeys : (data.keys.erase p.key).Perm rest)
    (hrecent : recent m ((puts ++ [p]).map Put.key) = rest ++ [p.key]) :
    Holds m (puts ++ [p])
      { c with data := data.insert p.key (c.stamped p), seq := c.seq + 1 } where
  seq := by
    rw [List.length_append, List.length_singleton]
    exact (h.stamped_eq p).1
  maxSize := h.maxSize
  keys := by
    rw [hrecent, AList.keys_insert]
    exact (hkeys.cons p.key).trans (List.perm_append_singleton _ _).symm
  lookup := fun key hkey => h.lookup_insert hsub hkey
  times := by
    rw [hrecent]
    refine h.times_insert hsub hnow hrest fun key hkey => ?_
    have hkey' : key ∈ data.keys.erase p.key := hkeys.mem_iff.mpr hkey
    exact (data.keys_nodup.mem_erase_iff).mp hkey'
  clock := fun key hkey => h.clock_insert hsub hkey

end Insert

/-- The entry the eviction takes is the least recent key. -/
theorem Holds.oldest_eq (h : Holds m puts c) {victim : NodeKey} (hmem : victim ∈ c.data.keys)
    (hle : ∀ k ∈ c.data.keys, c.timeOf victim ≤ c.timeOf k) :
    recent m (puts.map Put.key) = victim :: (recent m (puts.map Put.key)).tail := by
  have htimes := h.times
  have hvictim : victim ∈ recent m (puts.map Put.key) := h.keys.mem_iff.mp hmem
  cases hrecent : recent m (puts.map Put.key) with
  | nil => simp [hrecent] at hvictim
  | cons a l =>
      rw [hrecent] at htimes hvictim
      obtain rfl | hl := List.mem_cons.mp hvictim
      · rfl
      · have ha : a ∈ c.data.keys := h.keys.mem_iff.mpr (by simp [hrecent])
        have hlt := (List.pairwise_cons.mp htimes).1 victim hl
        exact absurd hlt (hle a ha).not_gt

variable [Inhabited ν]

/-- One more `put`, later than the others. -/
theorem Holds.step_put {n : ℕ} (h : Holds (n + 1) puts c) (hnow : ∀ p' ∈ puts, p'.now < p.now) :
    ∃ c', c.step (.put p) = some c' ∧ Holds (n + 1) (puts ++ [p]) c' := by
  have hmap : (puts ++ [p]).map Put.key = puts.map Put.key ++ [p.key] := by simp
  by_cases hhas : c.has p.key
  · have hmem := (h.mem_recent p.key).mpr hhas
    refine ⟨_, step_put_of_mem hhas, h.insert (fun _ _ => rfl) hnow List.erase_sublist
      (h.keys.erase p.key) ?_⟩
    rw [hmap, recent_concat_of_mem hmem]
  · have hmem := mt (h.mem_recent p.key).mp hhas
    have herase : c.data.keys.erase p.key = c.data.keys :=
      List.erase_of_not_mem fun hkey => hhas (AList.mem_keys.mpr hkey)
    have hsize := h.size_eq
    have hmax := h.maxSize
    rcases (length_recent_le (n + 1) (puts.map Put.key)).lt_or_eq with hlt | hfull
    · refine ⟨_, step_put_of_lt hhas (by omega), h.insert (fun _ _ => rfl) hnow
        (List.Sublist.refl _) (by rw [herase]; exact h.keys) ?_⟩
      rw [hmap, recent_concat_of_lt hmem hlt]
    · obtain ⟨victim, hvictim, hle, hstep⟩ :=
        step_put_of_full (p := p) hhas (by omega) (by omega)
      have hrecent := h.oldest_eq hvictim hle
      refine ⟨_, hstep, h.insert (fun key hkey => ?_) hnow (List.tail_sublist _) ?_ ?_⟩
      · exact AList.lookup_erase_ne (AList.mem_erase.mp hkey).1
      · rw [AList.keys_erase, List.erase_comm, herase]
        have hperm := h.keys.erase victim
        rwa [hrecent, List.erase_cons_head] at hperm
      · rw [hmap, recent_concat_of_full hmem hfull]

/-- The invariant after a sequence of calls at increasing times. -/
theorem holds_puts (n : ℕ) (onChange : Bool) (puts : List (Put ν))
    (hclock : (puts.map Put.now).Pairwise (· < ·)) :
    ∃ c, run step (NodeCache.create (n + 1) onChange : NodeCache ν)
        (puts.map CacheCall.put) = some c ∧ Holds (n + 1) puts c := by
  induction puts using List.reverseRecOn with
  | nil => exact ⟨_, rfl, Holds.create (n + 1) onChange⟩
  | append_singleton puts p ih =>
      rw [List.map_append, List.pairwise_append] at hclock
      obtain ⟨hbefore, -, hlast⟩ := hclock
      obtain ⟨c, hrun, hholds⟩ := ih hbefore
      have hnow : ∀ p' ∈ puts, p'.now < p.now :=
        fun p' hp' => hlast p'.now (List.mem_map_of_mem hp') p.now (by simp)
      obtain ⟨c', hstep, hholds'⟩ := hholds.step_put hnow
      refine ⟨c', ?_, hholds'⟩
      rw [List.map_append, run_append, hrun]
      simp [hstep]

/-- **The cache keeps the most recently written keys**, each with the value of its last
`put` and the number of that `put` as version, and overwriting evicts nothing. -/
theorem lookup_after_puts {m : ℕ} (hm : 1 ≤ m) (onChange : Bool) (puts : List (Put ν))
    (hclock : (puts.map Put.now).Pairwise (· < ·)) :
    ∃ c, run step (NodeCache.create m onChange : NodeCache ν) (puts.map CacheCall.put) = some c ∧
      (∀ key, c.data.lookup key =
        if key ∈ recent m (puts.map Put.key) then written puts key else none) ∧
      ∀ p, c.has p.key → ∃ c', c.step (.put p) = some c' ∧ ∀ key, c'.has key ↔ c.has key := by
  obtain ⟨n, rfl⟩ := Nat.exists_eq_add_of_le' hm
  obtain ⟨c, hrun, hholds⟩ := holds_puts n onChange puts hclock
  refine ⟨c, hrun, fun key => ?_, fun p hp => ⟨_, step_put_of_mem hp, fun key => ?_⟩⟩
  · split
    case isTrue h => exact hholds.lookup key ((hholds.mem_recent key).mp h)
    case isFalse h => exact AList.lookup_eq_none.mpr (mt (hholds.mem_recent key).mpr h)
  · rw [has, has, AList.mem_insert]
    exact or_iff_right_of_imp fun h => h ▸ hp

/-- Two keys fit; the first one is written again, so the third pushes out the second. -/
theorem lookup_after_four_puts :
    ∃ c, run step (NodeCache.create 2 false : NodeCache Unit)
        ([.plain ⟨0, "a"⟩ .empty 1, .plain ⟨0, "b"⟩ .empty 2, .plain ⟨0, "a"⟩ .empty 3,
          .plain ⟨0, "c"⟩ .empty 4].map CacheCall.put) = some c ∧
      c.getVersion ⟨0, "a"⟩ = 3 ∧ c.data.lookup ⟨0, "b"⟩ = none ∧
      c.getVersion ⟨0, "c"⟩ = 4 := by
  obtain ⟨c, hrun, hlookup, -⟩ := lookup_after_puts (m := 2) (by decide) false
    [Put.plain ⟨0, "a"⟩ (.empty : CachedValue Unit) 1, .plain ⟨0, "b"⟩ .empty 2,
      .plain ⟨0, "a"⟩ .empty 3, .plain ⟨0, "c"⟩ .empty 4] (by decide)
  refine ⟨c, hrun, ?_, ?_, ?_⟩
  · rw [getVersion, hlookup]
    decide +kernel
  · rw [hlookup]
    decide +kernel
  · rw [getVersion, hlookup]
    decide +kernel

/-! ## The version starts again -/

/-- One key is written again and again. -/
def samePuts (n : ℕ) : List (Put Unit) :=
  (List.range n).map fun i : ℕ => .plain ⟨0, "a"⟩ .empty i

/-- When the counter is round, the version is not the number of the `put`. -/
theorem version_ne_of_round {n : ℕ} (hround : UInt64.ofNat (n + 1) = 0) :
    ¬ ∀ puts : List (Put Unit), (puts.map Put.now).Pairwise (· < ·) →
      ∀ c, run step (NodeCache.create 1 false : NodeCache Unit) (puts.map CacheCall.put) = some c →
        ∀ key v, c.data.lookup key = some v →
          ∃ p, lastPut puts key = some (p, v.version.toNat) := by
  intro h
  have hclock : ((samePuts (n + 1)).map Put.now).Pairwise (· < ·) := by
    rw [samePuts, List.map_map, List.pairwise_map]
    exact List.pairwise_lt_range.imp fun hab => Int.ofNat_lt.mpr hab
  have hsame : samePuts (n + 1) = samePuts n ++ [Put.plain ⟨0, "a"⟩ .empty n] := by
    simp [samePuts, List.range_succ]
  obtain ⟨c, hrun, hholds⟩ := holds_puts 0 false (samePuts (n + 1)) hclock
  have hlen : (samePuts n).length = n := by simp [samePuts]
  have hmem : (⟨0, "a"⟩ : NodeKey) ∈ c.data := by
    rw [← hholds.mem_recent, hsame, List.map_append, List.map_singleton, recent_concat]
    simp [Put.plain]
  have hlookup := hholds.lookup _ hmem
  rw [hsame, written_concat, hlen] at hlookup
  obtain ⟨p, hp⟩ := h _ hclock c hrun _ _ hlookup
  rw [hsame, lastPut_concat, hlen] at hp
  simp [Put.plain, hround] at hp

/-- After `2 ^ 64` calls the version is `0`. -/
theorem version_ne_of_wrap :
    ¬ ∀ puts : List (Put Unit), (puts.map Put.now).Pairwise (· < ·) →
      ∀ c, run step (NodeCache.create 1 false : NodeCache Unit) (puts.map CacheCall.put) = some c →
        ∀ key v, c.data.lookup key = some v →
          ∃ p, lastPut puts key = some (p, v.version.toNat) :=
  version_ne_of_round (n := 2 ^ 64 - 1) (by decide)

end NodeCache
end Opencode.Opcua
