import Opencode.Lib.Run
import Opencode.Opcua.NodeCache

/-!
# Concurrent writers of the node cache

Any number of threads call `put`, and each call is two steps: it draws its version
outside the lock and stores under it.  Between the two, another writer of the same
key can draw a later version and store first.  This module runs the two steps of
every call, `remove` and `clear` in any order, and proves that versions go forward
exactly when no writer is overtaken in this way.

The ghost fields number the draws: `drawn` counts them, a call in flight carries the
number of its own draw, and `writer` remembers for each key the draw whose value was
stored last.  As long as the 64-bit counter does not wrap, versions are these
numbers.

## Main definitions

* `Writers`, `Writers.step` — the cache and the calls in flight.
* `Writers.GoesForward` — what a step has to keep.
* `Writers.Overtaken` — the step that stores behind a later writer.
-/

namespace Opencode.Opcua

open Opencode.Lib

universe u

/-- A `put` that has drawn its version and has not stored yet. -/
structure InFlight (ν : Type u) where
  ticket : ℕ
  key : NodeKey
  val : CachedValue ν

/-- The cache, the calls in flight, and the ghost numbering of the draws. -/
structure Writers (ν : Type u) where
  cache : NodeCache ν
  inFlight : List (InFlight ν)
  drawn : ℕ
  writer : NodeKey → ℕ

/-- The atomic steps of the threads. -/
inductive CacheStep (ν : Type u)
  /-- A `put` draws its version and reads the clock. -/
  | draw (key : NodeKey) (val : CachedValue ν) (now : ℤ)
  /-- The `i`-th call in flight takes the lock and stores; the eviction loop would
  visit the map in the given order. -/
  | store (i : ℕ) (order : List NodeKey)
  | remove (key : NodeKey)
  | clear

/-- Whether the step is the first half of a `put`. -/
def CacheStep.isDraw {ν : Type u} : CacheStep ν → Bool
  | .draw _ _ _ => true
  | _ => false

namespace Writers

variable {ν : Type u} [Inhabited ν]

/-- A new cache with no call in flight. -/
def start (maxSize : ℕ) (onChange : Bool) : Writers ν :=
  ⟨NodeCache.create maxSize onChange, [], 0, fun _ => 0⟩

/-- One atomic step, with the calls of the change callback it makes. -/
def stepWith (s : Writers ν) : CacheStep ν → Option (Writers ν × List (Change ν))
  | .draw key val now =>
      let (val, cache) := s.cache.draw val now
      some ({ s with
        cache := cache
        inFlight := s.inFlight ++ [⟨s.drawn + 1, key, val⟩]
        drawn := s.drawn + 1 }, [])
  | .store i order =>
      match s.inFlight[i]? with
      | none => none
      | some p =>
          if order.Perm s.cache.data.keys then
            (s.cache.putLocked p.key p.val order).map fun r =>
              ({ s with
                cache := r.1
                inFlight := s.inFlight.eraseIdx i
                writer := Function.update s.writer p.key p.ticket }, r.2)
          else none
  | .remove key => some ({ s with cache := s.cache.remove key }, [])
  | .clear => some ({ s with cache := s.cache.clear }, [])

def step (s : Writers ν) (a : CacheStep ν) : Option (Writers ν) := (s.stepWith a).map Prod.fst

/-- No version of a key that stays goes down, and every change callback for a key
that was present sees a later version. -/
def Forward (c c' : NodeCache ν) (chs : List (Change ν)) : Prop :=
  (∀ k, c.has k → c'.has k → c.getVersion k ≤ c'.getVersion k) ∧
  ∀ ch ∈ chs, c.has ch.key → ch.old.version < ch.new.version

/-- The step takes the cache forward. -/
def GoesForward (s : Writers ν) (a : CacheStep ν) : Prop :=
  ∀ t chs, s.stepWith a = some (t, chs) → Forward s.cache t.cache chs

/-- The step stores a value although the entry it replaces was written by a `put`
that drew its version later. -/
def Overtaken (s : Writers ν) : CacheStep ν → Prop
  | .store i _ => ∃ p, s.inFlight[i]? = some p ∧ s.cache.has p.key ∧ p.ticket < s.writer p.key
  | _ => False

instance (s : Writers ν) : ∀ a : CacheStep ν, Decidable (Overtaken s a)
  | .store i _ =>
      match h : s.inFlight[i]? with
      | some p =>
          decidable_of_iff (s.cache.has p.key ∧ p.ticket < s.writer p.key) (by simp [Overtaken, h])
      | none => .isFalse (by simp [Overtaken, h])
  | .draw _ _ _ | .remove _ | .clear => .isFalse id

/-- The versions in the cache and in flight are the numbers of their draws. -/
structure Numbered (s : Writers ν) : Prop where
  seq : s.cache.seq.toNat = s.drawn
  flight : ∀ p ∈ s.inFlight, p.val.version.toNat = p.ticket ∧ p.ticket ≤ s.drawn
  nodup : (s.inFlight.map InFlight.ticket).Nodup
  stored : ∀ k v, s.cache.data.lookup k = some v →
    v.version.toNat = s.writer k ∧ s.writer k ≤ s.drawn
  apart : ∀ k, s.cache.has k → ∀ p ∈ s.inFlight, p.ticket ≠ s.writer k

/-! ## One step -/

omit [Inhabited ν] in
theorem numbered_start (maxSize : ℕ) (onChange : Bool) :
    Numbered (start maxSize onChange : Writers ν) where
  seq := rfl
  flight := by simp [start]
  nodup := by simp [start]
  stored := by simp [start, NodeCache.create]
  apart := by simp [start]

omit [Inhabited ν] in
/-- Dropping entries keeps the numbering. -/
theorem Numbered.of_lookup_sub {s : Writers ν} {c : NodeCache ν} (h : Numbered s)
    (hseq : c.seq = s.cache.seq)
    (hsub : ∀ k v, c.data.lookup k = some v → s.cache.data.lookup k = some v) :
    Numbered { s with cache := c } where
  seq := by rw [← h.seq, ← hseq]
  flight := h.flight
  nodup := h.nodup
  stored := fun k v hv => h.stored k v (hsub k v hv)
  apart := by
    intro k hk
    obtain ⟨v, hv⟩ := Option.isSome_iff_exists.mp (AList.lookup_isSome.mpr hk)
    exact h.apart k (AList.lookup_isSome.mp (by simp [hsub k v hv]))

omit [Inhabited ν] in
/-- Storing a call in flight makes it the writer of its key. -/
theorem Numbered.of_store {s : Writers ν} {i : ℕ} {p : InFlight ν} {c : NodeCache ν}
    (h : Numbered s) (hp : s.inFlight[i]? = some p) (hseq : c.seq = s.cache.seq)
    (hkey : c.data.lookup p.key = some p.val)
    (hsub : ∀ k v, k ≠ p.key → c.data.lookup k = some v → s.cache.data.lookup k = some v) :
    Numbered { s with
      cache := c
      inFlight := s.inFlight.eraseIdx i
      writer := Function.update s.writer p.key p.ticket } := by
  have hmem : p ∈ s.inFlight := List.mem_of_getElem? hp
  -- The ticket that leaves does not occur among those that stay.
  have hgone : ∀ q ∈ s.inFlight.eraseIdx i, q.ticket ≠ p.ticket := by
    intro q hq heq
    obtain ⟨j, hj, hjq⟩ := List.mem_eraseIdx_iff_getElem?.mp hq
    have hj' : (s.inFlight.map InFlight.ticket)[j]? = some p.ticket := by simp [hjq, heq]
    have hi' : (s.inFlight.map InFlight.ticket)[i]? = some p.ticket := by simp [hp]
    exact hj ((List.getElem?_inj (by simpa using (List.getElem?_eq_some_iff.mp hjq).1)
      h.nodup).mp (hj'.trans hi'.symm))
  refine ⟨by rw [← h.seq, ← hseq], ?_, ?_, ?_, ?_⟩
  · intro q hq
    exact h.flight q (List.mem_of_mem_eraseIdx hq)
  · exact h.nodup.sublist ((List.eraseIdx_sublist _ _).map _)
  · intro k v hv
    by_cases hk : k = p.key
    · subst hk
      obtain rfl : p.val = v := by simpa [hkey] using hv
      simpa using h.flight p hmem
    · simpa [hk] using h.stored k v (hsub k v hk hv)
  · intro k hk q hq
    by_cases hkp : k = p.key
    · subst hkp
      simpa using hgone q hq
    · obtain ⟨v, hv⟩ := Option.isSome_iff_exists.mp (AList.lookup_isSome.mpr hk)
      have hk' : s.cache.has k := AList.lookup_isSome.mp (by simp [hsub k v hkp hv])
      simpa [hkp] using h.apart k hk' q (List.mem_of_mem_eraseIdx hq)

theorem stepWith_store {s t : Writers ν} {i : ℕ} {order : List NodeKey}
    {chs : List (Change ν)} (h : s.stepWith (.store i order) = some (t, chs)) :
    ∃ p c, s.inFlight[i]? = some p ∧ s.cache.putLocked p.key p.val order = some (c, chs) ∧
      t = { s with
        cache := c
        inFlight := s.inFlight.eraseIdx i
        writer := Function.update s.writer p.key p.ticket } := by
  cases hp : s.inFlight[i]? with
  | none => simp [stepWith, hp] at h
  | some p =>
      simp only [stepWith, hp] at h
      split at h
      · obtain ⟨⟨c, chs'⟩, hput, heq⟩ := Option.map_eq_some_iff.mp h
        cases heq
        exact ⟨p, c, rfl, hput, rfl⟩
      · cases h

/-- Every step of a run that does not wrap the counter keeps the numbering. -/
theorem numbered_step {s t : Writers ν} {a : CacheStep ν} (h : Numbered s)
    (hd : s.drawn + (if a.isDraw then 1 else 0) < 2 ^ 64) (hstep : s.step a = some t) :
    Numbered t := by
  obtain ⟨⟨t', chs⟩, hs, rfl⟩ := Option.map_eq_some_iff.mp hstep
  cases a with
  | draw key val now =>
      cases hs
      have hseq : (s.cache.seq + 1).toNat = s.drawn + 1 := by
        rw [UInt64.toNat_add, h.seq]
        exact Nat.mod_eq_of_lt hd
      refine ⟨hseq, ?_, ?_, ?_, ?_⟩
      · intro p hp
        rcases List.mem_append.mp hp with hp | hp
        · exact ⟨(h.flight p hp).1, Nat.le_succ_of_le (h.flight p hp).2⟩
        · obtain rfl := List.mem_singleton.mp hp
          exact ⟨hseq, le_rfl⟩
      · rw [List.map_append, List.nodup_append]
        refine ⟨h.nodup, by simp, ?_⟩
        intro x hx y hy
        obtain ⟨p, hp, rfl⟩ := List.mem_map.mp hx
        obtain rfl : y = s.drawn + 1 := by simpa using hy
        have := (h.flight p hp).2
        omega
      · intro k v hv
        exact ⟨(h.stored k v hv).1, Nat.le_succ_of_le (h.stored k v hv).2⟩
      · intro k hk p hp
        rcases List.mem_append.mp hp with hp | hp
        · exact h.apart k hk p hp
        · obtain rfl := List.mem_singleton.mp hp
          obtain ⟨v, hv⟩ := Option.isSome_iff_exists.mp (AList.lookup_isSome.mpr hk)
          have := (h.stored k v hv).2
          simp only
          omega
  | store i order =>
      obtain ⟨p, c, hp, hput, rfl⟩ := stepWith_store hs
      obtain ⟨hseq, hkey, hsub, -⟩ := NodeCache.putLocked_spec hput
      exact h.of_store hp hseq hkey hsub
  | remove key =>
      cases hs
      exact h.of_lookup_sub rfl fun k v hv => NodeCache.lookup_of_lookup_remove hv
  | clear =>
      cases hs
      exact h.of_lookup_sub rfl (by simp [NodeCache.clear])

omit [Inhabited ν] in
/-- A step that only drops entries goes forward. -/
theorem forward_of_lookup_sub {c c' : NodeCache ν}
    (hsub : ∀ k v, c'.data.lookup k = some v → c.data.lookup k = some v) :
    Forward c c' [] := by
  refine ⟨?_, by simp⟩
  intro k _ hk
  obtain ⟨v, hv⟩ := Option.isSome_iff_exists.mp (AList.lookup_isSome.mpr hk)
  rw [NodeCache.getVersion_of_lookup hv, NodeCache.getVersion_of_lookup (hsub k v hv)]
  exact UInt64.le_refl _

/-- A store goes forward exactly when the entry it replaces, if any, is older. -/
theorem forward_putLocked_iff {c c' : NodeCache ν} {key : NodeKey} {val : CachedValue ν}
    {order : List NodeKey} {chs : List (Change ν)}
    (hput : c.putLocked key val order = some (c', chs))
    (hne : ∀ old, c.data.lookup key = some old → old.version ≠ val.version) :
    Forward c c' chs ↔ ∀ old, c.data.lookup key = some old → old.version < val.version := by
  obtain ⟨-, hkey, hsub, hchs⟩ := NodeCache.putLocked_spec hput
  have hhas' : c'.has key := AList.lookup_isSome.mp (by simp [hkey])
  constructor
  · intro hf old hold
    have hhas : c.has key := AList.lookup_isSome.mp (by simp [hold])
    have hle := hf.1 key hhas hhas'
    rw [NodeCache.getVersion_of_lookup hold, NodeCache.getVersion_of_lookup hkey] at hle
    exact UInt64.lt_of_le_of_ne hle (hne old hold)
  · intro hlt
    constructor
    · intro k hk hk'
      by_cases hkk : k = key
      · subst hkk
        obtain ⟨old, hold⟩ := Option.isSome_iff_exists.mp (AList.lookup_isSome.mpr hk)
        rw [NodeCache.getVersion_of_lookup hold, NodeCache.getVersion_of_lookup hkey]
        exact UInt64.le_of_lt (hlt old hold)
      · obtain ⟨v, hv⟩ := Option.isSome_iff_exists.mp (AList.lookup_isSome.mpr hk')
        rw [NodeCache.getVersion_of_lookup hv,
          NodeCache.getVersion_of_lookup (hsub k v hkk hv)]
        exact UInt64.le_refl _
    · intro ch hch hhas
      obtain ⟨hk, hnew, hold⟩ := hchs ch hch
      rw [hk] at hhas
      obtain ⟨old, ho⟩ := Option.isSome_iff_exists.mp (AList.lookup_isSome.mpr hhas)
      rw [hold old ho, hnew]
      exact hlt old ho

/-- **One step goes forward exactly when it is not overtaken.** -/
theorem goesForward_iff {s t : Writers ν} {a : CacheStep ν} (h : Numbered s)
    (hstep : s.step a = some t) : GoesForward s a ↔ ¬ Overtaken s a := by
  cases a with
  | draw key val now =>
      refine iff_of_true ?_ id
      rintro t chs ⟨⟩
      exact forward_of_lookup_sub fun _ _ hv => hv
  | remove key =>
      refine iff_of_true ?_ id
      rintro t chs ⟨⟩
      exact forward_of_lookup_sub fun _ _ hv => NodeCache.lookup_of_lookup_remove hv
  | clear =>
      refine iff_of_true ?_ id
      rintro t chs ⟨⟩
      exact forward_of_lookup_sub (by simp [NodeCache.clear])
  | store i order =>
      obtain ⟨⟨t', chs⟩, hs, rfl⟩ := Option.map_eq_some_iff.mp hstep
      obtain ⟨p, c, hp, hput, rfl⟩ := stepWith_store hs
      have hmem : p ∈ s.inFlight := List.mem_of_getElem? hp
      have hver := (h.flight p hmem).1
      have hapart : ∀ old, s.cache.data.lookup p.key = some old → p.ticket ≠ s.writer p.key :=
        fun old hold => h.apart p.key (AList.lookup_isSome.mp (by simp [hold])) p hmem
      have hfwd : GoesForward s (.store i order) ↔ Forward s.cache c chs := by
        simp [GoesForward, hs]
      rw [hfwd, forward_putLocked_iff hput]
      · constructor
        · rintro hlt ⟨q, hq, hhas, hover⟩
          obtain rfl : p = q := by simpa [hp] using hq
          obtain ⟨old, hold⟩ := Option.isSome_iff_exists.mp (AList.lookup_isSome.mpr hhas)
          have := UInt64.lt_iff_toNat_lt.mp (hlt old hold)
          rw [(h.stored p.key old hold).1, hver] at this
          omega
        · intro hover old hold
          have hhas : s.cache.has p.key := AList.lookup_isSome.mp (by simp [hold])
          rw [UInt64.lt_iff_toNat_lt, (h.stored p.key old hold).1, hver]
          have h1 : ¬ p.ticket < s.writer p.key := fun hlt => hover ⟨p, hp, hhas, hlt⟩
          have h2 := hapart old hold
          omega
      · intro old hold heq
        have := congrArg UInt64.toNat heq
        rw [(h.stored p.key old hold).1, hver] at this
        exact hapart old hold this.symm

/-! ## Whole runs -/

theorem drawn_step {s t : Writers ν} {a : CacheStep ν} (h : s.step a = some t) :
    t.drawn = s.drawn + if a.isDraw then 1 else 0 := by
  obtain ⟨⟨t', chs⟩, hs, rfl⟩ := Option.map_eq_some_iff.mp h
  cases a with
  | store i order =>
      obtain ⟨p, c, -, -, rfl⟩ := stepWith_store hs
      rfl
  | _ => cases hs; rfl

/-- A run with fewer than `2 ^ 64` calls of `put` never wraps the counter. -/
theorem along_drawn {s : Writers ν} {ls : List (CacheStep ν)}
    (h : s.drawn + ls.countP CacheStep.isDraw < 2 ^ 64) :
    Along step (fun s a => s.drawn + (if a.isDraw then 1 else 0) < 2 ^ 64) s ls := by
  induction ls generalizing s with
  | nil => trivial
  | cons a ls ih =>
      intro t ht
      have hd := drawn_step ht
      rw [List.countP_cons] at h
      exact ⟨by omega, ih (by omega)⟩

/-- **Versions go forward, exactly.**  On a new cache and over any interleaving with
fewer than `2 ^ 64` calls of `put`, every step goes forward exactly when no `put`
stores over the value of one that drew its version later. -/
theorem versions_forward_iff (maxSize : ℕ) (onChange : Bool) (ls : List (CacheStep ν))
    (hfew : ls.countP CacheStep.isDraw < 2 ^ 64) :
    Along step GoesForward (start maxSize onChange : Writers ν) ls ↔
      Along step (fun s a => ¬ Overtaken s a) (start maxSize onChange) ls := by
  have hdrawn : (start maxSize onChange : Writers ν).drawn + ls.countP CacheStep.isDraw < 2 ^ 64 := by
    simpa [start] using hfew
  exact along_congr (fun _ _ _ hs hd ht => numbered_step hs hd ht)
    (fun _ _ _ hs _ ht => goesForward_iff hs ht) (numbered_start maxSize onChange)
    (along_drawn hdrawn)

private def temperature : NodeKey := ⟨1, "TempSensor"⟩

private def reading (n : ℕ) : CachedValue ℕ := ⟨n, [], 0, 0, 0, 0, 0⟩

/-- Two writers of one key: the first to draw stores last, and the version goes from
two back to one. -/
theorem not_forward_of_overtaken :
    ¬ Along step GoesForward (start 100 true : Writers ℕ)
      [.draw temperature (reading 25) 1, .draw temperature (reading 26) 2,
        .store 1 [], .store 0 [temperature]] := by
  intro h
  have hlast := ((((h _ rfl).2 _ rfl).2 _ rfl).2 _ rfl).1
  have hversion := (hlast _ _ rfl).1 temperature (by decide) (by decide)
  exact absurd hversion (by decide)

/-- Two calls that do not overlap go forward. -/
theorem forward_of_two_puts :
    Along step GoesForward (start 100 true : Writers ℕ)
      [.draw temperature (reading 25) 1, .store 0 [], .draw temperature (reading 26) 2,
        .store 0 [temperature]] := by
  refine (versions_forward_iff 100 true _ (by decide)).mpr ?_
  decide +kernel

end Writers
end Opencode.Opcua
