import Opencode.Lib.Run
import Opencode.Opcua.NodeCache

/-!
# The bound of the node cache

One thread calls the cache.  A `put` of a new key makes room by at most one eviction, and
`setMaxSize` moves the bound without touching the entries, so a cache above its bound
stays above it; and a bound of zero leaves an empty cache nothing to evict.

A call of `put` carries the order in which the eviction loop would visit the map, as a
rearrangement of its keys.

## Main definitions

* `Put`, `CacheCall`, `NodeCache.step` — the calls.
* `NodeCache.step_put_cases` — what a `put` does.
* `NodeCache.KeepsBound`, `NodeCache.HasRoom` — what a call should do, and when it does.
* `keepsBound_iff_hasRoom` — at each call of a run, the first is the second.
-/

namespace Opencode.Opcua

open Opencode.Lib

universe u
variable {ν : Type u}

/-- A call of `put`, with what the clock says and how the map is visited. -/
structure Put (ν : Type u) where
  key : NodeKey
  val : CachedValue ν
  now : ℤ
  visit : List NodeKey → List NodeKey
  perm : ∀ keys, (visit keys).Perm keys

/-- A `put` whose eviction loop visits the map in the order of the model. -/
def Put.plain (key : NodeKey) (val : CachedValue ν) (now : ℤ) : Put ν :=
  ⟨key, val, now, id, fun _ => List.Perm.refl _⟩

/-- The calls that change the cache. -/
inductive CacheCall (ν : Type u)
  | put (p : Put ν)
  | remove (key : NodeKey)
  | clear
  | setMaxSize (maxSize : ℕ)

namespace NodeCache

/-- The cache after a call; `none` is the eviction from an empty map. -/
def step [Inhabited ν] (c : NodeCache ν) : CacheCall ν → Option (NodeCache ν)
  | .put p => (c.put p.key p.val p.now (p.visit c.data.keys)).map Prod.fst
  | .remove key => some (c.remove key)
  | .clear => some c.clear
  | .setMaxSize maxSize => some (c.setMaxSize maxSize)

/-- The value a `put` stores. -/
def stamped (c : NodeCache ν) (p : Put ν) : CachedValue ν := (c.draw p.val p.now).1

/-- A `put` returns, and the cache then is within its bound, or the bound is zero and the
value was not stored. -/
def KeepsBound [Inhabited ν] (c : NodeCache ν) (call : CacheCall ν) : Prop :=
  ∀ p, call = .put p → ∃ c', c.step call = some c' ∧
    (c'.size ≤ c'.maxSize ∨ c'.maxSize = 0 ∧ c'.data.lookup p.key ≠ some (c.stamped p))

/-- A `put` is called on a cache that is within its bound, and the bound is not zero. -/
def HasRoom (c : NodeCache ν) : CacheCall ν → Prop
  | .put _ => 1 ≤ c.maxSize ∧ c.size ≤ c.maxSize
  | _ => True

/-! ## What a `put` does -/

variable {c : NodeCache ν}

theorem size_eq_length_keys (c : NodeCache ν) : c.size = c.data.keys.length := by
  simp [size, AList.keys, List.keys]

/-- The eviction loop ends at an entry that is not newer than any other. -/
theorem oldest_spec (c : NodeCache ν) {order : List NodeKey} (h : order ≠ []) :
    ∃ victim ∈ order, c.oldest order = some victim ∧
      ∀ k ∈ order, c.timeOf victim ≤ c.timeOf k := by
  cases order with
  | nil => exact absurd rfl h
  | cons k ks =>
      simp only [oldest]
      induction ks generalizing k with
      | nil => exact ⟨k, by simp, rfl, by simp⟩
      | cons k' ks ih =>
          obtain ⟨victim, hmem, heq, hle⟩ :=
            ih (if c.timeOf k' < c.timeOf k then k' else k) (by simp)
          refine ⟨victim, ?_, heq, ?_⟩
          · split at hmem <;> simp only [List.mem_cons] at hmem ⊢ <;> tauto
          · intro x hx
            split at hle <;> simp only [List.mem_cons, forall_eq_or_imp] at hle hx
            · rcases hx with rfl | rfl | hx
              · exact hle.1.trans (by omega)
              · exact hle.1
              · exact hle.2 x hx
            · rcases hx with rfl | rfl | hx
              · exact hle.1
              · exact hle.1.trans (by omega)
              · exact hle.2 x hx

variable [Inhabited ν] {p : Put ν}

theorem step_put_of_mem (h : c.has p.key) :
    c.step (.put p) =
      some { c with data := c.data.insert p.key (c.stamped p), seq := c.seq + 1 } := by
  obtain ⟨old, hold⟩ := Option.isSome_iff_exists.mp (AList.lookup_isSome.mpr h)
  simp [step, put, draw, putLocked, stamped, hold]

theorem step_put_of_lt (h : ¬c.has p.key) (hlt : c.size < c.maxSize) :
    c.step (.put p) =
      some { c with data := c.data.insert p.key (c.stamped p), seq := c.seq + 1 } := by
  have hroom : ¬ c.maxSize ≤ c.data.entries.length := Nat.not_le.mpr hlt
  simp [step, put, draw, putLocked, stamped, makeRoom, AList.lookup_eq_none.mpr h, hroom]

/-- Without room, one of the oldest entries goes. -/
theorem step_put_of_full (h : ¬c.has p.key) (hfull : c.maxSize ≤ c.size) (hpos : 0 < c.size) :
    ∃ victim ∈ c.data.keys, (∀ k ∈ c.data.keys, c.timeOf victim ≤ c.timeOf k) ∧
      c.step (.put p) =
        some { c with
          data := (c.data.erase victim).insert p.key (c.stamped p)
          seq := c.seq + 1 } := by
  have hne : p.visit c.data.keys ≠ [] := by
    intro hnil
    have hlen := (p.perm c.data.keys).length_eq
    rw [hnil, List.length_nil, ← c.size_eq_length_keys] at hlen
    omega
  obtain ⟨victim, hmem, hvictim, hle⟩ := c.oldest_spec hne
  have holdest : oldest { c with seq := c.seq + 1 } (p.visit c.data.keys) = some victim := hvictim
  have hroom : c.maxSize ≤ c.data.entries.length := hfull
  refine ⟨victim, (p.perm _).mem_iff.mp hmem, fun k hk => hle k ((p.perm _).mem_iff.mpr hk), ?_⟩
  simp [step, put, draw, putLocked, stamped, makeRoom, AList.lookup_eq_none.mpr h, hroom, holdest]

/-- From an empty map nothing can be evicted. -/
theorem step_put_of_empty (hmax : c.maxSize = 0) (hsize : c.size = 0) :
    c.step (.put p) = none := by
  have hkeys : c.data.keys = [] := by
    rw [← List.length_eq_zero_iff, ← c.size_eq_length_keys, hsize]
  have habsent : c.data.lookup p.key = none := by
    rw [AList.lookup_eq_none, AList.mem_keys, hkeys]
    exact List.not_mem_nil
  have hvisit : p.visit [] = [] := List.perm_nil.mp (p.perm [])
  simp [step, put, draw, putLocked, makeRoom, habsent, hmax, hkeys, hvisit, oldest]

/-! ## Sizes -/

omit [Inhabited ν] in
theorem size_insert (c : NodeCache ν) (key : NodeKey) (v : CachedValue ν) (seq : UInt64) :
    size { c with data := c.data.insert key v, seq := seq } =
      if c.has key then c.size else c.size + 1 := by
  rw [size_eq_length_keys, size_eq_length_keys, AList.keys_insert, List.length_cons]
  split
  case isTrue h =>
    have hmem : key ∈ c.data.keys := AList.mem_keys.mp h
    have hpos := List.length_pos_of_mem hmem
    rw [List.length_erase_of_mem hmem]
    omega
  case isFalse h => rw [List.erase_of_not_mem fun hmem => h (AList.mem_keys.mpr hmem)]

omit [Inhabited ν] in
theorem size_remove_of_mem {key : NodeKey} (h : key ∈ c.data.keys) :
    (c.remove key).size = c.size - 1 := by
  rw [size_eq_length_keys, size_eq_length_keys, remove, AList.keys_erase,
    List.length_erase_of_mem h]

/-- A `put` that returns leaves one entry more if its key is new and there was room. -/
theorem step_put_cases (c : NodeCache ν) (p : Put ν) :
    c.maxSize = 0 ∧ c.size = 0 ∧ c.step (.put p) = none ∨
      ∃ c', c.step (.put p) = some c' ∧ c'.maxSize = c.maxSize ∧
        c'.data.lookup p.key = some (c.stamped p) ∧
        c'.size = if c.has p.key ∨ c.maxSize ≤ c.size then c.size else c.size + 1 := by
  by_cases h : c.has p.key
  · right
    refine ⟨_, step_put_of_mem h, rfl, AList.lookup_insert _, ?_⟩
    rw [size_insert, if_pos h, if_pos (.inl h)]
  · rcases Nat.lt_or_ge c.size c.maxSize with hlt | hge
    · right
      refine ⟨_, step_put_of_lt h hlt, rfl, AList.lookup_insert _, ?_⟩
      rw [size_insert, if_neg h, if_neg (by simp [h, hlt])]
    · rcases Nat.eq_zero_or_pos c.size with hzero | hpos
      · left
        exact ⟨by omega, hzero, step_put_of_empty (by omega) hzero⟩
      · right
        obtain ⟨victim, hmem, -, hstep⟩ := step_put_of_full h hge hpos
        refine ⟨_, hstep, rfl, AList.lookup_insert _, ?_⟩
        have habsent : ¬(c.remove victim).has p.key := fun hp => h (AList.mem_erase.mp hp).2
        have hsize := (c.remove victim).size_insert p.key (c.stamped p) (c.seq + 1)
        rw [if_neg habsent, size_remove_of_mem hmem] at hsize
        rw [if_pos (.inr hge)]
        exact hsize.trans (by omega)

/-! ## The bound -/

theorem keepsBound_put_iff (c : NodeCache ν) (p : Put ν) :
    c.KeepsBound (.put p) ↔ 1 ≤ c.maxSize ∧ c.size ≤ c.maxSize := by
  have hkeeps : c.KeepsBound (.put p) ↔ ∃ c', c.step (.put p) = some c' ∧
      (c'.size ≤ c'.maxSize ∨ c'.maxSize = 0 ∧ c'.data.lookup p.key ≠ some (c.stamped p)) := by
    simp [KeepsBound]
  rw [hkeeps]
  rcases c.step_put_cases p with ⟨hmax, -, hstep⟩ | ⟨c', hstep, hmax, hlookup, hsize⟩
  · simp [hstep, hmax]
  · have hmem : p.key ∈ c'.data := AList.lookup_isSome.mp (by rw [hlookup]; rfl)
    have hpos : 0 < c'.size := by
      rw [size_eq_length_keys]
      exact List.length_pos_of_mem (AList.mem_keys.mp hmem)
    simp only [hstep, Option.some.injEq, exists_eq_left', hlookup, hmax, ne_eq,
      not_true_eq_false, and_false, or_false]
    by_cases h : c.has p.key ∨ c.maxSize ≤ c.size
    · rw [if_pos h] at hsize
      omega
    · rw [if_neg h] at hsize
      have hlt := (not_or.mp h).2
      omega

/-- **The cache respects its bound at exactly the calls that find it within its bound**,
and no eviction finds the map empty there. -/
theorem keepsBound_iff_hasRoom (maxSize : ℕ) (onChange : Bool) (calls : List (CacheCall ν)) :
    AtEach step KeepsBound (create maxSize onChange : NodeCache ν) calls ↔
      AtEach step HasRoom (create maxSize onChange : NodeCache ν) calls := by
  refine atEach_congr (fun c call => ?_) _ calls
  cases call with
  | put p => exact c.keepsBound_put_iff p
  | remove | clear | setMaxSize => simp [KeepsBound, HasRoom]

/-- A bound moved below the entries is not respected by the next `put`. -/
theorem not_keepsBound_shrunk :
    ¬ AtEach step KeepsBound (create 2 false : NodeCache Unit)
      [.put (.plain ⟨0, "a"⟩ .empty 1), .put (.plain ⟨0, "b"⟩ .empty 2), .setMaxSize 1,
        .put (.plain ⟨0, "c"⟩ .empty 3)] := by
  intro h
  have hlast := (((h.2 _ rfl).2 _ rfl).2 _ rfl).1
  exact absurd ((keepsBound_put_iff _ _).mp hlast).2 (by decide)

end NodeCache
end Opencode.Opcua
