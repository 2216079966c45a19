import Mathlib
import Opencode.Pool.ThreadPool

/-!
# Round robin

`submitRoundRobin` draws its worker from a counter that all threads share: one
`fetch_add`, and the remainder by the number of workers.  The draws of all threads
together go round the workers, whatever else happens between them.  The counter has 64
bits; where the number of workers does not divide 2^64 the round is broken off when the
counter wraps.

## Main definitions

* `ThreadPool.draws` — the workers drawn in a run, in the order of the draws.
* `draws_fair` — which they are, and that no worker gets ahead of another.
-/

namespace Opencode.Pool

open Opencode.Lib

universe u v
variable {n : ℕ} {τ : Type u} {Tid : Type v}

/-- Among the remainders of the first numbers none comes twice more often than another. -/
theorem count_mod_le (k : ℕ) {i j : ℕ} (hi : i < n) (hj : j < n) :
    ((List.range k).map (· % n)).count i ≤ ((List.range k).map (· % n)).count j + 1 := by
  have hcount : ∀ v < n, ((List.range k).map (· % n)).count v =
      k / n + if v < k % n then 1 else 0 := by
    intro v hv
    have hmod : ∀ m, (m % n == v) = decide (m ≡ v [MOD n]) := by
      intro m
      simp [Nat.ModEq, Nat.mod_eq_of_lt hv, beq_eq_decide]
    have hcard := Nat.count_modEq_card k (Nat.zero_lt_of_lt hv) v
    rw [Nat.mod_eq_of_lt hv] at hcard
    rw [← hcard, Nat.count, List.count, List.countP_map]
    exact List.countP_congr fun m _ => by simp [hmod]
  rw [hcount i hi, hcount j hj]
  split <;> split <;> omega

namespace ThreadPool

variable [DecidableEq Tid]

/-- The worker a step draws; without workers there is none. -/
def drawn (s : ThreadPool n τ Tid) : Label n τ Tid → Option (Fin n)
  | .submitRoundRobin _ _ =>
      if h : s.nextRoundRobin.toNat % n < n then some ⟨s.nextRoundRobin.toNat % n, h⟩ else none
  | _ => none

/-- The workers drawn in a run, in order. -/
def draws (s : ThreadPool n τ Tid) : List (Label n τ Tid) → List (Fin n)
  | [] => []
  | l :: ls =>
      match s.step l with
      | none => []
      | some s' => (s.drawn l).toList ++ s'.draws ls

/-- Nothing else touches the counter. -/
theorem nextRoundRobin_of_not_drawn {s s' : ThreadPool n τ Tid} {l : Label n τ Tid}
    (hs : s.step l = some s') (h : s.drawn l = none) :
    s'.nextRoundRobin = s.nextRoundRobin := by
  cases l with
  | submitRoundRobin t task =>
      cases hc : s.ctl t with
      | idle =>
          have hn : ¬ 0 < n := by
            intro hpos
            simp [drawn, Nat.mod_lt _ hpos] at h
          simp only [step, hc, hn, dif_neg, not_false_iff] at hs
          cases hs
          rfl
      | _ => simp [step, hc] at hs
  | _ => cases step_steps hs <;> rfl

/-- A draw takes the remainder of the counter, which moves on. -/
theorem nextRoundRobin_of_drawn {s s' : ThreadPool n τ Tid} {l : Label n τ Tid} {i : Fin n}
    (hs : s.step l = some s') (h : s.drawn l = some i) :
    (i : ℕ) = s.nextRoundRobin.toNat % n ∧ s'.nextRoundRobin = s.nextRoundRobin + 1 := by
  cases l with
  | submitRoundRobin t task =>
      cases hc : s.ctl t with
      | idle =>
          obtain ⟨hlt, hi⟩ := Option.dite_none_right_eq_some.mp h
          cases hi
          have hn : 0 < n := Nat.zero_lt_of_lt hlt
          simp only [step, hc, hn, dif_pos] at hs
          cases hs
          exact ⟨rfl, rfl⟩
      | _ => simp [step, hc] at hs
  | _ => cases h

/-- From a counter that has counted `m` draws on, the draws take the remainders of the
numbers from `m` on. -/
theorem draws_eq (s : ThreadPool n τ Tid) (ls : List (Label n τ Tid)) (m : ℕ)
    (hm : s.nextRoundRobin = UInt64.ofNat m) :
    (s.draws ls).map Fin.val =
      (List.range' m (s.draws ls).length).map fun k => k % 2 ^ 64 % n := by
  induction ls generalizing s m with
  | nil => rfl
  | cons l ls ih =>
      unfold draws
      cases hs : s.step l with
      | none => rfl
      | some s' =>
          cases hd : s.drawn l with
          | none =>
              rw [← nextRoundRobin_of_not_drawn hs hd] at hm
              simpa [hd] using ih s' m hm
          | some i =>
              obtain ⟨hi, hnext⟩ := nextRoundRobin_of_drawn hs hd
              have hnext' : s'.nextRoundRobin = UInt64.ofNat (m + 1) := by
                rw [hnext, hm, UInt64.ofNat_add]
                rfl
              have hi' : (i : ℕ) = m % 2 ^ 64 % n := by
                rw [hi, hm, UInt64.toNat_ofNat']
              simp [List.range'_succ, hi', ih s' (m + 1) hnext']

/-- **The draws of all threads go round the workers**: the `m`-th takes the remainder of
`m`, as 64 bits, by their number.  As long as the counter has not wrapped, or where the
workers divide its range, no worker is drawn twice more often than another. -/
theorem draws_fair (ls : List (Label n τ Tid)) :
    let ws := draws ({} : ThreadPool n τ Tid) ls
    (∀ (m : ℕ) (i : Fin n), ws[m]? = some i → (i : ℕ) = m % 2 ^ 64 % n) ∧
      (ws.length ≤ 2 ^ 64 ∨ n ∣ 2 ^ 64 → ∀ i j, ws.count i ≤ ws.count j + 1) := by
  intro ws
  have hws : ws.map Fin.val = (List.range ws.length).map fun k => k % 2 ^ 64 % n := by
    rw [List.range_eq_range']
    exact draws_eq {} ls 0 rfl
  constructor
  · intro m i hm
    have hm' : (ws.map Fin.val)[m]? = some (i : ℕ) := by simp [hm]
    rw [hws, List.getElem?_map] at hm'
    obtain ⟨k, hk, hki⟩ := Option.map_eq_some_iff.mp hm'
    obtain ⟨hlt, rfl⟩ := List.getElem?_eq_some_iff.mp hk
    rw [← hki, List.getElem_range]
  · intro hwrap i j
    have hplain : ws.map Fin.val = (List.range ws.length).map (· % n) := by
      rw [hws]
      refine List.map_congr_left fun k hk => ?_
      rcases hwrap with hlen | hdvd
      · have hk' : k < 2 ^ 64 := (List.mem_range.mp hk).trans_le hlen
        rw [Nat.mod_eq_of_lt hk']
      · exact Nat.mod_mod_of_dvd k hdvd
    have hcount : ∀ v : Fin n, ws.count v =
        ((List.range ws.length).map (· % n)).count (v : ℕ) := by
      intro v
      rw [← hplain, List.count_map_of_injective _ _ Fin.val_injective]
    rw [hcount i, hcount j]
    exact count_mod_le ws.length i.isLt j.isLt

end ThreadPool
end Opencode.Pool
