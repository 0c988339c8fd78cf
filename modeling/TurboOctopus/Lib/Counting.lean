import Mathlib.Data.List.TakeWhile
import TurboOctopus.Lib.Words
/-!
# Loops that count in machine words

A loop goes up from a number while a test holds. Where it stops before the numbers end,
what it passes are the numbers from its start to there; where it does not, it goes on at 0.
-/

namespace TurboOctopus.Lib

open List UInt64

lemma add_toUInt64_le {start m : UInt64} (hle : start ≤ m) {i : Nat} (hi : i ≤ m.toNat - start.toNat) :
    (start + i.toUInt64).toNat = start.toNat + i := by
  have hm := m.toNat_lt
  rw [le_iff_toNat_le] at hle
  rw [UInt64.toNat_add, Nat.toUInt64, UInt64.toNat_ofNat', Nat.mod_eq_of_lt (a := i) (by omega), Nat.mod_eq_of_lt]
  omega

/-- A loop that counts up while a test holds comes to a number if the test holds up to it,
with no more turns than there are numbers that pass. -/
lemma mem_takeWhile_counting {p : UInt64 → Bool} {start m : UInt64} (hle : start ≤ m)
    (hp : ∀ n, start ≤ n → n ≤ m → p n = true) {s : Finset UInt64} (hs : ∀ n, start ≤ n → n ≤ m → n ∈ s) {turns : Nat}
    (hturns : s.card ≤ turns) : m ∈ ((List.range turns).map fun i => start + i.toUInt64).takeWhile p := by
  have hle' := le_iff_toNat_le.1 hle
  have hbetween : ∀ i ≤ m.toNat - start.toNat, start ≤ start + i.toUInt64 ∧ start + i.toUInt64 ≤ m := by
    intro i hi
    rw [le_iff_toNat_le, le_iff_toNat_le, add_toUInt64_le hle hi]
    omega
  have hcard : m.toNat - start.toNat + 1 ≤ turns := by
    refine le_trans ?_ hturns
    rw [← Finset.card_range (m.toNat - start.toNat + 1)]
    refine Finset.card_le_card_of_injOn (fun i => start + i.toUInt64) ?_ ?_
    · intro i hi
      have hi' : i ≤ m.toNat - start.toNat := Nat.lt_succ_iff.1 (by simpa using hi)
      exact hs _ (hbetween i hi').1 (hbetween i hi').2
    · intro i hi j hj heq
      have hi' : i ≤ m.toNat - start.toNat := Nat.lt_succ_iff.1 (by simpa using hi)
      have hj' : j ≤ m.toNat - start.toNat := Nat.lt_succ_iff.1 (by simpa using hj)
      have := congrArg UInt64.toNat heq
      rw [add_toUInt64_le hle hi', add_toUInt64_le hle hj'] at this
      omega
  obtain ⟨rest, rfl⟩ := Nat.exists_eq_add_of_le hcard
  rw [range_add, map_append, takeWhile_append_of_pos]
  · apply mem_append_left
    refine mem_map.2 ⟨m.toNat - start.toNat, mem_range.2 (Nat.lt_succ_self _), ?_⟩
    apply UInt64.toNat.inj
    rw [add_toUInt64_le hle (le_refl _)]
    omega
  · refine forall_mem_map.2 fun i hi => ?_
    have hi' := Nat.lt_succ_iff.1 (mem_range.1 hi)
    exact hp _ (hbetween i hi').1 (hbetween i hi').2

/-- It does not come past a number that fails the test, so the count does not wrap. -/
lemma lt_of_mem_takeWhile_counting {p : UInt64 → Bool} {start stop n : UInt64} (hle : start ≤ stop)
    (hstop : p stop = false) {turns : Nat}
    (hn : n ∈ ((List.range turns).map fun i => start + i.toUInt64).takeWhile p) : start ≤ n ∧ n < stop := by
  have hle' := le_iff_toNat_le.1 hle
  have hget : ∀ i (hi : i < (((List.range turns).map fun i => start + i.toUInt64).takeWhile p).length),
      (((List.range turns).map fun i => start + i.toUInt64).takeWhile p)[i] = start + i.toUInt64 := by
    intro i hi
    rw [( takeWhile_prefix p).getElem hi]
    simp
  obtain ⟨i, hi, rfl⟩ := getElem_of_mem hn
  have hlt : i < stop.toNat - start.toNat := by
    by_contra hnot
    have hd : stop.toNat - start.toNat < (((List.range turns).map fun i => start + i.toUInt64).takeWhile p).length := by
      omega
    have hpass := mem_takeWhile_imp (getElem_mem hd)
    have heq : start + (stop.toNat - start.toNat).toUInt64 = stop := by
      apply UInt64.toNat.inj
      rw [add_toUInt64_le hle (le_refl _)]
      omega
    rw [hget, heq, hstop] at hpass
    cases hpass
  rw [hget, le_iff_toNat_le, lt_iff_toNat_lt, add_toUInt64_le hle (Nat.le_of_lt hlt)]
  omega

/-- Nor does one that starts at the next number, if the last number fails. -/
lemma lt_of_mem_takeWhile_succ {p : UInt64 → Bool} {k n : UInt64} (hk : k.toNat + 1 < 2 ^ 64)
    (hp : ∀ m, p m = true → m.toNat + 1 < 2 ^ 64) {turns : Nat}
    (hn : n ∈ ((List.range turns).map fun i => k + 1 + i.toUInt64).takeWhile p) : k.toNat < n.toNat := by
  have hmax : (18446744073709551615 : UInt64).toNat = 2 ^ 64 - 1 := by decide
  have hsucc := u64_succ hk
  have hstop : p 18446744073709551615 = false := by
    rw [Bool.eq_false_iff]
    intro h
    have := hp _ h
    omega
  have hle : k + 1 ≤ (18446744073709551615 : UInt64) := by
    rw [le_iff_toNat_le]
    omega
  have hlow := le_iff_toNat_le.1 (lt_of_mem_takeWhile_counting hle hstop hn).1
  omega

end TurboOctopus.Lib
