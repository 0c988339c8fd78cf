import Mathlib.Tactic.Ring
import TurboOctopus.Lib.Rlp
/-!
# Big-endian digits

A number and its bytes determine each other: with a fixed number of bytes, and without
leading zeros.
-/

namespace TurboOctopus.Lib

open List

lemma foldl_beNat (acc : Nat) (b : List UInt8) :
    b.foldl (fun acc x => acc * 256 + x.toNat) acc = acc * 256 ^ b.length + beNat b := by
  induction b generalizing acc with
  | nil => simp [beNat]
  | cons x b ih =>
    rw [beNat, foldl_cons, foldl_cons, ih, ih (0 * 256 + x.toNat), length_cons, pow_succ]
    ring

lemma beNat_cons (x : UInt8) (b : List UInt8) : beNat (x :: b) = x.toNat * 256 ^ b.length + beNat b := by
  rw [beNat, foldl_cons, foldl_beNat]
  simp

@[simp] lemma beNat_nil : beNat [] = 0 := rfl

lemma beNat_lt (b : List UInt8) : beNat b < 256 ^ b.length := by
  induction b with
  | nil => simp
  | cons x b ih =>
    have hx := x.toNat_lt
    have hmul : x.toNat * 256 ^ b.length ≤ 255 * 256 ^ b.length := Nat.mul_le_mul_right _ (by omega)
    rw [beNat_cons, length_cons, pow_succ]
    omega

/-! ## A fixed number of bytes -/

lemma fixedBytes_succ (n x : Nat) : fixedBytes (n + 1) x = UInt8.ofNat (x / 256 ^ n) :: fixedBytes n x := by
  simp [fixedBytes, range_succ]

lemma fixedBytes_mod (n x y : Nat) (h : x % 256 ^ n = y % 256 ^ n) : fixedBytes n x = fixedBytes n y := by
  induction n with
  | zero => rfl
  | succ n ih =>
    have hdigit : ∀ z, (z / 256 ^ n) % 256 = (z % 256 ^ (n + 1)) / 256 ^ n := by
      intro z
      rw [pow_succ, Nat.mod_mul_right_div_self]
    have hlow : x % 256 ^ n = y % 256 ^ n := by
      have := congrArg (· % 256 ^ n) h
      simpa [pow_succ, Nat.mod_mul_right_mod] using this
    rw [fixedBytes_succ, fixedBytes_succ, ih hlow]
    congr 1
    apply UInt8.toNat.inj
    rw [UInt8.toNat_ofNat', UInt8.toNat_ofNat']
    exact (hdigit x).trans ((congrArg (· / 256 ^ n) h).trans (hdigit y).symm)

lemma fixedBytes_beNat (b : List UInt8) : fixedBytes b.length (beNat b) = b := by
  induction b with
  | nil => rfl
  | cons x b ih =>
    have hlt := beNat_lt b
    have hdiv : beNat (x :: b) / 256 ^ b.length = x.toNat := by
      rw [beNat_cons, Nat.add_comm, Nat.add_mul_div_right _ _ (pow_pos (by decide) _), Nat.div_eq_of_lt hlt, Nat.zero_add]
    have hmod : beNat (x :: b) % 256 ^ b.length = beNat b % 256 ^ b.length := by
      rw [beNat_cons, Nat.add_comm, Nat.add_mul_mod_self_right]
    rw [length_cons, fixedBytes_succ, hdiv, fixedBytes_mod _ _ _ hmod, ih]
    simp

lemma beNat_fixedBytes (n x : Nat) : beNat (fixedBytes n x) = x % 256 ^ n := by
  induction n with
  | zero => simp [fixedBytes, Nat.mod_one]
  | succ n ih =>
    rw [fixedBytes_succ, beNat_cons, ih, length_fixedBytes, UInt8.toNat_ofNat', pow_succ 256 n, Nat.mod_mul]
    ring

/-! ## No leading zeros -/

lemma beBytes_eq {n : Nat} (hn : n ≠ 0) : beBytes n = fixedBytes (n.log2 / 8 + 1) n := by
  rw [beBytes, if_neg hn, fixedBytes]

@[simp] lemma beBytes_zero : beBytes 0 = [] := rfl

/-- How many bytes a number has. -/
lemma pow_log2_le {n : Nat} (hn : n ≠ 0) : 256 ^ (n.log2 / 8) ≤ n ∧ n < 256 ^ (n.log2 / 8 + 1) := by
  have hlow := Nat.log2_self_le hn
  have hhigh := Nat.lt_log2_self (n := n)
  have h256 : ∀ k, 256 ^ k = 2 ^ (8 * k) := fun k => by rw [pow_mul]; norm_num
  constructor
  · rw [h256]
    exact le_trans (Nat.pow_le_pow_right (by decide) (by omega)) hlow
  · rw [h256]
    exact lt_of_lt_of_le hhigh (Nat.pow_le_pow_right (by decide) (by omega))

@[simp] lemma beNat_beBytes (n : Nat) : beNat (beBytes n) = n := by
  by_cases hn : n = 0
  · rw [hn]
    rfl
  · rw [beBytes_eq hn, beNat_fixedBytes, Nat.mod_eq_of_lt (pow_log2_le hn).2]

lemma head?_beBytes (n : Nat) : (beBytes n).head? ≠ some 0 := by
  by_cases hn : n = 0
  · simp [hn]
  · obtain ⟨hlow, hhigh⟩ := pow_log2_le hn
    rw [beBytes_eq hn, fixedBytes_succ, head?_cons]
    intro h
    have hdigit : n / 256 ^ (n.log2 / 8) < 256 := by
      rw [Nat.div_lt_iff_lt_mul (pow_pos (by decide) _), ← pow_succ']
      exact hhigh
    have hpos : 0 < n / 256 ^ (n.log2 / 8) := Nat.div_pos hlow (pow_pos (by decide) _)
    have := congrArg UInt8.toNat (Option.some.inj h)
    rw [UInt8.toNat_ofNat', Nat.mod_eq_of_lt hdigit] at this
    simp at this
    omega

lemma beBytes_beNat {b : List UInt8} (hb : b.head? ≠ some 0) : beBytes (beNat b) = b := by
  cases b with
  | nil => rfl
  | cons x b =>
    have hx : x.toNat ≠ 0 := by
      intro h
      apply hb
      rw [head?_cons, show x = 0 from UInt8.toNat.inj h]
    have hlow : 256 ^ b.length ≤ beNat (x :: b) := by
      rw [beNat_cons]
      exact le_trans (Nat.le_mul_of_pos_left _ (Nat.pos_of_ne_zero hx)) (Nat.le_add_right _ _)
    have hhigh := beNat_lt (x :: b)
    have hne : beNat (x :: b) ≠ 0 := by
      have : 0 < 256 ^ b.length := pow_pos (by decide) _
      omega
    -- the number lies between the same powers as its length
    obtain ⟨hlow', hhigh'⟩ := pow_log2_le hne
    have h1 : (beNat (x :: b)).log2 / 8 < b.length + 1 := by
      by_contra hnot
      have := Nat.pow_le_pow_right (n := 256) (by decide) (Nat.not_lt.1 hnot)
      rw [length_cons] at hhigh
      omega
    have h2 : b.length < (beNat (x :: b)).log2 / 8 + 1 := by
      by_contra hnot
      have := Nat.pow_le_pow_right (n := 256) (by decide) (Nat.not_lt.1 hnot)
      omega
    have hlen : (beNat (x :: b)).log2 / 8 + 1 = (x :: b).length := by
      rw [length_cons]
      omega
    rw [beBytes_eq hne, hlen, fixedBytes_beNat]

lemma length_beBytes_le {n k : Nat} (hn : n < 256 ^ k) : (beBytes n).length ≤ k := by
  by_cases hz : n = 0
  · simp [hz]
  · obtain ⟨hlow, -⟩ := pow_log2_le hz
    rw [beBytes_eq hz, length_fixedBytes]
    by_contra hnot
    have := Nat.pow_le_pow_right (n := 256) (by decide) (show k ≤ n.log2 / 8 by omega)
    omega

lemma beBytes_ne_nil {n : Nat} (hn : n ≠ 0) : beBytes n ≠ [] := by
  intro h
  have := beNat_beBytes n
  rw [h] at this
  exact hn this.symm

lemma beBytes_small {x : UInt8} (hx : x ≠ 0) : beBytes x.toNat = [x] := by
  have h := beBytes_beNat (b := [x]) (by simpa using hx)
  rwa [show beNat [x] = x.toNat by simp [beNat]] at h

lemma beBytes_eq_singleton {n : Nat} {x : UInt8} (h : beBytes n = [x]) : x ≠ 0 ∧ n = x.toNat := by
  have hhead := head?_beBytes n
  have hval := beNat_beBytes n
  rw [h] at hhead hval
  refine ⟨by simpa using hhead, ?_⟩
  rw [← hval]
  simp [beNat]

lemma beBytes_not_small {n : Nat} (hn : n = 0 ∨ 128 ≤ n) : ∀ x, beBytes n = [x] → ¬ x < 0x80 := by
  intro x hb hx
  obtain ⟨hx0, rfl⟩ := beBytes_eq_singleton hb
  rw [UInt8.lt_iff_toNat_lt] at hx
  obtain h | h := hn
  · exact hx0 (UInt8.toNat_inj.1 h)
  · exact absurd hx (Nat.not_lt.2 h)

namespace Rlp

lemma puthead_ne_nil (small large size : Nat) : puthead small large size ≠ [] := by
  unfold puthead
  split <;> simp

lemma writeBytes_byte {x : UInt8} (hx : x < 0x80) : writeBytes [x] = [x] := by
  rw [writeBytes, if_pos]
  rw [UInt8.lt_iff_toNat_lt] at hx
  rw [UInt8.le_iff_toNat_le]
  exact Nat.lt_succ_iff.1 hx

lemma writeBytes_string {b : List UInt8} (hb : ∀ x, b = [x] → ¬ x < 0x80) :
    writeBytes b = puthead 0x80 0xb7 b.length ++ b := by
  unfold writeBytes
  split
  · next x =>
    have hx := hb x rfl
    rw [if_neg]
    · rfl
    · rw [UInt8.lt_iff_toNat_lt] at hx
      rw [UInt8.le_iff_toNat_le]
      exact fun h => hx (Nat.lt_succ_iff.2 h)
  · rfl

lemma writeBytes_ne_nil (b : List UInt8) : writeBytes b ≠ [] := by
  unfold writeBytes
  split
  · split
    · simp
    · simp [puthead]
  · simp [puthead_ne_nil]

end Rlp

end TurboOctopus.Lib
