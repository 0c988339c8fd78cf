import TurboOctopus.Lib.BigEndian
import TurboOctopus.Lib.Fallible
import TurboOctopus.Rlp.Stream
import Mathlib.Data.UInt
/-!
# What a stream reads

A read that succeeds takes its bytes off the input, off the number that remains and off
the innermost list. `Kind` succeeds exactly on the head of a value that fits, written in
the shortest way.
-/
namespace TurboOctopus.Rlp

open Lib Lib.Rlp List UInt64

/-! ## The stream further on -/

/-- The number of bytes that remain is that of the input. -/
def Stream.Limited (s : Stream) : Prop := s.remaining.toNat = s.input.length

/-- The innermost list has `n` bytes left. -/
def Stream.Holds (n : Nat) (s : Stream) : Prop := ∀ limit ∈ s.listLimit, n ≤ limit.toNat

/-- After `n` more bytes, with nothing known of the value ahead. -/
def Stream.skip (n : Nat) (s : Stream) : Stream :=
  ⟨s.input.drop n, s.remaining - .ofNat n, takeOff (.ofNat n) s.stack, none⟩

variable {s t : Stream} {n m : Nat}

lemma toNat_ofNat64 (h : n < 2 ^ 64) : (UInt64.ofNat n).toNat = n := UInt64.toNat_ofNat_of_lt' h

lemma toNat_ofNat8 (h : n < 2 ^ 8) : (UInt8.ofNat n).toNat = n := UInt8.toNat_ofNat_of_lt' h

@[simp] lemma takeOff_cons (n limit : UInt64) (rest : List UInt64) :
    takeOff n (limit :: rest) = (limit - n) :: rest := rfl

@[simp] lemma takeOff_zero (stack : List UInt64) : takeOff 0 stack = stack := by
  cases stack <;> simp [takeOff]

lemma takeOff_takeOff (m n : UInt64) (stack : List UInt64) : takeOff m (takeOff n stack) = takeOff (n + m) stack := by
  cases stack with
  | nil => rfl
  | cons limit rest => simp [takeOff, ← sub_sub]

namespace Stream

@[simp] lemma skip_input : (s.skip n).input = s.input.drop n := rfl

@[simp] lemma skip_ahead : (s.skip n).ahead = none := rfl

@[simp] lemma skip_with_ahead (a : Option Ahead) : ({ s with ahead := a } : Stream).skip n = s.skip n := rfl

lemma skip_zero (hs : s.ahead = none) : s.skip 0 = s := by
  cases s with
  | mk input remaining stack ahead =>
    cases hs
    simp [Stream.skip]

lemma skip_skip (m n : Nat) (s : Stream) : (s.skip n).skip m = s.skip (n + m) := by
  simp [Stream.skip, takeOff_takeOff, UInt64.ofNat_add, ← sub_sub]

lemma Limited.lt (hs : s.Limited) : s.input.length < 2 ^ 64 := hs ▸ s.remaining.toNat_lt

lemma Limited.skip (hs : s.Limited) (hn : n ≤ s.input.length) : (s.skip n).Limited := by
  have hlt := hs.lt
  unfold Limited at hs ⊢
  rw [skip_input, length_drop, Stream.skip, UInt64.toNat_sub_of_le, hs, toNat_ofNat64 (by omega)]
  rw [le_iff_toNat_le, hs, toNat_ofNat64 (by omega)]
  exact hn

lemma Holds.mono (hm : m ≤ n) (hs : s.Holds n) : s.Holds m := fun limit hl => hm.trans (hs limit hl)

lemma Holds.skip (hs : s.Holds (n + m)) : (s.skip n).Holds m := by
  intro limit hl
  cases hst : s.stack with
  | nil => simp [Stream.skip, listLimit, hst, takeOff] at hl
  | cons top rest =>
    simp only [Stream.skip, listLimit, hst, takeOff, head?_cons, Option.mem_def, Option.some.injEq] at hl
    have htop := hs top (by simp [listLimit, hst])
    have hlt := top.toNat_lt
    rw [← hl, UInt64.toNat_sub_of_le, toNat_ofNat64 (by omega)]
    · omega
    · rw [le_iff_toNat_le, toNat_ofNat64 (by omega)]
      omega

lemma Holds.listLimit_ne (hn : 0 < n) (hs : s.Holds n) : s.listLimit ≠ some 0 := by
  intro h
  have := hs 0 (by simp [h])
  rw [UInt64.toNat_zero] at this
  omega

end Stream

/-- Not one of the two errors that a caller acts on. -/
def DecodeError.Plain (e : DecodeError) : Prop := e ≠ .eol ∧ e ≠ .endless

/-! ## Reading -/

lemma willRead_eq (hs : s.Limited) (hh : s.Holds n) (hn : n ≤ s.input.length) :
    willRead (.ofNat n) s = .ok () { s.skip n with input := s.input } := by
  have hlt := hs.lt
  have hnat : (UInt64.ofNat n).toNat = n := toNat_ofNat64 (by omega)
  have hlimit : ¬ s.listLimit.any (· < UInt64.ofNat n) := by
    rw [Option.any_eq_true]
    rintro ⟨limit, hl, hlt⟩
    have := hh limit hl
    rw [decide_eq_true_iff, lt_iff_toNat_lt, hnat] at hlt
    omega
  have hremaining : ¬ s.remaining < UInt64.ofNat n := by
    rw [lt_iff_toNat_lt, hnat, show s.remaining.toNat = _ from hs]
    omega
  rw [willRead, if_neg hlimit, if_neg hremaining]
  rfl

lemma willRead_ok {n : UInt64} {u : Unit} (hs : s.Limited) (h : willRead n s = .ok u t) :
    n.toNat ≤ s.input.length ∧ t = { s.skip n.toNat with input := s.input } := by
  unfold willRead at h
  split at h
  · cases h
  · split at h
    · cases h
    · next hn =>
      cases h
      rw [lt_iff_toNat_lt, show s.remaining.toNat = _ from hs] at hn
      exact ⟨by omega, by simp [Stream.skip]⟩

variable {a : Ahead} {b : UInt8} {e : DecodeError} {k : Kind} {large small : Nat} {limit : Option UInt64}
  {remaining : UInt64} {rest : List UInt8}

lemma willRead_error {n : UInt64} (h : willRead n s = .error e t) : e.Plain := by
  unfold willRead at h
  split at h
  · cases h
    exact ⟨nofun, nofun⟩
  · split at h
    · cases h
      exact ⟨nofun, nofun⟩
    · cases h

lemma readFull_eq (hs : s.Limited) (hh : s.Holds n) (hn : n ≤ s.input.length) :
    readFull (.ofNat n) s = .ok (s.input.take n) (s.skip n) := by
  have hnat : (UInt64.ofNat n).toNat = n := toNat_ofNat64 (by have := hs.lt; omega)
  rw [readFull, run_bind_of_ok (willRead_eq hs hh hn), hnat, pull, if_neg (Nat.not_lt.2 hn)]
  rfl

lemma readFull_ok {n : UInt64} {b : List UInt8} (hs : s.Limited) (h : readFull n s = .ok b t) :
    n.toNat ≤ s.input.length ∧ b = s.input.take n.toNat ∧ t = s.skip n.toNat := by
  obtain ⟨u, v, hw, hr⟩ := bind_run_ok h
  obtain ⟨hn, rfl⟩ := willRead_ok hs hw
  rw [pull, if_neg (Nat.not_lt.2 hn)] at hr
  cases hr
  exact ⟨hn, rfl, rfl⟩

lemma readFull_error {n : UInt64} (h : readFull n s = .error e t) : e.Plain := by
  obtain hw | ⟨_, _, _, hr⟩ := bind_run_error h
  · exact willRead_error hw
  · unfold pull at hr
    split at hr <;> cases hr
    exact ⟨nofun, nofun⟩

lemma readByte_eq (hs : s.Limited) (hi : s.input = b :: rest) (hh : s.Holds 1) : readByte s = .ok b (s.skip 1) := by
  have hw : willRead 1 s = .ok () { s.skip 1 with input := s.input } := willRead_eq hs hh (by simp [hi])
  rw [readByte, run_bind_of_ok hw, pullByte, hi]
  simp [hi, Stream.skip]

lemma readByte_ok (hs : s.Limited) (h : readByte s = .ok b t) : ∃ rest, s.input = b :: rest ∧ t = s.skip 1 := by
  obtain ⟨u, v, hw, hr⟩ := bind_run_ok h
  obtain ⟨hn, rfl⟩ := willRead_ok hs hw
  cases hi : s.input with
  | nil => simp [hi] at hn
  | cons c rest =>
    simp only [pullByte, hi] at hr
    cases hr
    exact ⟨rest, rfl, by simp [Stream.skip, hi]⟩

lemma readByte_error (h : readByte s = .error e t) : e.Plain := by
  obtain hw | ⟨_, _, _, hr⟩ := bind_run_error h
  · exact willRead_error hw
  · unfold pullByte at hr
    split at hr <;> cases hr
    exact ⟨nofun, nofun⟩

/-! ## Unsigned integers -/

lemma readUint_eq (hs : s.Limited) (hn : n ≠ 0) (hlt : n < 2 ^ 64)
    (hi : s.input = beBytes n ++ rest) (hh : s.Holds (beBytes n).length) :
    readUint (.ofNat (beBytes n).length) s = .ok (.ofNat n) (s.skip (beBytes n).length) := by
  have hlen : (beBytes n).length ≤ 8 := length_beBytes_le (by rwa [show (256 : Nat) ^ 8 = 2 ^ 64 by norm_num])
  have hpos : 0 < (beBytes n).length := length_pos_iff.2 (beBytes_ne_nil hn)
  have hnat : (UInt8.ofNat (beBytes n).length).toNat = (beBytes n).length := toNat_ofNat8 (by omega)
  have h0 : UInt8.ofNat (beBytes n).length ≠ 0 := by
    intro h
    rw [h] at hnat
    exact absurd hnat (by simp; omega)
  rw [readUint, if_neg h0]
  by_cases h1 : (beBytes n).length = 1
  · obtain ⟨x, hx⟩ := length_eq_one_iff.1 h1
    have hval : UInt64.ofNat n = x.toUInt64 := by
      rw [← UInt64.toNat_inj, UInt8.toNat_toUInt64, toNat_ofNat64 hlt, ← beNat_beBytes n, hx]
      simp [beNat]
    rw [hx] at hi hh ⊢
    rw [if_pos (by rfl), run_bind_of_ok (readByte_eq hs hi hh), hval]
    rfl
  · have h1' : UInt8.ofNat (beBytes n).length ≠ 1 := by
      intro h
      rw [h] at hnat
      exact h1 hnat.symm
    rw [if_neg h1', show (UInt8.ofNat (beBytes n).length).toUInt64 = .ofNat (beBytes n).length by
      rw [← UInt64.toNat_inj, UInt8.toNat_toUInt64, hnat, toNat_ofNat64 (by omega)],
      run_bind_of_ok (readFull_eq hs hh (by simp [hi])), hi, take_left', if_neg (head?_beBytes n), beNat_beBytes]
    · rfl
    · rfl

lemma readUint_ok {k : UInt8} {v : UInt64} (hs : s.Limited) (hk : k ≠ 0) (hk8 : k.toNat ≤ 8)
    (h : readUint k s = .ok v t) : ∃ buffer rest, s.input = buffer ++ rest ∧ buffer.length = k.toNat ∧ v.toNat =
      beNat buffer ∧ (v ≠ 0 → buffer.head? ≠ some 0) ∧ t = s.skip k.toNat := by
  rw [readUint, if_neg hk] at h
  split at h
  · next h1 =>
    obtain ⟨b, u, hb, hr⟩ := bind_run_ok h
    cases hr
    obtain ⟨rest, hi, rfl⟩ := readByte_ok hs hb
    refine ⟨[b], rest, hi, by simp [h1], by simp [beNat], fun hv hb0 => hv ?_, by simp [h1]⟩
    rw [head?_cons, Option.some.injEq] at hb0
    rw [hb0]
    rfl
  · obtain ⟨buffer, u, hb, hr⟩ := bind_run_ok h
    obtain ⟨hn, hbuf, rfl⟩ := readFull_ok hs hb
    rw [UInt8.toNat_toUInt64] at hn hbuf hr
    split at hr
    · cases hr
    · next hzero =>
      cases hr
      have hlen : buffer.length = k.toNat := by simp [hbuf, hn]
      have hlt : beNat buffer < 2 ^ 64 := by
        calc beNat buffer < 256 ^ buffer.length := beNat_lt buffer
          _ ≤ 256 ^ 8 := Nat.pow_le_pow_right (by norm_num) (hlen ▸ hk8)
          _ = 2 ^ 64 := by norm_num
      exact ⟨buffer, s.input.drop k.toNat, by simp [hbuf], hlen, toNat_ofNat64 hlt, fun _ => hzero, rfl⟩

lemma readUint_error {k : UInt8} (h : readUint k s = .error e t) : e.Plain := by
  unfold readUint at h
  split at h
  · cases h
  · split at h
    · obtain hb | ⟨_, _, _, hr⟩ := bind_run_error h
      · exact readByte_error hb
      · cases hr
    · obtain hb | ⟨_, _, _, hr⟩ := bind_run_error h
      · exact readFull_error hb
      · split at hr <;> cases hr
        exact ⟨nofun, nofun⟩

/-! ## The value ahead -/

/-- The bytes that announce the value ahead. -/
def Ahead.header (a : Ahead) : List UInt8 :=
  match a.kind with
  | .byte => [a.byteval]
  | .string => puthead 0x80 0xb7 a.size.toNat
  | .list => puthead 0xc0 0xf7 a.size.toNat

/-- What `Kind` returns without an error. -/
structure Ahead.Sound (a : Ahead) : Prop where
  kinderr : a.kinderr = none
  byte : a.kind = .byte → a.size = 0 ∧ a.byteval < 0x80
  byteval : a.kind ≠ .byte → a.byteval = 0

open Ahead

lemma Ahead.header_ne_nil (a : Ahead) : a.header ≠ [] := by
  unfold header
  split
  · simp
  · apply puthead_ne_nil
  · apply puthead_ne_nil

lemma sub_tag (tag : UInt8) (h : tag.toNat ≤ b.toNat) : b - tag = .ofNat (b.toNat - tag.toNat) := by
  rw [← UInt8.toNat_inj, UInt8.toNat_sub_of_le _ _ (UInt8.le_iff_toNat_le.2 h), toNat_ofNat8]
  have := b.toNat_lt
  omega

lemma not_lt_of_toNat_le {tag : UInt8} (h : tag.toNat ≤ b.toNat) : ¬ b < tag :=
  UInt8.not_lt.2 (UInt8.le_iff_toNat_le.2 h)

lemma sub_tag_toUInt64 (tag : UInt8) (h : tag.toNat ≤ b.toNat) :
    (b - tag).toUInt64 = .ofNat (b.toNat - tag.toNat) := by
  have := b.toNat_lt
  rw [← UInt64.toNat_inj, UInt8.toNat_toUInt64, UInt8.toNat_sub_of_le _ _ (UInt8.le_iff_toNat_le.2 h),
    toNat_ofNat64 (by omega)]

/-- The tags of a kind with a size: those of a short size start at `small`, those of a
long one after `large`. -/
structure Tagged (k : Kind) (small large : Nat) : Prop where
  step : large = small + 55
  top : small ≤ 192
  short : ∀ b : UInt8, small ≤ b.toNat → b.toNat ≤ large →
    ∀ s t, readByte s = .ok b t → readKind s = (⟨k, .ofNat (b.toNat - small), 0, none⟩, t)
  long : ∀ b : UInt8, large < b.toNat → b.toNat ≤ large + 8 →
    ∀ s t, readByte s = .ok b t → readKind s = readSize k (.ofNat (b.toNat - large)) t

lemma list_tag (h : 0xc0 ≤ b.toNat) : ¬ b < 0x80 ∧ ¬ b < 0xb8 ∧ ¬ b < 0xc0 := by
  simp only [UInt8.lt_iff_toNat_lt]
  simp
  omega

lemma tagged_string : Tagged .string 0x80 0xb7 where
  step := rfl
  top := by decide
  short b hlow hhigh s t h := by
    have h1 : ¬ b < 0x80 := not_lt_of_toNat_le hlow
    have h2 : b < 0xb8 := UInt8.lt_iff_toNat_lt.2 (Nat.lt_succ_iff.2 hhigh)
    simp only [readKind, h, if_neg h1, if_pos h2, sub_tag_toUInt64 0x80 hlow]
    rfl
  long b hlow hhigh s t h := by
    have h1 : ¬ b < 0x80 := not_lt_of_toNat_le (by simp; omega)
    have h2 : ¬ b < 0xb8 := not_lt_of_toNat_le hlow
    have h3 : b < 0xc0 := UInt8.lt_iff_toNat_lt.2 (Nat.lt_succ_iff.2 hhigh)
    simp only [readKind, h, if_neg h1, if_neg h2, if_pos h3, sub_tag 0xb7 (Nat.le_of_lt hlow)]
    rfl

lemma tagged_list : Tagged .list 0xc0 0xf7 where
  step := rfl
  top := by decide
  short b hlow hhigh s t h := by
    obtain ⟨h1, h2, h3⟩ := list_tag hlow
    have h4 : b < 0xf8 := UInt8.lt_iff_toNat_lt.2 (Nat.lt_succ_iff.2 hhigh)
    simp only [readKind, h, if_neg h1, if_neg h2, if_neg h3, if_pos h4, sub_tag_toUInt64 0xc0 hlow]
    rfl
  long b hlow hhigh s t h := by
    obtain ⟨h1, h2, h3⟩ := list_tag (b := b) (by omega)
    have h4 : ¬ b < 0xf8 := not_lt_of_toNat_le hlow
    simp only [readKind, h, if_neg h1, if_neg h2, if_neg h3, if_neg h4, sub_tag 0xf7 (Nat.le_of_lt hlow)]
    rfl

lemma readKind_byte (hb : b.toNat < 0x80) (h : readByte s = .ok b t) : readKind s = (⟨.byte, 0, b, none⟩, t) := by
  have h1 : b < 0x80 := UInt8.lt_iff_toNat_lt.2 hb
  simp only [readKind, h, if_pos h1]

lemma readKind_puthead (hk : Tagged k small large) (hs : s.Limited) (hn : n < 2 ^ 64)
    (hi : s.input = puthead small large n ++ rest) (hh : s.Holds (puthead small large n).length) : readKind s =
      (⟨k, .ofNat n, 0, none⟩, s.skip (puthead small large n).length) := by
  have hstep := hk.step
  have htop := hk.top
  by_cases h56 : n < 56
  · rw [puthead, if_pos h56] at hi hh ⊢
    have hread := readByte_eq hs hi hh
    have htag : (UInt8.ofNat (small + n)).toNat = small + n := toNat_ofNat8 (by omega)
    rw [hk.short _ (by omega) (by omega) s _ hread, htag, Nat.add_sub_cancel_left]
    rfl
  · have hlen : (beBytes n).length ≤ 8 := length_beBytes_le (by rwa [show (256 : Nat) ^ 8 = 2 ^ 64 by norm_num])
    have hpos : 0 < (beBytes n).length := length_pos_iff.2 (beBytes_ne_nil (by omega))
    rw [puthead, if_neg h56] at hi hh ⊢
    rw [length_cons] at hh ⊢
    have hread := readByte_eq hs hi (hh.mono (by omega))
    have htag : (UInt8.ofNat (large + (beBytes n).length)).toNat = large + (beBytes n).length :=
      toNat_ofNat8 (by omega)
    have hi' : (s.skip 1).input = beBytes n ++ rest := by simp [hi]
    have hsize := readUint_eq (hs.skip (by simp [hi])) (by omega) hn hi' (Stream.Holds.skip (by rwa [Nat.add_comm]))
    have h56' : ¬ UInt64.ofNat n < 56 := by
      rw [lt_iff_toNat_lt, toNat_ofNat64 hn]
      exact h56
    rw [hk.long _ (by omega) (by omega) s _ hread, htag, Nat.add_sub_cancel_left, readSize, hsize, Stream.skip_skip,
      Nat.add_comm]
    simp only [if_neg h56']

lemma readSize_ok {c : UInt8} (hs : s.Limited) (hc : c ≠ 0) (hc8 : c.toNat ≤ 8) (h : readSize k c s = (a, t))
    (ha : a.kinderr = none) : ∃ rest, s.input = beBytes a.size.toNat ++ rest ∧ (beBytes a.size.toNat).length = c.toNat ∧
      56 ≤ a.size.toNat ∧ a = ⟨k, a.size, 0, none⟩ ∧ t = s.skip c.toNat := by
  unfold readSize at h
  split at h
  · next size u hsize =>
    obtain ⟨buffer, rest, hi, hlen, hval, hzero, rfl⟩ := readUint_ok hs hc hc8 hsize
    cases h
    simp only [ite_eq_right_iff, reduceCtorEq, imp_false, lt_iff_toNat_lt] at ha
    have h56 : 56 ≤ size.toNat := Nat.not_lt.1 ha
    have hbuf : beBytes size.toNat = buffer := by
      rw [hval]
      apply beBytes_beNat
      apply hzero
      rintro rfl
      exact absurd h56 (by decide)
    refine ⟨rest, by rw [hbuf, hi], by rw [hbuf, hlen], h56, ?_, rfl⟩
    simp only [lt_iff_toNat_lt, if_neg ha]
  · cases h
    cases ha

lemma Tagged.readKind_ok (hk : Tagged k small large) (hs : s.Limited) (hlow : small ≤ b.toNat)
    (hhigh : b.toNat ≤ large + 8) (hi : s.input = b :: rest) (hb : readByte s = .ok b (s.skip 1))
    (h : readKind s = (a, t)) (ha : a.kinderr = none) : ∃ rest, s.input = puthead small large a.size.toNat ++ rest ∧ a =
      ⟨k, a.size, 0, none⟩ ∧ t = s.skip (puthead small large a.size.toNat).length := by
  have hstep := hk.step
  have htop := hk.top
  by_cases hshort : b.toNat ≤ large
  · rw [hk.short b hlow hshort s _ hb] at h
    cases h
    have hsize : (UInt64.ofNat (b.toNat - small)).toNat = b.toNat - small := toNat_ofNat64 (by omega)
    have hhead : puthead small large (b.toNat - small) = [b] := by
      rw [puthead, if_pos (by omega), Nat.add_sub_cancel' hlow, UInt8.ofNat_toNat]
    refine ⟨rest, ?_, rfl, ?_⟩
    · rw [hsize, hhead, hi]
      rfl
    · rw [hsize, hhead]
      rfl
  · rw [hk.long b (by omega) hhigh s _ hb] at h
    have hc : (UInt8.ofNat (b.toNat - large)).toNat = b.toNat - large := toNat_ofNat8 (by omega)
    obtain ⟨rest', hi', hlen, h56, haeq, rfl⟩ := readSize_ok (hs.skip (by simp [hi]))
      (by intro h0; rw [h0] at hc; simp at hc; omega) (by omega) h ha
    have hhead : puthead small large a.size.toNat = b :: beBytes a.size.toNat := by
      rw [puthead, if_neg (by omega), hlen, hc, show large + (b.toNat - large) = b.toNat by omega, UInt8.ofNat_toNat]
    rw [Stream.skip_input, hi, drop_succ_cons, drop_zero] at hi'
    refine ⟨rest', by rw [hhead, hi, hi']; rfl, haeq, ?_⟩
    rw [hhead, Stream.skip_skip, length_cons, hlen, Nat.add_comm]

lemma readKind_ok (hs : s.Limited) (h : readKind s = (a, t)) (ha : a.kinderr = none) :
    ∃ rest, s.input = a.header ++ rest ∧ a.Sound ∧ t = s.skip a.header.length := by
  cases hb : readByte s with
  | error e u =>
    simp only [readKind, hb] at h
    cases h
    cases ha
  | ok b u =>
    obtain ⟨rest, hi, rfl⟩ := readByte_ok hs hb
    have hlt := b.toNat_lt
    by_cases h1 : b.toNat < 0x80
    · rw [readKind_byte h1 hb] at h
      cases h
      exact ⟨rest, hi, ⟨rfl, fun _ => ⟨rfl, UInt8.lt_iff_toNat_lt.2 h1⟩, fun h => absurd rfl h⟩, rfl⟩
    · by_cases h2 : b.toNat < 0xc0
      · obtain ⟨rest', hi', haeq, ht⟩ := tagged_string.readKind_ok hs (by omega) (by omega) hi hb h ha
        rw [haeq]
        exact ⟨rest', hi', ⟨rfl, nofun, fun _ => rfl⟩, ht⟩
      · obtain ⟨rest', hi', haeq, ht⟩ := tagged_list.readKind_ok hs (by omega) (by omega) hi hb h ha
        rw [haeq]
        exact ⟨rest', hi', ⟨rfl, nofun, fun _ => rfl⟩, ht⟩

lemma Ahead.Sound.readKind (ha : a.Sound) (hs : s.Limited) (hi : s.input = a.header ++ rest)
    (hh : s.Holds a.header.length) : readKind s = (a, s.skip a.header.length) := by
  obtain ⟨k, size, byteval, kinderr⟩ := a
  cases ha.kinderr
  cases k with
  | byte =>
    obtain ⟨rfl, hlt⟩ := ha.byte rfl
    exact readKind_byte (UInt8.lt_iff_toNat_lt.1 hlt) (readByte_eq hs hi hh)
  | string =>
    cases ha.byteval nofun
    have := readKind_puthead tagged_string hs size.toNat_lt hi hh
    rwa [UInt64.ofNat_toNat] at this
  | list =>
    cases ha.byteval nofun
    have := readKind_puthead tagged_list hs size.toNat_lt hi hh
    rwa [UInt64.ofNat_toNat] at this

lemma readKind_error (h : readKind s = (a, t)) (ha : a.kinderr = some e) : e.Plain := by
  have hsize : ∀ (k : Kind) (c : UInt8) (u : Stream), readSize k c u = (a, t) → e.Plain := by
    intro k c u h
    unfold readSize at h
    split at h
    · cases h
      simp only [Option.ite_none_right_eq_some, Option.some.injEq] at ha
      rw [← ha.2]
      exact ⟨nofun, nofun⟩
    · next hu =>
      cases h
      cases ha
      exact readUint_error hu
  unfold readKind at h
  split at h
  · next hb =>
    cases h
    cases ha
    unfold adjustEOF
    split
    · exact ⟨nofun, nofun⟩
    · exact readByte_error hb
  · split at h
    · cases h
      cases ha
    · split at h
      · cases h
        cases ha
      · split at h
        · exact hsize _ _ _ h
        · split at h
          · cases h
            cases ha
          · exact hsize _ _ _ h

lemma Ahead.checked_error (h : (a.checked limit remaining).kinderr = some e) : a.kinderr = some e ∨ e.Plain := by
  unfold checked at h
  split at h
  · exact .inl h
  · split at h
    · cases h
      exact .inr ⟨nofun, nofun⟩
    · split at h
      · cases h
        exact .inr ⟨nofun, nofun⟩
      · exact .inl h

lemma Ahead.checked_ok (h : (a.checked limit remaining).kinderr = none) :
    a.checked limit remaining = a ∧ a.size.toNat ≤ remaining.toNat := by
  unfold checked at h ⊢
  split at h
  · contradiction
  · next hnone =>
    rw [if_neg hnone]
    split at h
    · cases h
    · next hlimit =>
      rw [if_neg hlimit]
      split at h
      · cases h
      · next hremaining =>
        rw [if_neg hremaining]
        exact ⟨rfl, Nat.not_lt.1 (mt lt_iff_toNat_lt.2 hremaining)⟩

/-! ## Kind -/

/-- Having read the head of the value ahead. -/
def Stream.at (a : Ahead) (s : Stream) : Stream := { s.skip a.header.length with ahead := some a }

@[simp] lemma Stream.skip_at (a : Ahead) : (s.at a).skip n = s.skip (a.header.length + n) := by
  rw [Stream.at, Stream.skip_with_ahead, Stream.skip_skip]

lemma kind_eq (ha : a.Sound) (hs : s.Limited) (hnone : s.ahead = none) (hi : s.input = a.header ++ rest)
    (hsize : a.size.toNat ≤ rest.length) (hh : s.Holds (a.header.length + a.size.toNat)) : kind s = .ok a (s.at a) := by
  have hpos : 0 < a.header.length := length_pos_iff.2 a.header_ne_nil
  have hlimit : ¬ s.listLimit.any (· < a.size) := by
    rw [Option.any_eq_true]
    rintro ⟨limit, hl, hlt⟩
    have := hh limit hl
    rw [decide_eq_true_iff, lt_iff_toNat_lt] at hlt
    omega
  have hremaining : ¬ (s.skip a.header.length).remaining < a.size := by
    have hl : (s.skip a.header.length).Limited := hs.skip (by simp [hi])
    rw [lt_iff_toNat_lt, hl]
    simpa [hi] using hsize
  have hchecked : a.checked s.listLimit (s.skip a.header.length).remaining = a := by
    rw [checked, if_neg (not_not.2 ha.kinderr), if_neg hlimit, if_neg hremaining]
  simp only [kind, hnone, if_neg (hh.listLimit_ne (by omega)), ha.readKind hs hi (hh.mono (by omega)), hchecked,
    result, ha.kinderr]
  rfl

lemma kind_ok (hs : s.Limited) (hnone : s.ahead = none) (h : kind s = .ok a t) :
    ∃ rest, s.input = a.header ++ rest ∧ a.size.toNat ≤ rest.length ∧ a.Sound ∧ t = s.at a := by
  simp only [kind, hnone] at h
  split at h
  · cases h
  · generalize hr : readKind s = r at h
    obtain ⟨a', u⟩ := r
    simp only [result] at h
    split at h
    · next hkind =>
      obtain ⟨hchecked, hsize⟩ := checked_ok hkind
      rw [hchecked] at h hkind
      cases h
      obtain ⟨rest, hi, hsound, rfl⟩ := readKind_ok hs hr hkind
      have hl : (s.skip a.header.length).Limited := hs.skip (by simp [hi])
      rw [hl, Stream.skip_input, hi, drop_left] at hsize
      exact ⟨rest, hi, hsize, hsound, rfl⟩
    · cases h

lemma kind_error (hnone : s.ahead = none) (h : kind s = .error e t) :
    e.Plain ∨ e = .eol ∧ s.listLimit = some 0 ∧ t = s := by
  simp only [kind, hnone] at h
  split at h
  · next hlimit =>
    cases h
    exact .inr ⟨rfl, hlimit, rfl⟩
  · generalize hr : readKind s = r at h
    obtain ⟨a', u⟩ := r
    simp only [result] at h
    split at h
    · cases h
    · next hkind =>
      cases h
      obtain hread | hplain := checked_error hkind
      · exact .inl (readKind_error hr hread)
      · exact .inl hplain

lemma kind_eol (hnone : s.ahead = none) (h : s.listLimit = some 0) : kind s = .error .eol s := by
  simp only [kind, hnone, if_pos h]

/-- A second call returns what the first one has. -/
lemma kind_at (ha : a.Sound) : kind (s.at a) = .ok a (s.at a) := by
  simp only [kind, Stream.at, result, ha.kinderr]

lemma Stream.Limited.at (hs : s.Limited) (hi : s.input = a.header ++ rest) :
    (s.at a).Limited := hs.skip (n := a.header.length) (by simp [hi])

/-- The payload of the value ahead. -/
lemma readFull_at (hs : s.Limited) (hi : s.input = a.header ++ rest)
    (hsize : a.size.toNat ≤ rest.length) (hh : s.Holds (a.header.length + a.size.toNat)) :
    readFull a.size (s.at a) = .ok (rest.take a.size.toNat) (s.skip (a.header.length + a.size.toNat)) := by
  have hrest : (s.at a).input = rest := by simp [Stream.at, hi]
  have hread := readFull_eq (n := a.size.toNat) (hs.at hi) hh.skip (by rwa [hrest])
  rwa [UInt64.ofNat_toNat, hrest, Stream.skip_at] at hread

lemma readFull_at_ok {b : List UInt8} (hs : s.Limited) (hi : s.input = a.header ++ rest)
    (h : readFull a.size (s.at a) = .ok b t) :
    b = rest.take a.size.toNat ∧ t = s.skip (a.header.length + a.size.toNat) := by
  have hrest : (s.at a).input = rest := by simp [Stream.at, hi]
  obtain ⟨-, hb, ht⟩ := readFull_ok (hs.at hi) h
  rw [hrest] at hb
  rw [Stream.skip_at] at ht
  exact ⟨hb, ht⟩

end TurboOctopus.Rlp
