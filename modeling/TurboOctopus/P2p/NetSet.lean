import TurboOctopus.Lib.Maps
/-!
# Addresses and subnet counters

`netutil.IsLAN` and `netutil.DistinctNetSet`: how many addresses of one subnet
are tracked, never more than the limit.
-/

namespace TurboOctopus.Netutil

open Lib Finmap

/-- A `net.IP`: 4 bytes, 16 bytes, or no address at all. -/
abbrev IP := List UInt8

def v4InV6 : IP := List.replicate 10 0 ++ [0xff, 0xff]

/-- `IP.To4`. -/
def to4 (ip : IP) : Option IP :=
  if ip.length = 4 then some ip
  else if ip.length = 16 ∧ ip.take 12 = v4InV6 then some (ip.drop 12)
  else none

/-- `IP.Equal`: an IPv4 address and the same address in IPv6 form are equal. -/
def equal (ip x : IP) : Bool :=
  if ip.length = x.length then ip = x
  else if ip.length = 4 ∧ x.length = 16 then x.take 12 = v4InV6 ∧ ip = x.drop 12
  else if ip.length = 16 ∧ x.length = 4 then ip.take 12 = v4InV6 ∧ ip.drop 12 = x
  else false

/-- The byte of a network mask that has this many leading ones. -/
def maskByte (ones : Nat) : UInt8 := .ofNat (256 - 2 ^ (8 - ones))

/-- `IPNet.Contains` for the network of this many bits. -/
def contains (network : IP) (bits : Nat) (ip : IP) : Bool :=
  let ip := (to4 ip).getD ip
  ip.length = network.length &&
    (List.range ip.length).all fun i =>
      network.getD i 0 &&& maskByte (bits - 8 * i) == ip.getD i 0 &&& maskByte (bits - 8 * i)

def lan4 : List (IP × Nat) := [([0, 0, 0, 0], 8), ([10, 0, 0, 0], 8), ([172, 16, 0, 0], 12), ([192, 168, 0, 0], 16)]

def lan6 : List (IP × Nat) := [(0xfe :: 0x80 :: List.replicate 14 0, 10), (0xfc :: List.replicate 15 0, 7)]

def isLoopback (ip : IP) : Bool :=
  match to4 ip with
  | some ip4 => ip4.head? = some 127
  | none => equal ip (List.replicate 15 0 ++ [1])

def isLAN (ip : IP) : Bool :=
  isLoopback ip ||
    match to4 ip with
    | some v4 => lan4.any fun net => contains net.1 net.2 v4
    | none => lan6.any fun net => contains net.1 net.2 ip

/-- `DistinctNetSet.key`: the family of the address and its first `subnet` bits. -/
def key (subnet : Nat) (ip : IP) : List UInt8 :=
  let typed := match to4 ip with
    | some ip4 => ((52 : UInt8), ip4)
    | none => (54, ip)
  let bits := min subnet (typed.2.length * 8)
  let nb := bits / 8
  let mask := maskByte (bits % 8)
  typed.1 :: typed.2.take nb ++ if nb < typed.2.length ∧ mask ≠ 0 then [typed.2.getD nb 0 &&& mask] else []

/-- Equal addresses are the same IPv4 address, or the same bytes. -/
lemma to4_of_equal {ip x : IP} (h : equal ip x) : ip = x ∨ ∃ ip4, to4 ip = some ip4 ∧ to4 x = some ip4 := by
  unfold equal at h
  split at h
  · exact .inl (of_decide_eq_true h)
  split at h
  next hlen =>
    have heq := of_decide_eq_true h
    exact .inr ⟨ip, by simp [to4, hlen.1], by simp [to4, hlen.2, heq.1, ← heq.2]⟩
  split at h
  next hlen =>
    have heq := of_decide_eq_true h
    exact .inr ⟨x, by simp [to4, hlen.1, heq.1, heq.2], by simp [to4, hlen.2]⟩
  · cases h

lemma isLAN_of_equal {ip x : IP} (h : equal ip x) : isLAN ip = isLAN x := by
  obtain rfl | ⟨ip4, h4, h4'⟩ := to4_of_equal h
  · rfl
  · simp [isLAN, isLoopback, h4, h4']

lemma key_of_equal {ip x : IP} (h : equal ip x) (subnet : Nat) : key subnet ip = key subnet x := by
  obtain rfl | ⟨ip4, h4, h4'⟩ := to4_of_equal h
  · rfl
  · simp [key, h4, h4']

lemma ne_nil_of_equal {ip x : IP} (h : equal ip x) (hx : x ≠ []) : ip ≠ [] := by
  rintro rfl
  obtain rfl | ⟨ip4, h4, -⟩ := to4_of_equal h
  · exact hx rfl
  · simp [to4] at h4

/-- The counter of each subnet that has one; a counter that would be zero is deleted. -/
structure DistinctNetSet (subnet limit : Nat) where
  members : GoMap (List UInt8) Nat
  bounds : ∀ k n, members.lookup k = some n → 0 < n ∧ n ≤ limit

namespace DistinctNetSet

variable {subnet limit : Nat} {s s' : DistinctNetSet subnet limit} {ip : IP}

def empty : DistinctNetSet subnet limit := ⟨∅, fun k n h => by simp at h⟩

def count (s : DistinctNetSet subnet limit) (k : List UInt8) : Nat := (s.members.lookup k).getD 0

/-- `Add`; it gives nothing where the source returns false and leaves the set alone. -/
def add (s : DistinctNetSet subnet limit) (ip : IP) : Option (DistinctNetSet subnet limit) :=
  if h : s.count (key subnet ip) < limit then
    some ⟨s.members.insert (key subnet ip) (s.count (key subnet ip) + 1), fun k n hn => by
      rcases lookup_insert_iff.1 hn with ⟨-, rfl⟩ | ⟨-, hold⟩
      · omega
      · exact s.bounds k n hold⟩
  else none

lemma bounds_erase (s : DistinctNetSet subnet limit) (ip : IP) (k : List UInt8) (m : Nat)
    (hm : (s.members.erase (key subnet ip)).lookup k = some m) : 0 < m ∧ m ≤ limit :=
  s.bounds k m (lookup_erase_iff.1 hm).2

lemma bounds_pred (s : DistinctNetSet subnet limit) (ip : IP) (n : Nat)
    (hs : s.members.lookup (key subnet ip) = some n) (h : n ≠ 1) (k : List UInt8) (m : Nat)
    (hm : (s.members.insert (key subnet ip) (n - 1)).lookup k = some m) : 0 < m ∧ m ≤ limit := by
  rcases lookup_insert_iff.1 hm with ⟨-, rfl⟩ | ⟨-, hold⟩
  · have := s.bounds _ n hs
    omega
  · exact s.bounds k m hold

def remove (s : DistinctNetSet subnet limit) (ip : IP) : DistinctNetSet subnet limit :=
  match hs : s.members.lookup (key subnet ip) with
  | none => s
  | some n =>
    if h : n = 1 then ⟨s.members.erase (key subnet ip), s.bounds_erase ip⟩
    else ⟨s.members.insert (key subnet ip) (n - 1), s.bounds_pred ip n hs h⟩

lemma count_empty (k : List UInt8) : (empty : DistinctNetSet subnet limit).count k = 0 := by simp [count, empty]

lemma count_le (s : DistinctNetSet subnet limit) (k : List UInt8) : s.count k ≤ limit := by
  unfold count
  cases h : s.members.lookup k with
  | none => simp
  | some n => exact (s.bounds k n h).2

lemma add_isSome (s : DistinctNetSet subnet limit) (ip : IP) :
    (s.add ip).isSome = decide (s.count (key subnet ip) < limit) := by
  unfold add
  split <;> simp [*]

lemma count_add (h : s.add ip = some s') (k : List UInt8) :
    s'.count k = s.count k + if k = key subnet ip then 1 else 0 := by
  unfold add at h
  split at h
  · cases h
    by_cases hk : k = key subnet ip
    · subst hk; simp [count, lookup_insert]
    · simp [count, hk, lookup_insert_of_ne]
  · cases h

lemma count_remove (k : List UInt8) : (s.remove ip).count k = s.count k - if k = key subnet ip then 1 else 0 := by
  unfold remove
  split
  next hs =>
    by_cases hk : k = key subnet ip
    · subst hk; simp [count, hs]
    · simp [hk]
  next n hs =>
    by_cases hk : k = key subnet ip
    · subst hk
      split
      · simp [count, lookup_erase, *]
      · simp [count, hs, lookup_insert]
    · split
      · simp [count, lookup_erase_ne hk]
      · simp [count, hk, lookup_insert_of_ne]

end DistinctNetSet

end TurboOctopus.Netutil
