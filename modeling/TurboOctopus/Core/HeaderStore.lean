import TurboOctopus.Core.HeaderChain
/-!
# What the header chain answers

The caches answer by the hash alone and the database by the number as well, so the chain
answers as its database does about a header under its own number, while every cached
entry is in the database (`HeaderChain.Sound`). Reading keeps that; inserting keeps it
when the batch is written.
-/
namespace TurboOctopus.Core

open Lib

variable {H κ : Type} [DecidableEq κ] {v : HeaderFields H κ}

/-! ## The database -/

variable (v) in
def HeaderDb.Stored (db : HeaderDb H κ) (h : H) : Prop := db.headers.lookup (v.number h, v.hash h) = some h

variable (v) in
/-- Headers are stored under their numbers and hashes, with the total difficulties of
their chains. A total difficulty may be stored without its header. -/
structure HeaderDb.Sound (db : HeaderDb H κ) : Prop where
  header : ∀ n k h, db.headers.lookup (n, k) = some h → v.number h = n ∧ v.hash h = k
  number : ∀ k n, db.numbers.lookup k = some n ↔ ∃ h, db.headers.lookup (n, k) = some h
  td : ∀ n k td, db.tds.lookup (n, k) = some td → td = v.total k ∧ ∀ h, v.hash h = k → v.number h = n
  td_of_stored : ∀ h, db.Stored v h → db.tds.lookup (v.number h, v.hash h) = some (v.total (v.hash h))

variable {db : HeaderDb H κ}

lemma HeaderDb.Sound.stored_of_lookup (hdb : db.Sound v) {n : UInt64} {k : κ} {h : H}
    (hh : db.headers.lookup (n, k) = some h) : v.number h = n ∧ v.hash h = k ∧ db.Stored v h := by
  obtain ⟨rfl, rfl⟩ := hdb.header n k h hh
  exact ⟨rfl, rfl, hh⟩

lemma HeaderDb.Sound.isSome_iff (hdb : db.Sound v) (h : H) :
    (db.headers.lookup (v.number h, v.hash h)).isSome = true ↔ db.Stored v h := by
  constructor
  · intro hsome
    obtain ⟨h', hh'⟩ := Option.isSome_iff_exists.1 hsome
    obtain ⟨-, hhash⟩ := hdb.header _ _ _ hh'
    rwa [v.hash_inj h' h hhash] at hh'
  · intro hstored
    exact Option.isSome_iff_exists.2 ⟨h, hstored⟩

omit [DecidableEq κ] in
/-- The parent of a header has the number before it. -/
lemma HeaderFields.number_sub_one (v : HeaderFields H κ) {h p : H} (hp : v.hash p = v.parentHash h) :
    v.number h - 1 = v.number p := by
  have hsucc := v.number_parent h p hp
  have hle : (1 : UInt64) ≤ v.number h := by
    rw [UInt64.le_iff_toNat_le, UInt64.toNat_one]
    omega
  apply UInt64.toNat.inj
  rw [UInt64.toNat_sub_of_le _ _ hle, UInt64.toNat_one]
  omega

/-! ## The caches -/

variable (v) in
/-- What a cached total difficulty says: it is stored for every header with the hash. -/
def HeaderDb.HoldsTd (db : HeaderDb H κ) (k : κ) (td : Nat) : Prop :=
  td = v.total k ∧ ∀ h, v.hash h = k → db.tds.lookup (v.number h, k) = some (v.total k)

variable (v) in
def HeaderDb.HoldsHeader (db : HeaderDb H κ) (k : κ) (h : H) : Prop := v.hash h = k ∧ db.Stored v h

def HeaderDb.HoldsNumber (db : HeaderDb H κ) (k : κ) (n : UInt64) : Prop := db.numbers.lookup k = some n

variable (v) in
/-- What is cached is stored, and so is the current header. -/
structure HeaderChain.Sound (s : HeaderChain H κ) : Prop where
  db : s.db.Sound v
  header : s.headerCache.All (s.db.HoldsHeader v)
  td : s.tdCache.All (s.db.HoldsTd v)
  number : s.numberCache.All s.db.HoldsNumber
  current : s.db.Stored v s.currentHeader
  currentHash : s.currentHeaderHash = v.hash s.currentHeader

variable (v) in
/-- The two answer alike: about every header, under its own number. -/
structure HeaderChain.Same (s t : HeaderChain H κ) : Prop where
  hasHeader : ∀ h, s.hasHeader (v.hash h) (v.number h) = t.hasHeader (v.hash h) (v.number h)
  getHeader : ∀ h, (s.getHeader (v.hash h) (v.number h)).1 = (t.getHeader (v.hash h) (v.number h)).1
  getTd : ∀ h, (s.getTd (v.hash h) (v.number h)).1 = (t.getTd (v.hash h) (v.number h)).1
  getBlockNumber : ∀ k, (s.getBlockNumber k).1 = (t.getBlockNumber k).1
  getCanonicalHash : ∀ n, s.getCanonicalHash n = t.getCanonicalHash n
  currentHeader : s.currentHeader = t.currentHeader

variable {s t : HeaderChain H κ}

lemma HeaderChain.Same.symm (h : s.Same v t) : t.Same v s :=
  ⟨fun x => (h.hasHeader x).symm, fun x => (h.getHeader x).symm, fun x => (h.getTd x).symm,
    fun k => (h.getBlockNumber k).symm, fun n => (h.getCanonicalHash n).symm, h.currentHeader.symm⟩

lemma HeaderChain.Same.trans {u : HeaderChain H κ} (h : s.Same v t) (h' : t.Same v u) : s.Same v u :=
  ⟨fun x => (h.hasHeader x).trans (h'.hasHeader x), fun x => (h.getHeader x).trans (h'.getHeader x),
    fun x => (h.getTd x).trans (h'.getTd x), fun k => (h.getBlockNumber k).trans (h'.getBlockNumber k),
    fun n => (h.getCanonicalHash n).trans (h'.getCanonicalHash n), h.currentHeader.trans h'.currentHeader⟩

open HeaderChain

namespace HeaderChain

lemma Sound.hasHeader_iff (hs : s.Sound v) (h : H) :
    s.hasHeader (v.hash h) (v.number h) = true ↔ s.db.Stored v h := by
  unfold hasHeader
  rw [Bool.or_eq_true, Bool.or_eq_true, hs.db.isSome_iff]
  constructor
  · rintro ((hnumber | hheader) | hstored)
    · obtain ⟨n, hn⟩ := Lru.contains_iff.1 hnumber
      obtain ⟨h', hh'⟩ := (hs.db.number _ _).1 (hs.number _ _ hn)
      obtain ⟨-, hhash, hstored⟩ := hs.db.stored_of_lookup hh'
      rwa [v.hash_inj h' h hhash] at hstored
    · obtain ⟨h', hh'⟩ := Lru.contains_iff.1 hheader
      obtain ⟨hhash, hstored⟩ := hs.header _ _ hh'
      rwa [v.hash_inj h' h hhash] at hstored
    · exact hstored
  · exact .inr

lemma getHeader_fst (s : HeaderChain H κ) (k : κ) (n : UInt64) :
    (s.getHeader k n).1 = (s.headerCache.peek k).or (s.db.headers.lookup (n, k)) := Lru.readThrough_fst _ _ _

lemma getTd_fst (s : HeaderChain H κ) (k : κ) (n : UInt64) :
    (s.getTd k n).1 = (s.tdCache.peek k).or (s.db.tds.lookup (n, k)) := Lru.readThrough_fst _ _ _

lemma getBlockNumber_fst (s : HeaderChain H κ) (k : κ) :
    (s.getBlockNumber k).1 = (s.numberCache.peek k).or (s.db.numbers.lookup k) := Lru.readThrough_fst _ _ _

lemma Sound.getHeader_eq (hs : s.Sound v) (h : H) :
    (s.getHeader (v.hash h) (v.number h)).1 = s.db.headers.lookup (v.number h, v.hash h) := by
  rw [getHeader_fst]
  cases hc : s.headerCache.peek (v.hash h) with
  | none => rfl
  | some h' =>
    obtain ⟨hhash, hstored⟩ := hs.header _ _ hc
    obtain rfl := v.hash_inj h' h hhash
    exact hstored.symm

lemma Sound.getTd_eq (hs : s.Sound v) (h : H) :
    (s.getTd (v.hash h) (v.number h)).1 = s.db.tds.lookup (v.number h, v.hash h) := by
  rw [getTd_fst]
  cases hc : s.tdCache.peek (v.hash h) with
  | none => rfl
  | some td =>
    obtain ⟨rfl, hstored⟩ := hs.td _ _ hc
    exact (hstored h rfl).symm

lemma Sound.getBlockNumber_eq (hs : s.Sound v) (k : κ) : (s.getBlockNumber k).1 = s.db.numbers.lookup k := by
  rw [getBlockNumber_fst]
  cases hc : s.numberCache.peek k with
  | none => rfl
  | some n => exact (hs.number _ _ hc).symm

/-- What a sound chain answers is what its database holds. -/
lemma Sound.same (hs : s.Sound v) (ht : t.Sound v) (hdb : t.db = s.db)
    (hcurrent : t.currentHeader = s.currentHeader) : s.Same v t where
  hasHeader h := by rw [Bool.eq_iff_iff, hs.hasHeader_iff, ht.hasHeader_iff, hdb]
  getHeader h := by rw [hs.getHeader_eq, ht.getHeader_eq, hdb]
  getTd h := by rw [hs.getTd_eq, ht.getTd_eq, hdb]
  getBlockNumber k := by rw [hs.getBlockNumber_eq, ht.getBlockNumber_eq, hdb]
  getCanonicalHash n := by rw [getCanonicalHash, getCanonicalHash, hdb]
  currentHeader := hcurrent.symm

/-! ## Reading -/

variable (v) in
/-- Only the caches of `t` differ from those of `s`, and they are sound. -/
structure Reads (s t : HeaderChain H κ) : Prop where
  sound : t.Sound v
  db : t.db = s.db
  currentHeader : t.currentHeader = s.currentHeader

lemma Reads.refl (hs : s.Sound v) : s.Reads v s := ⟨hs, rfl, rfl⟩

lemma Reads.trans {u : HeaderChain H κ} (h : s.Reads v t) (h' : t.Reads v u) : s.Reads v u :=
  ⟨h'.sound, h'.db.trans h.db, h'.currentHeader.trans h.currentHeader⟩

lemma Reads.same (hs : s.Sound v) (h : s.Reads v t) : s.Same v t := hs.same h.sound h.db h.currentHeader

lemma Sound.getTd (hs : s.Sound v) (k : κ) (n : UInt64) : s.Reads v (s.getTd k n).2 := by
  refine ⟨{ hs with td := ?_ }, rfl, rfl⟩
  refine hs.td.readThrough fun td htd => ?_
  obtain ⟨rfl, hnum⟩ := hs.db.td n k td htd
  exact ⟨rfl, fun h hh => by rw [hnum h hh]; exact htd⟩

lemma Sound.getHeader (hs : s.Sound v) (k : κ) (n : UInt64) : s.Reads v (s.getHeader k n).2 := by
  refine ⟨{ hs with header := ?_ }, rfl, rfl⟩
  refine hs.header.readThrough fun h hh => ?_
  obtain ⟨-, hhash, hstored⟩ := hs.db.stored_of_lookup hh
  exact ⟨hhash, hstored⟩

/-- A total difficulty that is found is that of the chain, whatever number it is asked with. -/
lemma Sound.total_of_getTd (hs : s.Sound v) {k : κ} {n : UInt64} {td : Nat}
    (h : (s.getTd k n).1 = some td) : td = v.total k := by
  rw [getTd_fst] at h
  cases hc : s.tdCache.peek k with
  | none =>
    rw [hc] at h
    exact (hs.db.td n k td h).1
  | some td' =>
    rw [hc] at h
    cases h
    exact (hs.td _ _ hc).1

lemma Sound.getHeader_parent (hs : s.Sound v) {h p : H} :
    (s.getHeader (v.parentHash h) (v.number h - 1)).1 = some p ↔ v.hash p = v.parentHash h ∧ s.db.Stored v p := by
  rw [getHeader_fst]
  cases hc : s.headerCache.peek (v.parentHash h) with
  | none =>
    constructor
    · intro hp
      obtain ⟨-, hhash, hstored⟩ := hs.db.stored_of_lookup hp
      exact ⟨hhash, hstored⟩
    · rintro ⟨hhash, hstored⟩
      rw [v.number_sub_one hhash, ← hhash]
      exact hstored
  | some q =>
    obtain ⟨hhash, hstored⟩ := hs.header _ _ hc
    constructor
    · rintro ⟨⟩
      exact ⟨hhash, hstored⟩
    · rintro ⟨hhash', -⟩
      rw [v.hash_inj q p (hhash.trans hhash'.symm)]
      rfl

end HeaderChain

end TurboOctopus.Core
