import Mathlib.Data.Finset.Sort
import TurboOctopus.Core.HeaderStore
/-!
# Rewinding the header chain

`SetHead` goes back from the current header to the parent of it, and on, until the number
is not above the new head. It collects the deletions of every level it leaves, with all
side forks, in the first turn also of the levels above the current header, and makes them
at the end. What `updateFn` answers may depend on what it did before, so it is asked with
the number of the call. It and `delFn` change no headers, and are not shown otherwise.
-/
namespace TurboOctopus.Core

open Lib List HeaderDb

inductive DbDelete (κ : Type)
  | header (hash : κ) (number : UInt64)
  | td (hash : κ) (number : UInt64)
  | canonicalHash (number : UInt64)

/-- The variables of the loop of `SetHead`. -/
structure Rewind (κ : Type) where
  head : UInt64
  origin : Bool
  calls : Nat
  batch : List (DbDelete κ)

variable {H κ : Type}

def DbDelete.headerKey : DbDelete κ → Option (UInt64 × κ)
  | .header hash number => some (number, hash)
  | _ => none

def DbDelete.tdKey : DbDelete κ → Option (UInt64 × κ)
  | .td hash number => some (number, hash)
  | _ => none

def DbDelete.canonicalKey : DbDelete κ → Option UInt64
  | .canonicalHash number => some number
  | _ => none

variable [LinearOrder κ] (v : HeaderFields H κ)

/-! ## The loop -/

/-- `ReadAllHashes`. -/
def HeaderDb.readAllHashes (db : HeaderDb H κ) (number : UInt64) : List κ :=
  ((db.headers.keys.filter (·.1 = number)).image Prod.snd).sort

/-- The numbers from `number` on that have headers: no more than there are headers. -/
def HeaderDb.levelsFrom (db : HeaderDb H κ) (number : UInt64) : List UInt64 :=
  ((List.range db.headers.keys.card).map fun i => number + i.toUInt64).takeWhile (db.readAllHashes · ≠ [])

def HeaderDb.delete (db : HeaderDb H κ) : DbDelete κ → HeaderDb H κ
  | .header hash number =>
    { db with
      headers := db.headers.erase (number, hash)
      numbers := db.numbers.erase hash }
  | .td hash number => { db with tds := db.tds.erase (number, hash) }
  | .canonicalHash number => { db with canonical := db.canonical.erase number }

def HeaderDb.deleteAll (db : HeaderDb H κ) (batch : List (DbDelete κ)) : HeaderDb H κ := batch.foldl HeaderDb.delete db

/-- What is deleted at a number: everything under these hashes. -/
def deletions (hashes : List κ) (number : UInt64) : List (DbDelete κ) :=
  (hashes.flatMap fun hash => [.header hash number, .td hash number]) ++ [DbDelete.canonicalHash number]

/-- With no hashes at the number, which is what a frozen block looks like, the hash is
that of the header the loop is at. -/
def HeaderDb.hashesAt (db : HeaderDb H κ) (hdr : H) (number : UInt64) : List κ :=
  if db.readAllHashes number = [] then [v.hash hdr] else db.readAllHashes number

def HeaderChain.rewind (genesisHeader : H) (updateFn : Option (Nat → H → UInt64 × Bool)) :
    Nat → Rewind κ → EStateM (HeaderStop κ) (HeaderChain H κ) (Rewind κ)
  | 0, _ => fun s => .error .endless s
  | fuel + 1, r => fun s =>
    let hdr := s.currentHeader
    if v.number hdr ≤ r.head then .ok r s
    else
      let num := v.number hdr
      let (found, s) := s.getHeader (v.parentHash hdr) (num - 1)
      let parent := found.getD genesisHeader
      let head :=
        match updateFn with
        | none => r.head
        | some f => if (f r.calls parent).2 ∧ (f r.calls parent).1 < r.head then (f r.calls parent).1 else r.head
      let nums := (if r.origin then (s.db.levelsFrom (num + 1)).reverse else []) ++ [num]
      rewind genesisHeader updateFn fuel
        { head := head
          origin := false
          calls := r.calls + 1
          batch := r.batch ++ nums.flatMap fun n => deletions (s.db.hashesAt v hdr n) n }
        { s with
          currentHeader := parent
          currentHeaderHash := v.hash parent }

/-- `SetHead`. -/
def HeaderChain.setHeadTo (genesisHeader : H) (head : UInt64) (updateFn : Option (Nat → H → UInt64 × Bool)) :
    EStateM (HeaderStop κ) (HeaderChain H κ) Unit := do
  let fuel := (v.number (← get).currentHeader).toNat + 1
  let r ← HeaderChain.rewind v genesisHeader updateFn fuel ⟨head, true, 0, []⟩
  modify fun s =>
    { s with
      db := s.db.deleteAll r.batch
      headerCache := .empty
      tdCache := .empty
      numberCache := .empty }

/-! ## The deletions -/

variable {v} {db : HeaderDb H κ}

open DbDelete

namespace HeaderDb

lemma headers_deleteAll (db : HeaderDb H κ) (batch : List (DbDelete κ)) :
    (db.deleteAll batch).headers = eraseAll db.headers (batch.filterMap headerKey) := by
  induction batch generalizing db with
  | nil => rfl
  | cons d batch ih => cases d <;> exact ih _

lemma numbers_deleteAll (db : HeaderDb H κ) (batch : List (DbDelete κ)) :
    (db.deleteAll batch).numbers = eraseAll db.numbers ((batch.filterMap headerKey).map Prod.snd) := by
  induction batch generalizing db with
  | nil => rfl
  | cons d batch ih => cases d <;> exact ih _

lemma tds_deleteAll (db : HeaderDb H κ) (batch : List (DbDelete κ)) :
    (db.deleteAll batch).tds = eraseAll db.tds (batch.filterMap tdKey) := by
  induction batch generalizing db with
  | nil => rfl
  | cons d batch ih => cases d <;> exact ih _

lemma canonical_deleteAll (db : HeaderDb H κ) (batch : List (DbDelete κ)) :
    (db.deleteAll batch).canonical = eraseAll db.canonical (batch.filterMap canonicalKey) := by
  induction batch generalizing db with
  | nil => rfl
  | cons d batch ih => cases d <;> exact ih _

@[simp] lemma mem_readAllHashes {number : UInt64} {hash : κ} :
    hash ∈ db.readAllHashes number ↔ (number, hash) ∈ db.headers := by
  simp [readAllHashes, Finmap.mem_keys]

/-- The numbers are left without a header. -/
def clears (db : HeaderDb H κ) (nums : List UInt64) : List (DbDelete κ) :=
  nums.flatMap fun n => deletions (db.readAllHashes n) n

end HeaderDb

variable {h : H} {k : κ} {key : UInt64 × κ} {n : UInt64} {nums : List UInt64}

namespace HeaderDb

lemma mem_clears {d : DbDelete κ} : d ∈ db.clears nums ↔ ∃ m ∈ nums,
    (∃ hash, (m, hash) ∈ db.headers ∧ (d = .header hash m ∨ d = .td hash m)) ∨ d = .canonicalHash m := by
  simp only [clears, deletions, mem_flatMap, mem_append, mem_cons, not_mem_nil, or_false, mem_readAllHashes]

lemma mem_filterMap_clears {α : Type} {f : DbDelete κ → Option α} {a : α} :
    a ∈ (db.clears nums).filterMap f ↔ ∃ m ∈ nums, (∃ hash, (m, hash) ∈ db.headers ∧
      (f (.header hash m) = some a ∨ f (.td hash m) = some a)) ∨ f (.canonicalHash m) = some a := by
  simp only [mem_filterMap, mem_clears]
  grind

lemma mem_headerKey_clears : key ∈ (db.clears nums).filterMap headerKey ↔ key.1 ∈ nums ∧ key ∈ db.headers := by
  rw [mem_filterMap_clears]
  simp [headerKey, Prod.ext_iff]

lemma mem_tdKey_clears : key ∈ (db.clears nums).filterMap tdKey ↔ key.1 ∈ nums ∧ key ∈ db.headers := by
  rw [mem_filterMap_clears]
  simp [tdKey, Prod.ext_iff]

lemma mem_canonicalKey_clears : n ∈ (db.clears nums).filterMap canonicalKey ↔ n ∈ nums := by
  rw [mem_filterMap_clears]
  simp [canonicalKey]

/-! ## What is left -/

lemma lookup_headers_clears :
    (db.deleteAll (db.clears nums)).headers.lookup (n, k) = some h ↔ n ∉ nums ∧ db.headers.lookup (n, k) = some h := by
  rw [headers_deleteAll, lookup_eraseAll]
  by_cases hmem : (n, k) ∈ db.headers
  · by_cases hn : n ∈ nums <;> simp only [mem_headerKey_clears, hmem, hn] <;> simp
  · have hnone : db.headers.lookup (n, k) = none := Finmap.lookup_eq_none.2 hmem
    simp only [mem_headerKey_clears, hmem, hnone]
    simp

lemma lookup_canonical_clears :
    (db.deleteAll (db.clears nums)).canonical.lookup n = some k ↔ n ∉ nums ∧ db.canonical.lookup n = some k := by
  rw [canonical_deleteAll, lookup_eraseAll]
  by_cases hn : n ∈ nums <;> simp only [mem_canonicalKey_clears, hn] <;> simp

lemma stored_clears :
    (db.deleteAll (db.clears nums)).Stored v h ↔ v.number h ∉ nums ∧ db.Stored v h := lookup_headers_clears

/-- Without some of its levels a sound database is sound. -/
lemma Sound.clears (hdb : db.Sound v) (nums : List UInt64) : (db.deleteAll (db.clears nums)).Sound v := by
  constructor
  · intro n k h hh
    exact hdb.header n k h (lookup_headers_clears.1 hh).2
  · intro k n
    rw [numbers_deleteAll, lookup_eraseAll]
    -- a hash is at one number only, so it is deleted with it
    have hkey : k ∈ ((db.clears nums).filterMap headerKey).map Prod.snd ↔
        ∃ m ∈ nums, (m, k) ∈ db.headers := by
      simp only [mem_map, mem_headerKey_clears]
      constructor
      · rintro ⟨⟨m, k'⟩, ⟨hm, hmem⟩, rfl⟩
        exact ⟨m, hm, hmem⟩
      · rintro ⟨m, hm, hmem⟩
        exact ⟨(m, k), ⟨hm, hmem⟩, rfl⟩
    simp only [lookup_headers_clears]
    constructor
    · intro hlookup
      split at hlookup
      · cases hlookup
      next hnot =>
        obtain ⟨h, hh⟩ := (hdb.number k n).1 hlookup
        refine ⟨h, fun hn => hnot (hkey.2 ⟨n, hn, ?_⟩), hh⟩
        exact Finmap.mem_of_lookup_eq_some hh
    · rintro ⟨h, hn, hh⟩
      rw [if_neg, hdb.number]
      · exact ⟨h, hh⟩
      · intro hmem
        obtain ⟨m, hm, hmk⟩ := hkey.1 hmem
        obtain ⟨h', hh'⟩ := Option.isSome_iff_exists.1 (Finmap.lookup_isSome.2 hmk)
        obtain ⟨rfl, hhash⟩ := hdb.header _ _ _ hh
        obtain ⟨rfl, hhash'⟩ := hdb.header _ _ _ hh'
        rw [v.hash_inj h' h (hhash'.trans hhash.symm)] at hm
        exact hn hm
  · intro n k td htd
    rw [tds_deleteAll] at htd
    exact hdb.td n k td (of_lookup_eraseAll htd).2
  · intro h hh
    obtain ⟨hn, hstored⟩ := stored_clears.1 hh
    rw [tds_deleteAll, lookup_eraseAll, if_neg, hdb.td_of_stored h hstored]
    intro hmem
    exact hn (mem_tdKey_clears.1 hmem).1

end HeaderDb

end TurboOctopus.Core
