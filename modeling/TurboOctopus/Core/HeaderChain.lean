import Mathlib.Algebra.Order.Ring.Nat
import TurboOctopus.Lib.Fallible
import TurboOctopus.Lib.Lru
import TurboOctopus.Lib.Maps
/-!
# The header chain

Headers are kept in a database and, the last used of them, in three caches. Inserting a
list of headers puts them into the caches and into a batch, writes the batch, and makes
the last header the head if the fork choice says so. The database does not fail here. It
answers for the ancient store too, and the hash it has not is `none` instead of the zero
hash.
-/
namespace TurboOctopus.Core

open Lib

/-- What the chain reads of a header. No two headers have one hash, and the number of a
header is one more than that of its parent, which is what the headers are verified for
before they come here. `total` is the total difficulty of the chain that ends in a hash. -/
structure HeaderFields (H κ : Type) where
  hash : H → κ
  parentHash : H → κ
  number : H → UInt64
  difficulty : H → Nat
  total : κ → Nat
  hash_inj : ∀ h h', hash h = hash h' → h = h'
  number_parent : ∀ h p, hash p = parentHash h → (number h).toNat = (number p).toNat + 1
  total_hash : ∀ h, total (hash h) = total (parentHash h) + difficulty h

def headerCacheLimit : Nat := 512

def tdCacheLimit : Nat := 1024

def numberCacheLimit : Nat := 2048

/-- The tables of the database, by number and hash where the keys have both. -/
structure HeaderDb (H κ : Type) where
  headers : GoMap (UInt64 × κ) H
  tds : GoMap (UInt64 × κ) Nat
  numbers : GoMap κ UInt64
  canonical : GoMap UInt64 κ

inductive DbWrite (H κ : Type)
  | td (hash : κ) (number : UInt64) (td : Nat)
  | header (h : H)
  | canonicalHash (hash : κ) (number : UInt64)
  | deleteCanonicalHash (number : UInt64)

structure HeaderChain (H κ : Type) where
  db : HeaderDb H κ
  currentHeader : H
  currentHeaderHash : κ
  headerCache : Lru κ H headerCacheLimit
  tdCache : Lru κ Nat tdCacheLimit
  numberCache : Lru κ UInt64 numberCacheLimit

inductive HeaderError (κ : Type)
  | aborted
  | unknownAncestor
  | missingTd
  | missingParent (number : UInt64) (hash : κ)
deriving DecidableEq

/-- How a call ends that returns no value: with an error, in a panic, or not. -/
inductive HeaderStop (κ : Type)
  | err (e : HeaderError κ)
  | panicked
  | endless
deriving DecidableEq

inductive WriteStatus
  | nonStatTy
  | canonStatTy
  | sideStatTy
deriving DecidableEq

/-- `coin` is what the random number says. -/
structure ForkChoice (H : Type) where
  terminalTotalDifficulty : Option Nat
  preserve : Option (H → Bool)
  coin : Bool

section
variable {H κ : Type} [DecidableEq κ] (v : HeaderFields H κ)

def HeaderDb.put (db : HeaderDb H κ) : DbWrite H κ → HeaderDb H κ
  | .td hash number td => { db with tds := db.tds.insert (number, hash) td }
  | .header h =>
    { db with
      numbers := db.numbers.insert (v.hash h) (v.number h)
      headers := db.headers.insert (v.number h, v.hash h) h }
  | .canonicalHash hash number => { db with canonical := db.canonical.insert number hash }
  | .deleteCanonicalHash number => { db with canonical := db.canonical.erase number }

/-- `batch.Write()`. -/
def HeaderDb.write (db : HeaderDb H κ) (batch : List (DbWrite H κ)) : HeaderDb H κ := batch.foldl (HeaderDb.put v) db

/-! ## Reading -/

namespace HeaderChain

def getBlockNumber (s : HeaderChain H κ) (hash : κ) : Option UInt64 × HeaderChain H κ :=
  let (number, cache) := s.numberCache.readThrough hash (s.db.numbers.lookup hash)
  (number, { s with numberCache := cache })

def getTd (s : HeaderChain H κ) (hash : κ) (number : UInt64) : Option Nat × HeaderChain H κ :=
  let (td, cache) := s.tdCache.readThrough hash (s.db.tds.lookup (number, hash))
  (td, { s with tdCache := cache })

def getHeader (s : HeaderChain H κ) (hash : κ) (number : UInt64) : Option H × HeaderChain H κ :=
  let (header, cache) := s.headerCache.readThrough hash (s.db.headers.lookup (number, hash))
  (header, { s with headerCache := cache })

def hasHeader (s : HeaderChain H κ) (hash : κ) (number : UInt64) : Bool :=
  s.numberCache.contains hash || s.headerCache.contains hash || (s.db.headers.lookup (number, hash)).isSome

def getCanonicalHash (s : HeaderChain H κ) (number : UInt64) : Option κ := s.db.canonical.lookup number

end HeaderChain

/-! ## Writing -/

/-- The variables of the loop of `WriteHeaders`; of `inserted` its length. -/
structure WriteLoop (H κ : Type) where
  newTD : Nat
  inserted : Nat
  parentKnown : Bool
  batch : List (DbWrite H κ)

/-- The hash of a header, which the next one has too. -/
def HeaderFields.hashBefore (header : H) : List H → κ
  | next :: _ => v.parentHash next
  | [] => v.hash header

def HeaderChain.writeLoop : List H → WriteLoop H κ → HeaderChain H κ → WriteLoop H κ × HeaderChain H κ
  | [], w, s => (w, s)
  | header :: rest, w, s =>
    let hash := v.hashBefore header rest
    let number := v.number header
    let newTD := w.newTD + v.difficulty header
    if w.parentKnown && s.hasHeader hash number then
      writeLoop rest { w with newTD := newTD, parentKnown := true } s
    else
      writeLoop rest
        { newTD := newTD
          inserted := w.inserted + 1
          parentKnown := false
          batch := w.batch ++ [DbWrite.td hash number newTD, DbWrite.header header] }
        { s with
          tdCache := s.tdCache.add hash newTD
          headerCache := s.headerCache.add hash header
          numberCache := s.numberCache.add hash number }

/-- `interrupted` is what `procInterrupt` says before the batch is written. -/
def HeaderChain.writeHeaders (headers : List H) (interrupted : Bool) :
    EStateM (HeaderStop κ) (HeaderChain H κ) Nat := fun s =>
  match headers with
  | [] => .ok 0 s
  | first :: _ =>
    match s.getTd (v.parentHash first) (v.number first - 1) with
    | (none, s) => .error (.err .unknownAncestor) s
    | (some ptd, s) =>
      let (w, s) := HeaderChain.writeLoop v headers ⟨ptd, 0, true, []⟩ s
      if interrupted then .error (.err .aborted) s
      else .ok w.inserted { s with db := s.db.write v w.batch }

/-! ## The head -/

/-- The fork choice, from the total difficulties on. -/
def ForkChoice.prefers (f : ForkChoice H) (localTD externTd : Nat) (current header : H) : Bool :=
  if f.terminalTotalDifficulty.any (· ≤ externTd) then true
  else if localTD < externTd then true
  else if externTd = localTD then
    if v.number header < v.number current then true
    else if v.number header = v.number current then
      let preserve := f.preserve.getD fun _ => false
      !preserve current && (preserve header || f.coin)
    else false
  else false

def ForkChoice.reorgNeeded (f : ForkChoice H) (current header : H) :
    EStateM (HeaderStop κ) (HeaderChain H κ) Bool := fun s =>
  let (localTD, s) := s.getTd (v.hash current) (v.number current)
  let (externTd, s) := s.getTd (v.hash header) (v.number header)
  match localTD, externTd with
  | some localTD, some externTd => .ok (f.prefers v localTD externTd current header) s
  | _, _ => .error (.err .missingTd) s

/-- The numbers from `number` on that have a canonical hash: no more than there are
hashes. -/
def HeaderDb.assignedFrom (db : HeaderDb H κ) (number : UInt64) : List UInt64 :=
  ((List.range db.canonical.keys.card).map fun i => number + i.toUInt64).takeWhile (· ∈ db.canonical)

/-- Going backwards from a header until the cross link between two chains: what the
batch gets. -/
def HeaderChain.crossLink : Nat → H → κ → UInt64 → List (DbWrite H κ) →
    EStateM (HeaderStop κ) (HeaderChain H κ) (List (DbWrite H κ))
  | 0, _, _, _, _ => fun s => .error .endless s
  | fuel + 1, header, headHash, headNumber, batch => fun s =>
    if s.db.canonical.lookup headNumber = some headHash then .ok batch s
    else if headNumber = 0 then .ok (batch ++ [DbWrite.canonicalHash headHash headNumber]) s
    else
      match s.getHeader (v.parentHash header) (v.number header - 1) with
      | (none, s) => .error (.err (.missingParent (v.number header - 1) (v.parentHash header))) s
      | (some parent, s) =>
        crossLink fuel parent (v.parentHash header) (v.number header - 1)
          (batch ++ [DbWrite.canonicalHash headHash headNumber]) s

/-- The canonical hashes of the new headers. -/
def HeaderFields.extension : List H → List (DbWrite H κ)
  | [] => []
  | header :: rest => .canonicalHash (v.hashBefore header rest) (v.number header) :: extension rest

namespace HeaderChain

/-- What is deleted and overwritten before the new headers are written. -/
def unlink (first last : H) : EStateM (HeaderStop κ) (HeaderChain H κ) (List (DbWrite H κ)) := fun s =>
  if v.parentHash first = s.currentHeaderHash then .ok [] s
  else
    HeaderChain.crossLink v ((v.number first).toNat + 1) first (v.hash first) (v.number first)
      ((s.db.assignedFrom (v.number last + 1)).map .deleteCanonicalHash) s

def reorg (headers : List H) : EStateM (HeaderStop κ) (HeaderChain H κ) Unit :=
  match headers.head?, headers.getLast? with
  | some first, some last => do
    let batch ← HeaderChain.unlink v first last
    modify fun s =>
      { s with
        db := s.db.write v (batch ++ v.extension headers)
        currentHeader := last
        currentHeaderHash := v.hash last }
  | _, _ => pure ()

/-- `writeHeadersAndSetHead` after the headers are written. -/
def setHead (headers : List H) (forker : ForkChoice H) (inserted : Nat) :
    EStateM (HeaderStop κ) (HeaderChain H κ) WriteStatus :=
  match headers.getLast? with
  | none => throw .panicked
  | some last => do
    let reorg ← forker.reorgNeeded v (← get).currentHeader last
    if !reorg then return if inserted ≠ 0 then .sideStatTy else .nonStatTy
    let s ← get
    if s.getCanonicalHash (v.number last) = some (v.hash last) ∧ v.number last ≤ v.number s.currentHeader then
      return .nonStatTy
    HeaderChain.reorg v headers
    return .canonStatTy

def writeHeadersAndSetHead (headers : List H) (forker : ForkChoice H) (interrupted : Bool) :
    EStateM (HeaderStop κ) (HeaderChain H κ) WriteStatus := do
  let inserted ← HeaderChain.writeHeaders v headers interrupted
  HeaderChain.setHead v headers forker inserted

/-- `before` and `during` are what `procInterrupt` says at the start and when the headers
are about to be written. -/
def insertHeaderChain (chain : List H) (forker : ForkChoice H) (before during : Bool) :
    EStateM (HeaderStop κ) (HeaderChain H κ) WriteStatus := do
  if before then throw (.err .aborted)
  HeaderChain.writeHeadersAndSetHead v chain forker during

end HeaderChain

end

end TurboOctopus.Core
