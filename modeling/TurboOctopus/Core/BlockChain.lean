import TurboOctopus.Core.Reorg
/-!
# The block chain

Blocks are kept with their total difficulties, and two indexes of the canonical chain: the
hash of each number and the number of the block of each transaction. A new block is stored
and made the head if the fork choice says so. The tables of the database are those of the
header chain, a block in the place of its header; the caches, which answer as the database
does, are left out, and so are the events and the markers that nothing here reads. The
database does not fail; the commit of the state may.
-/
namespace TurboOctopus.Core

open Lib

/-- What the chain reads of a block. A transaction is once in the chain of a block. -/
structure BlockFields (B κ τ : Type) extends HeaderFields B κ where
  txs : B → List τ
  txs_once : ∀ h a b t, toHeaderFields.Descends h a → toHeaderFields.Descends h b → t ∈ txs a → t ∈ txs b → a = b

instance {B κ τ : Type} : CoeOut (BlockFields B κ τ) (HeaderFields B κ) := ⟨BlockFields.toHeaderFields⟩

structure BlockChain (B κ τ : Type) where
  db : HeaderDb B κ
  lookups : GoMap τ UInt64
  currentBlock : B

inductive BlockError
  | unknownAncestor
  | missingTd
  | invalidOldChain
  | invalidNewChain
  | commit
  | endless
deriving DecidableEq

/-- `HashDifference`: what is in the first list only. -/
def hashDifference {τ : Type} [DecidableEq τ] (a b : List τ) : List τ := a.filter (· ∉ b)

section
variable {B κ τ : Type} [DecidableEq κ] (v : BlockFields B κ τ)

def HeaderDb.getBlock (db : HeaderDb B κ) (hash : κ) (number : UInt64) : Option B := db.headers.lookup (number, hash)

/-- `commits` is whether the state commits; the block is written by another goroutine. -/
def BlockChain.writeBlockWithState (block : B) (commits : Bool) : EStateM BlockError (BlockChain B κ τ) Unit := fun s =>
  match s.db.tds.lookup (v.number block - 1, v.parentHash block) with
  | none => .error .unknownAncestor s
  | some ptd =>
    let s := { s with
      db := s.db.write v.toHeaderFields [.td (v.hash block) (v.number block) (ptd + v.difficulty block), .header block] }
    if commits then .ok () s else .error .commit s

def ForkChoice.blockNeeded (f : ForkChoice B) (db : HeaderDb B κ) (current block : B) : Except BlockError Bool :=
  match db.tds.lookup (v.number current, v.hash current), db.tds.lookup (v.number block, v.hash block) with
  | some localTD, some externTd => .ok (f.prefers v.toHeaderFields localTD externTd current block)
  | _, _ => .error .missingTd

/-! ## The branches of a reorg -/

/-- Goes back from a block to a number; the blocks it passes are appended. -/
def HeaderDb.reduce (db : HeaderDb B κ) (missing : BlockError) (number : UInt64) :
    Nat → B → List B → Except BlockError (B × List B)
  | 0, _, _ => .error .endless
  | fuel + 1, block, chain =>
    if v.number block = number then .ok (block, chain)
    else
      match db.getBlock (v.parentHash block) (v.number block - 1) with
      | none => .error missing
      | some parent => reduce db missing number fuel parent (chain ++ [block])

/-- Goes back from two blocks to the common ancestor. -/
def HeaderDb.findCommon (db : HeaderDb B κ) : Nat → B → B → List B → List B → Except BlockError (List B × List B)
  | 0, _, _, _, _ => .error .endless
  | fuel + 1, oldBlock, newBlock, oldChain, newChain =>
    if v.hash oldBlock = v.hash newBlock then .ok (oldChain, newChain)
    else
      match db.getBlock (v.parentHash oldBlock) (v.number oldBlock - 1) with
      | none => .error .invalidOldChain
      | some oldParent =>
        match db.getBlock (v.parentHash newBlock) (v.number newBlock - 1) with
        | none => .error .invalidNewChain
        | some newParent => findCommon db fuel oldParent newParent (oldChain ++ [oldBlock]) (newChain ++ [newBlock])

/-- The blocks of the old chain and of the new chain, down to the common ancestor. -/
def HeaderDb.branches (db : HeaderDb B κ) (oldBlock newBlock : B) : Except BlockError (List B × List B) :=
  if v.number newBlock < v.number oldBlock then do
    let (oldBlock, oldChain) ← db.reduce v .invalidOldChain (v.number newBlock) ((v.number oldBlock).toNat + 1) oldBlock []
    db.findCommon v ((v.number oldBlock).toNat + 1) oldBlock newBlock oldChain []
  else do
    let (newBlock, newChain) ← db.reduce v .invalidNewChain (v.number oldBlock) ((v.number newBlock).toNat + 1) newBlock []
    db.findCommon v ((v.number oldBlock).toNat + 1) oldBlock newBlock [] newChain

/-! ## The indexes -/

variable [DecidableEq τ]

namespace BlockChain

def genesis (g : B) : BlockChain B κ τ where
  db := (HeaderChain.genesis v.toHeaderFields g).db
  lookups := (v.txs g).foldl (fun m t => m.insert t (v.number g)) ∅
  currentBlock := g

def writeHeadBlock (s : BlockChain B κ τ) (block : B) : BlockChain B κ τ where
  db := s.db.write v.toHeaderFields [.canonicalHash (v.hash block) (v.number block)]
  lookups := (v.txs block).foldl (fun m t => m.insert t (v.number block)) s.lookups
  currentBlock := block

/-- The canonical hashes above the current block and the lookups of the transactions that are
gone are deleted. At that time the current block is the new head's parent, or the old head if
the new chain has one block. -/
def deleteIndexes (s : BlockChain B κ τ) (deletedTxs addedTxs : List τ) : BlockChain B κ τ :=
  { s with
    db := s.db.write v.toHeaderFields ((s.db.assignedFrom (v.number s.currentBlock + 1)).map .deleteCanonicalHash)
    lookups := eraseAll s.lookups (hashDifference deletedTxs addedTxs) }

/-- The new head is left to the caller. -/
def reorg (oldBlock newBlock : B) : EStateM BlockError (BlockChain B κ τ) Unit := fun s =>
  match s.db.branches v oldBlock newBlock with
  | .error e => .error e s
  | .ok (oldChain, newChain) =>
    let added := (newChain.drop 1).reverse
    .ok () ((added.foldl (writeHeadBlock v) s).deleteIndexes v (oldChain.flatMap v.txs) (added.flatMap v.txs))

/-- What `writeBlockAndSetHead` does once the fork choice has taken the block. -/
def setHeadBlock (block : B) : EStateM BlockError (BlockChain B κ τ) WriteStatus := fun s =>
  if v.parentHash block = v.hash s.currentBlock then .ok .canonStatTy (s.writeHeadBlock v block)
  else
    match reorg v s.currentBlock block s with
    | .error e s => .error e s
    | .ok _ s => .ok .canonStatTy (s.writeHeadBlock v block)

def writeBlockAndSetHead (block : B) (forker : ForkChoice B) (commits : Bool) :
    EStateM BlockError (BlockChain B κ τ) WriteStatus := fun s =>
  match writeBlockWithState v block commits s with
  | .error e s => .error e s
  | .ok _ s =>
    match forker.blockNeeded v s.db s.currentBlock block with
    | .error e => .error e s
    | .ok false => .ok .sideStatTy s
    | .ok true => setHeadBlock v block s

end BlockChain

end

end TurboOctopus.Core
