import TurboOctopus.Core.Ancestors
import TurboOctopus.Lib.Runs
/-!
# The remote verify manager

A fast node lets peers verify the state roots of its blocks. The manager's loop makes a task
for each new block and its last ancestors; a task asks peers, takes their responses from the
loop and reports its block as verified to the loop, over a channel with room for eleven.
`ValidateBody` waits for the task of the block eleven numbers below. All these goroutines are
parties here, with one channel operation or one turn of a loop a step. The chain may change
in any way between the steps; `log` and `requested` are not in the source.
-/
namespace TurboOctopus.Core

open Lib

def verifiedCacheSize : Nat := 256

def maxForkHeight : Nat := 11

def defaultPeerNumber : Int := 3

def pruneHeightDiff : UInt64 := 15

def chainHeadChanSize : Nat := 10

/-- What the manager reads of a header. -/
structure VerifyFields (H κ : Type) extends HeaderFields H κ where
  root : H → κ
  txHash : H → κ
  emptyRootHash : κ

inductive VerifyStatus
  | fullVerified
  | partiallyVerified
  | diffHashMismatch
  | impossibleFork
  | blockTooNew
  | blockNewer
  | possibleFork
  | unexpectedError
  /-- A code and message that the task does not know. -/
  | other
deriving DecidableEq

structure VerifyResult (κ : Type) where
  status : VerifyStatus
  blockNumber : UInt64
  blockHash : κ
  root : κ
deriving DecidableEq

/-- Peers are named by `π`. -/
structure VerifyMessage (κ π : Type) where
  verifyResult : VerifyResult κ
  peerId : π
deriving DecidableEq

/-! ## Tasks -/

/-- How far a task is. -/
inductive TaskAt (κ : Type)
  | starting
  | select
  /-- It sends the hash on `verifyCh`. -/
  | marking (hash : κ)
  | returned
deriving DecidableEq

structure VerifyTask (H κ π : Type) where
  blockHeader : H
  badPeers : List π
  /-- `terminalCh` is closed. -/
  terminal : Bool
  at_ : TaskAt κ
  requested : List π

section
variable {H κ π : Type} [DecidableEq κ] (v : VerifyFields H κ)

def newVerifyTask (header : H) : VerifyTask H κ π := ⟨header, [], false, .starting, []⟩

/-- At most `n` of the peers that are not bad get a request, all of them if `n` is not
positive. `shuffled` is what `rand.Shuffle` makes of them. -/
def VerifyTask.sendVerifyRequest [DecidableEq π] (vt : VerifyTask H κ π) (n : Int) (candidatePeers shuffled : List π) :
    Option (VerifyTask H κ π) :=
  let validPeers := candidatePeers.filter (· ∉ vt.badPeers)
  if validPeers = [] then some vt
  else if n < validPeers.length ∧ 0 < n then
    if shuffled.isPerm validPeers then some { vt with requested := vt.requested ++ shuffled.take n.toNat } else none
  else some { vt with requested := vt.requested ++ validPeers }

def VerifyTask.markBad (vt : VerifyTask H κ π) (peer : π) : VerifyTask H κ π := { vt with badPeers := peer :: vt.badPeers }

def VerifyTask.compareRootHashAndMark (vt : VerifyTask H κ π) (msg : VerifyMessage κ π) : VerifyTask H κ π :=
  if msg.verifyResult.root = v.root vt.blockHeader then { vt with at_ := .marking msg.verifyResult.blockHash }
  else vt.markBad msg.peerId

/-- What `Start` does with a message: neither who sent it nor whether the peer is bad is asked. -/
def VerifyTask.handle (allowInsecure : Bool) (vt : VerifyTask H κ π) (msg : VerifyMessage κ π) : VerifyTask H κ π :=
  match msg.verifyResult.status with
  | .fullVerified => vt.compareRootHashAndMark v msg
  | .partiallyVerified => if allowInsecure then vt.compareRootHashAndMark v msg else vt
  | .diffHashMismatch | .impossibleFork | .unexpectedError => vt.markBad msg.peerId
  | .blockTooNew | .blockNewer | .possibleFork | .other => vt

end

/-! ## The manager -/

/-- How far the main loop is. -/
inductive ManagerAt (H κ π : Type)
  | select
  /-- In `NewBlockVerifyTask`, with the next header and the count. -/
  | creating (header : Option H) (i : Nat)
  /-- It sends the message on the channel of this task. -/
  | delivering (msg : VerifyMessage κ π) (task : Nat)
  | returned

/-- How far `AncestorVerified` is, once it has a header that is not empty. -/
inductive CallAt
  | waiting (task : Nat)
  | reading
  | returned (verified : Bool)
deriving DecidableEq

/-- A call of `ValidateBody`; `passes` is what its other checks say. -/
structure ValidateCall (H : Type) where
  block : H
  passes : Bool
  header : H
  at_ : CallAt

inductive VerifyEvent (H κ π : Type)
  /-- `NewVerifyManager` put the hash into the cache. -/
  | premarked (hash : κ)
  /-- `cacheBlockVerified` was called. -/
  | marked (hash : κ)
  /-- The task found the root of the message right. -/
  | accepted (msg : VerifyMessage κ π) (vt : VerifyTask H κ π)
  /-- `ValidateBody` returned nil; this header was found eleven numbers below. -/
  | validated (block : H) (header : Option H)

structure VerifyManager (H κ π : Type) where
  db : HeaderDb H κ
  /-- The number of the current header. -/
  head : UInt64
  insertStopped : Bool
  tasks : List (κ × Nat)
  /-- All tasks that were made, also those whose entries are deleted. -/
  objects : List (VerifyTask H κ π)
  verifiedCache : Lru κ Unit verifiedCacheSize
  chainBlockCh : List H
  verifyCh : List κ
  main : ManagerAt H κ π
  calls : List (ValidateCall H)
  log : List (VerifyEvent H κ π)

inductive VerifyAction (H κ π : Type)
  | chain (db : HeaderDb H κ) (head : UInt64) (insertStopped : Bool)
  | newBlock (header : H)
  /-- The main loop; `diff` is whether the block has a trusted diff layer. -/
  | takeBlock
  | create (diff : Bool)
  | takeVerified
  | prune
  | handleRootResponse (msg : VerifyMessage κ π)
  | quit
  | unsubscribed
  /-- A task. -/
  | request (task : Nat) (n : Int) (candidatePeers shuffled : List π)
  | receive
  | mark (task : Nat)
  | terminate (task : Nat)
  /-- A call of `ValidateBody`. -/
  | validate (block : H) (passes : Bool)
  | wake (call : Nat)
  | timeout (call : Nat)
  | answer (call : Nat)

section
variable {H κ π : Type} [DecidableEq κ] (v : VerifyFields H κ)

def HeaderDb.getHeaderByHash (db : HeaderDb H κ) (hash : κ) : Option H :=
  (db.numbers.lookup hash).bind fun number => db.headers.lookup (number, hash)

def HeaderDb.getHeaderByNumber (db : HeaderDb H κ) (number : UInt64) : Option H :=
  (db.canonical.lookup number).bind fun hash => db.headers.lookup (number, hash)

/-- The hashes that `NewVerifyManager` marks, from a header down. -/
def HeaderDb.premarks (db : HeaderDb H κ) : Nat → H → Option (List κ)
  | 0, _ => some []
  | i + 1, header =>
    if 0 < v.number header then
      (db.getHeaderByHash (v.parentHash header)).bind fun parent => (premarks db i parent).map (v.hash header :: ·)
    else some []

/-- `current` is the number of the current block; the chain has been set to eleven below, or to 0. -/
def newVerifyManager (db : HeaderDb H κ) (current : UInt64) : Option (VerifyManager H κ π) :=
  let marks := if current.toNat < maxForkHeight then some [] else
    (db.getHeaderByNumber (current - 11)).bind (db.premarks v maxForkHeight)
  marks.map fun marks =>
    ⟨db, if current.toNat < maxForkHeight then 0 else current - 11, false, [], [], marks.foldl (fun c hash => c.add hash ()) .empty, [], [], .select, [],
      marks.map .premarked⟩

namespace VerifyManager

variable (s : VerifyManager H κ π)

def logged (e : VerifyEvent H κ π) : VerifyManager H κ π := { s with log := e :: s.log }

/-- The oldest entry of a full cache goes first, also if the hash is already there. -/
def cacheBlockVerified (hash : κ) : VerifyManager H κ π :=
  { s with
    verifiedCache := (if verifiedCacheSize ≤ s.verifiedCache.entries.length then s.verifiedCache.removeOldest
      else s.verifiedCache).add hash ()
    log := .marked hash :: s.log }

def setTask (task : Nat) (vt : VerifyTask H κ π) : VerifyManager H κ π := { s with objects := s.objects.set task vt }

/-- `Close`. -/
def close (task : Nat) : VerifyManager H κ π :=
  { s with objects := s.objects.modify task fun vt => { vt with terminal := true } }

def closeTask (e : κ × Nat) : VerifyManager H κ π := { s.close e.2 with tasks := s.tasks.filter (·.1 ≠ e.1) }

/-! ## The main loop -/

/-- One turn of the loop of `NewBlockVerifyTask`, for a header that is not the genesis
block's. -/
def createFor (header : H) (diff : Bool) : VerifyManager H κ π :=
  let hash := v.hash header
  let (found, cache) := s.verifiedCache.get hash
  let s := { s with verifiedCache := cache }
  if found.isSome then s
  else if (s.tasks.lookup hash).isSome then s
  else if v.txHash header = v.emptyRootHash then s.cacheBlockVerified hash
  else if diff then
    { s with tasks := (hash, s.objects.length) :: s.tasks, objects := s.objects ++ [newVerifyTask header] }
  else s

def newBlockVerifyTask (diff : Bool) : Option (VerifyManager H κ π) :=
  match s.main with
  | .creating (some header) i =>
    if maxForkHeight < i then some { s with main := .select }
    else if v.number header = 0 then some { s.cacheBlockVerified (v.hash header) with main := .select }
    else
      some { s.createFor v header diff with main := .creating (s.db.getHeaderByHash (v.parentHash header)) (i + 1) }
  | .creating none _ => some { s with main := .select }
  | _ => none

/-- The task's block is too far below the head. -/
def prunes (e : κ × Nat) : Bool :=
  match s.objects[e.2]? with
  | none => false
  | some vt =>
    s.insertStopped || (v.number vt.blockHeader < s.head && pruneHeightDiff < s.head - v.number vt.blockHeader)

def mainStep : VerifyAction H κ π → Option (VerifyManager H κ π)
  | .takeBlock =>
    match s.main, s.chainBlockCh with
    | .select, header :: rest => some { s with chainBlockCh := rest, main := .creating (some header) 0 }
    | _, _ => none
  | .create diff => s.newBlockVerifyTask v diff
  | .takeVerified =>
    match s.main, s.verifyCh with
    | .select, hash :: rest =>
      let s := { s with verifyCh := rest }.cacheBlockVerified hash
      match s.tasks.lookup hash with
      | some task => some (s.closeTask (hash, task))
      | none => some s
    | _, _ => none
  | .prune =>
    match s.main with
    | .select => some ((s.tasks.filter (s.prunes v)).foldl closeTask s)
    | _ => none
  | .handleRootResponse msg =>
    match s.main with
    | .select =>
      match s.tasks.lookup msg.verifyResult.blockHash with
      | some task => some { s with main := .delivering msg task }
      | none => some s
    | _ => none
  | .quit =>
    match s.main with
    | .select => some { s.tasks.foldl (fun s e => s.close e.2) s with main := .returned }
    | _ => none
  | .unsubscribed =>
    match s.main with
    | .select => some { s with main := .returned }
    | _ => none
  | _ => none

/-! ## Tasks -/

/-- The log says when a message was accepted. -/
def receive (allowInsecure : Bool) : Option (VerifyManager H κ π) :=
  match s.main with
  | .delivering msg task =>
    match s.objects[task]? with
    | some vt =>
      if vt.at_ = .select then
        let vt' := vt.handle v allowInsecure msg
        let s := { s.setTask task vt' with main := .select }
        if vt'.at_ = .select then some s else some (s.logged (.accepted msg vt))
      else none
    | none => none
  | _ => none

def taskStep [DecidableEq π] (allowInsecure : Bool) : VerifyAction H κ π → Option (VerifyManager H κ π)
  | .request task n candidatePeers shuffled =>
    match s.objects[task]? with
    | some vt =>
      if (vt.at_ = .starting ∧ n = defaultPeerNumber) ∨ (vt.at_ = .select ∧ (n = 1 ∨ n = -1)) then
        (vt.sendVerifyRequest n candidatePeers shuffled).map fun vt => s.setTask task { vt with at_ := .select }
      else none
    | none => none
  | .receive => s.receive v allowInsecure
  | .mark task =>
    match s.objects[task]? with
    | some vt =>
      match vt.at_ with
      | .marking hash =>
        if s.verifyCh.length < maxForkHeight then
          some { s.setTask task { vt with at_ := .select } with verifyCh := s.verifyCh ++ [hash] }
        else none
      | _ => none
    | none => none
  | .terminate task =>
    match s.objects[task]? with
    | some vt => if vt.at_ = .select ∧ vt.terminal then some (s.setTask task { vt with at_ := .returned }) else none
    | none => none
  | _ => none

/-! ## ValidateBody -/

def setCall (call : Nat) (c : ValidateCall H) : VerifyManager H κ π := { s with calls := s.calls.set call c }

/-- The beginning of `AncestorVerified`: the header is looked up by its number only, which
wraps around for the first blocks. -/
def validate (block : H) (passes : Bool) : VerifyManager H κ π :=
  match s.db.getHeaderByNumber (v.number block - 11) with
  | none => if passes then s.logged (.validated block none) else s
  | some header =>
    if v.txHash header = v.emptyRootHash then if passes then s.logged (.validated block (some header)) else s
    else
      match s.tasks.lookup (v.hash header) with
      | some task => { s with calls := s.calls ++ [⟨block, passes, header, .waiting task⟩] }
      | none => { s with calls := s.calls ++ [⟨block, passes, header, .reading⟩] }

/-- The end of it. -/
def answer (call : Nat) (c : ValidateCall H) : VerifyManager H κ π :=
  let (found, cache) := s.verifiedCache.get (v.hash c.header)
  let s := { s with verifiedCache := cache }.setCall call { c with at_ := .returned found.isSome }
  if found.isSome && c.passes then s.logged (.validated c.block (some c.header)) else s

def callStep : VerifyAction H κ π → Option (VerifyManager H κ π)
  | .validate block passes => some (s.validate v block passes)
  | .wake call =>
    match s.calls[call]? with
    | some c =>
      match c.at_ with
      | .waiting task =>
        if (s.objects[task]?).any (·.terminal) then some (s.setCall call { c with at_ := .reading }) else none
      | _ => none
    | none => none
  | .timeout call =>
    match s.calls[call]? with
    | some c =>
      match c.at_ with
      | .waiting _ => some (s.setCall call { c with at_ := .returned false })
      | _ => none
    | none => none
  | .answer call =>
    match s.calls[call]? with
    | some c => if c.at_ = .reading then some (s.answer v call c) else none
    | none => none
  | _ => none

def step [DecidableEq π] (allowInsecure : Bool) : VerifyAction H κ π → Option (VerifyManager H κ π)
  | .chain db head insertStopped => some { s with db := db, head := head, insertStopped := insertStopped }
  | .newBlock header =>
    if s.chainBlockCh.length < chainHeadChanSize then some { s with chainBlockCh := s.chainBlockCh ++ [header] } else none
  | .takeBlock => s.mainStep v .takeBlock
  | .create diff => s.mainStep v (.create diff)
  | .takeVerified => s.mainStep v .takeVerified
  | .prune => s.mainStep v .prune
  | .handleRootResponse msg => s.mainStep v (.handleRootResponse msg)
  | .quit => s.mainStep v .quit
  | .unsubscribed => s.mainStep v .unsubscribed
  | .request task n candidatePeers shuffled => s.taskStep v allowInsecure (.request task n candidatePeers shuffled)
  | .receive => s.taskStep v allowInsecure .receive
  | .mark task => s.taskStep v allowInsecure (.mark task)
  | .terminate task => s.taskStep v allowInsecure (.terminate task)
  | .validate block passes => s.callStep v (.validate block passes)
  | .wake call => s.callStep v (.wake call)
  | .timeout call => s.callStep v (.timeout call)
  | .answer call => s.callStep v (.answer call)

end VerifyManager

end

end TurboOctopus.Core
