import TurboOctopus.Lib.Maps
import TurboOctopus.Parlia.Basic
/-!
# Snapshots of the validator set

A snapshot is what the engine knows after a block: the validators in force,
who signed the last blocks, and which fork those signers announced. `apply`
moves it over a list of headers.
-/
namespace TurboOctopus.Parlia

open Lib TurboOctopus.Types Params

structure Snapshot where
  number : UInt64
  hash : Hash
  validators : Finset Address
  recents : GoMap UInt64 Address
  recentForkHashes : GoMap UInt64 String
deriving DecidableEq

def newSnapshot (number : UInt64) (hash : Hash) (validators : List Address) : Snapshot :=
  ⟨number, hash, validators.toFinset, ∅, ∅⟩

/-- A validator that signed one block must let `limit - 1` blocks pass. -/
def Snapshot.limit (s : Snapshot) : Nat := s.validators.card / 2 + 1

/-! ## Ancestors -/

/-- What the engine reads of the local chain. No chain is opened without its
genesis. -/
structure ChainReader where
  config : ChainConfig
  getHeader : Hash → UInt64 → Option Header
  getHeaderByNumber : UInt64 → Option Header
  genesis_isSome : (getHeaderByNumber 0).isSome

/-- A chain that stores a genesis and some headers. -/
def chainOf (config : ChainConfig) (C : Crypto) (g : Header) (hg : g.num = 0) (hs : List Header) : ChainReader where
  config := config
  getHeader b n := (hs ++ [g]).find? fun x => decide (x.hash C = b) && decide (x.num = n)
  getHeaderByNumber n := (hs ++ [g]).find? fun x => decide (x.num = n)
  genesis_isSome := by
    rw [List.find?_isSome]
    exact ⟨g, by simp, by simp [hg]⟩

/-- A chain of a genesis that announces `vals`, and `hs`. -/
def smallChain (vals : List Address) (hs : List Header) (hv : vals.length < 100 := by decide) : ChainReader :=
  chainOf (noForks 1) smallCrypto (smallHeader 0 0 0 vals hv) rfl hs

def parseValidators (validatorsBytes : List UInt8) : Except Err (List Address) := do
  failIf (validatorsBytes.length % validatorBytesLength ≠ 0) .invalidValidatorsBytes
  .ok ((List.range (validatorsBytes.length / validatorBytesLength)).map fun i =>
    bytesToAddress ((validatorsBytes.drop (i * validatorBytesLength)).take validatorBytesLength))

/-- The validators between the vanity and the seal of the extra-data. -/
def extraValidators (h : Header) : Except Err (List Address) := do
  failIf (h.extra.length < extraVanity + extraSeal) .panic
  parseValidators ((h.extra.drop extraVanity).take (h.extra.length - extraVanity - extraSeal))

/-- Where the candidates, in ascending order, reach a height. -/
def candidateIndex (candidateParents : List Header) (parentHeight : UInt64) : Nat :=
  search candidateParents.length fun i =>
    match candidateParents[i]? with
    | some h => decide (parentHeight ≤ h.num)
    | none => false

/-- One round of the loop of `FindAncientHeader`: the parent of `ancient`, from
the candidates if it is there, else from the chain. -/
def Engine.findParent (e : Engine) (chain : ChainReader) (candidateParents : List Header) (ancient : Header) :
    Option Header :=
  let parentHeight := ancient.num - 1
  match candidateParents[candidateIndex candidateParents parentHeight]? with
  | some h =>
    if h.num = parentHeight ∧ e.hashOf h = ancient.parentHash then some h
    else chain.getHeader ancient.parentHash parentHeight
  | none => chain.getHeader ancient.parentHash parentHeight

def Engine.findAncientHeader (e : Engine) (chain : ChainReader) (candidateParents : List Header) :
    Nat → Header → Option Header
  | 0, ancient => some ancient
  | ite + 1, ancient =>
    match e.findParent chain candidateParents ancient with
    | some parent => e.findAncientHeader chain candidateParents ite parent
    | none => none

/-! ## Applying headers -/

def hexDigit (n : Nat) : Char := "0123456789abcdef".toList.getD n '0'

/-- `hex.EncodeToString`. -/
def encodeToString (b : List UInt8) : String :=
  String.ofList (b.flatMap fun x => [hexDigit (x.toNat / 16), hexDigit (x.toNat % 16)])

/-- Delete the oldest entries, which block `number` shifts out. -/
def Snapshot.expire (s : Snapshot) (number : UInt64) : Snapshot :=
  let limit := UInt64.ofNat s.limit
  let size := UInt64.ofNat s.validators.card
  { s with
    recents := if limit ≤ number then s.recents.erase (number - limit) else s.recents
    recentForkHashes :=
      if size ≤ number then s.recentForkHashes.erase (number - size) else s.recentForkHashes }

/-- The keys that leave a window ending at `number` when it shrinks. -/
def droppedKeys (number : UInt64) (oldLimit newLimit : Nat) : List UInt64 :=
  (List.range (oldLimit - newLimit)).map fun i => number - UInt64.ofNat newLimit - UInt64.ofNat i

/-- Put `newVals` in force at block `number`. -/
def Snapshot.switchTo (s : Snapshot) (number : UInt64) (newVals : Finset Address) : Snapshot :=
  { s with
    validators := newVals
    recents := eraseAll s.recents (droppedKeys number s.limit (newVals.card / 2 + 1))
    recentForkHashes := eraseAll s.recentForkHashes (droppedKeys number s.validators.card newVals.card) }

/-- Block `number` is the one that changes the validator set. -/
def Engine.Switches (e : Engine) (s : Snapshot) (number : UInt64) : Prop :=
  0 < number ∧ number % e.config.epoch = UInt64.ofNat (s.validators.card / 2)

instance (e : Engine) (s : Snapshot) (number : UInt64) : Decidable (e.Switches s number) :=
  inferInstanceAs (Decidable (_ ∧ _))

/-- Change the validator set, on a switching block, to the one announced by the
checkpoint header; `find` is `FindAncientHeader` on the chain and parents at
hand. -/
def Engine.changeValidators (e : Engine) (find : Nat → Header → Option Header) (snap : Snapshot)
    (header : Header) : Except Err Snapshot :=
  if e.Switches snap header.num then
    match find (snap.validators.card / 2) header with
    | none => .error .errUnknownAncestor
    | some checkpointHeader => do
      let newValArr ← extraValidators checkpointHeader
      .ok (snap.switchTo header.num newValArr.toFinset)
  else .ok snap

/-- Put the fork that `header` announces on record. -/
def Snapshot.recordForkHash (snap : Snapshot) (header : Header) : Except Err Snapshot := do
  failIf (header.extra.length < extraVanity) .panic
  let forkHash := (header.extra.drop (extraVanity - nextForkHashSize)).take nextForkHashSize
  .ok { snap with recentForkHashes := snap.recentForkHashes.insert header.num (encodeToString forkHash) }

/-- The body of the loop of `apply`. -/
def Engine.applyHeader (e : Engine) (find : Nat → Header → Option Header) (s : Snapshot) (header : Header) :
    Except Err Snapshot := do
  let snap := s.expire header.num
  let validator ← e.ecrecover header
  failIf (validator ∉ snap.validators) .errUnauthorizedValidator
  failIf (HasValue snap.recents validator) .errRecentlySigned
  let snap ← e.changeValidators find
    { snap with recents := snap.recents.insert header.num validator } header
  snap.recordForkHash header

/-- Each header is the child of the one before. -/
def Engine.checkLinked (e : Engine) : List Header → Except Err Unit
  | h :: h' :: headers => do
    failIf (h'.num ≠ h.num + 1) .errOutOfRangeChain
    failIf (h'.parentHash ≠ e.hashOf h) .errBlockHashInconsistent
    e.checkLinked (h' :: headers)
  | _ => .ok ()

def Engine.apply (e : Engine) (s : Snapshot) (headers : List Header) (chain : ChainReader)
    (parents : List Header) : Except Err Snapshot :=
  match headers with
  | [] => .ok s
  | h :: hs => do
    e.checkLinked (h :: hs)
    failIf (h.num ≠ s.number + 1) .errOutOfRangeChain
    failIf (h.parentHash ≠ s.hash) .errBlockHashInconsistent
    let snap ← (h :: hs).foldlM (e.applyHeader (e.findAncientHeader chain parents)) s
    .ok { snap with
      number := snap.number + UInt64.ofNat (h :: hs).length
      hash := e.hashOf ((h :: hs).getLast (List.cons_ne_nil h hs)) }

/-! ## Turns -/

/-- The validators in ascending order. -/
def Snapshot.validatorList (s : Snapshot) : List Address :=
  ascending BitVec.toNat (fun _ _ h => BitVec.eq_of_toNat_eq h) s.validators

@[simp] lemma length_validatorList (s : Snapshot) : s.validatorList.length = s.validators.card :=
  length_ascending s.validators

/-- The validator whose turn the next block is. Without validators the remainder
is by zero. -/
def Snapshot.supposeValidator (s : Snapshot) : Except Err Address := do
  failIf (s.validatorList.length = 0) .panic
  match s.validatorList[((s.number + 1) % UInt64.ofNat s.validatorList.length).toNat]? with
  | some v => .ok v
  | none => .error .panic

def Snapshot.inturn (s : Snapshot) (validator : Address) : Except Err Bool := do
  let v ← s.supposeValidator
  .ok (v == validator)

/-- The place of a validator in the ascending order; `none` is the -1 of the code. -/
def Snapshot.indexOfVal (s : Snapshot) (validator : Address) : Option Nat :=
  s.validatorList.idxOf? validator

def Engine.backOffTime (e : Engine) (s : Snapshot) (val : Address) : Except Err UInt64 := do
  if ← s.inturn val then .ok 0
  else
    match s.indexOfVal val with
    | none => .ok 0
    | some idx =>
      let n := s.validators.card
      if h : idx < n then .ok (initialBackOffTime + UInt64.ofNat (e.shuffle s.number n ⟨idx, h⟩) * wiggleTime)
      else .error .panic

def Engine.calcDifficulty (s : Snapshot) (signer : Address) : Except Err Nat := do
  if ← s.inturn signer then .ok diffInTurn else .ok diffNoTurn

end TurboOctopus.Parlia
