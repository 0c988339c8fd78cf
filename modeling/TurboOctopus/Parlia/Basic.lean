import TurboOctopus.Types.Transaction
import TurboOctopus.Params
/-!
# The Parlia engine

Its constants and errors, what it is configured with, and the recovery of a
header's signer from the seal at the end of the extra-data.
-/
namespace TurboOctopus.Parlia

open Lib Lib.Rlp TurboOctopus.Types Params

def checkpointInterval : Nat := 1024
def extraVanity : Nat := 32
def extraSeal : Nat := 65
def nextForkHashSize : Nat := 4
def validatorBytesLength : Nat := 20
def wiggleTime : UInt64 := 1
def initialBackOffTime : UInt64 := 1
def systemRewardPercent : Nat := 4
def maxSystemBalance : Nat := 100 * 10 ^ 18
def diffInTurn : Nat := 2
def diffNoTurn : Nat := 1

/-- Every error the engine returns, and `panic` where the Go runtime stops the
program (a slice or an index out of range, a division by zero). -/
inductive Err where
  | errUnknownBlock
  | errMissingVanity
  | errMissingSignature
  | errExtraValidators
  | errInvalidSpanValidators
  | errInvalidMixDigest
  | errInvalidUncleHash
  | errMismatchingEpochValidators
  | errInvalidDifficulty
  | errWrongDifficulty
  | errOutOfRangeChain
  | errBlockHashInconsistent
  | errUnauthorizedValidator
  | errCoinBaseMisMatch
  | errRecentlySigned
  | errUnknownAncestor
  | errFutureBlock
  | invalidValidatorsBytes
  | invalidSignature
  | gasRepriceForkHash
  | gasLimitAboveCapacity (gasLimit : UInt64)
  | gasUsedAboveLimit (gasUsed gasLimit : UInt64)
  | invalidGasLimit (gasLimit parentGasLimit limit : UInt64)
  | unauthorizedTransaction
  | noReceivedTransaction
  | unexpectedTransaction (expectedHash actualHash : Hash) (expectedTx : Transaction)
  | systemTxsLength
  | systemGasAboveLimit
  | execution
  | signing
  | contractCall
  | panic
deriving DecidableEq

/-- The engine of one node: the configuration of the chain, the account it
signs with, and what it asks of the outside. `signatures` is the cache in front
of the signature recovery, `getCurrentValidators` the answer of the validator
contract at a block, and `shuffle seed n` the permutation `rand.Shuffle` makes
of `n` elements under a seed. -/
structure Engine where
  crypto : Crypto
  chainConfig : ChainConfig
  config : ParliaConfig
  genesisHash : Hash
  signatures : Hash → Option Address
  val : Address
  signFn : Address → List UInt8 → Except Err (List UInt8)
  signTxFn : Address → Transaction → Except Err Transaction
  getCurrentValidators : Hash → Nat → Except Err (List Address)
  shuffle : UInt64 → (n : Nat) → Equiv.Perm (Fin n)
  fakeDiff : Bool

/-- `header.Hash()`, with the engine's hash function. -/
def Engine.hashOf (e : Engine) (h : Header) : Hash := h.hash e.crypto

/-- The header as it is signed: every field, and the extra-data without its
seal. -/
def sigItem (chainID : Nat) (h : Header) : Item :=
  .list [.nat chainID, .str (Hash.bytes h.parentHash), .str (Hash.bytes h.uncleHash),
    .str (Address.bytes h.coinbase), .str (Hash.bytes h.root), .str (Hash.bytes h.txHash),
    .str (Hash.bytes h.receiptHash), .str (Bloom.bytes h.bloom), .nat (h.difficulty.getD 0),
    .nat (h.number.getD 0), .nat h.gasLimit.toNat, .nat h.gasUsed.toNat, .nat h.time.toNat,
    .str (h.extra.take (h.extra.length - extraSeal)), .str (Hash.bytes h.mixDigest),
    .str (fixedBytes 8 h.nonce.toNat)]

def Engine.parliaRLP (e : Engine) (h : Header) : List UInt8 := (sigItem e.chainConfig.chainID h).encode

def Engine.sealHash (e : Engine) (h : Header) : Hash := e.crypto.keccak256 (e.parliaRLP h)

/-- The account whose signature ends the extra-data. -/
def Engine.recoverSigner (e : Engine) (h : Header) : Except Err Address := do
  failIf (h.extra.length < extraSeal) .errMissingSignature
  match e.crypto.ecrecover (e.sealHash h) (h.extra.drop (h.extra.length - extraSeal)) with
  | none => .error .invalidSignature
  | some pubkey => .ok (e.crypto.pubkeyToAddress pubkey)

/-- The account that sealed a header, from the cache if it is there. -/
def Engine.ecrecover (e : Engine) (h : Header) : Except Err Address :=
  match e.signatures (e.hashOf h) with
  | some address => .ok address
  | none => e.recoverSigner h

/-! ## A small instance

Signatures that spell out the signer, and a hash that can be evaluated: enough
to run the engine on a few blocks. -/

def smallCrypto : Crypto where
  keccak256 b :=
    if b.length ≤ 32 then BitVec.ofNat 256 (beNat b)
    else BitVec.ofNat 256 (b.foldl (fun acc x => acc * 257 + x.toNat) 1)
  ecrecover _ sig := some (4 :: sig.take 20)

/-- The seal of a header signed by `v`. -/
def smallSeal (v : Address) : List UInt8 := Address.bytes v ++ List.replicate 45 0

def smallEngine (epoch : UInt64) (h : epoch ≠ 0) (v : Address) : Engine where
  crypto := smallCrypto
  chainConfig := noForks 1
  config := ⟨3, epoch, h⟩
  genesisHash := 0
  signatures _ := none
  val := v
  signFn v _ := .ok (smallSeal v)
  signTxFn _ tx := .ok tx
  getCurrentValidators _ _ := .ok [v]
  shuffle _ n := Equiv.refl (Fin n)
  fakeDiff := false

lemma epoch_two : (2 : UInt64) ≠ 0 := by decide

lemma epoch_twoHundred : (200 : UInt64) ≠ 0 := by decide

lemma few_none : ([] : List Address).length < 100 := by decide

lemma few_one : ([1] : List Address).length < 100 := by decide

lemma few_two : ([1, 2] : List Address).length < 100 := by decide

/-- A header of `n`, signed by `v`, that announces `vals`. -/
def smallHeader (parent : Hash) (n : Nat) (v : Address) (vals : List Address)
    (hv : vals.length < 100 := by decide) : Header where
  parentHash := parent
  uncleHash := calcUncleHash smallCrypto []
  coinbase := v
  root := 0
  txHash := 0
  receiptHash := 0
  bloom := 0
  difficulty := some 2
  number := some n
  gasLimit := 30000000
  gasUsed := 0
  time := UInt64.ofNat (3 * n)
  extra := List.replicate extraVanity 0 ++ vals.flatMap Address.bytes ++ smallSeal v
  mixDigest := 0
  nonce := 0
  baseFee := none
  extra_len := by
    have hl : (vals.flatMap Address.bytes).length = vals.length * 20 := by
      simp [List.length_flatMap, Address.bytes]
    simp only [List.length_append, hl, List.length_replicate, smallSeal, Address.bytes, length_fixedBytes, extraVanity]
    omega

@[simp] lemma smallHeader_parentHash (parent : Hash) (n : Nat) (v : Address) (vals : List Address)
    (hv : vals.length < 100) : (smallHeader parent n v vals hv).parentHash = parent := rfl

@[simp] lemma smallHeader_num (parent : Hash) (n : Nat) (v : Address) (vals : List Address)
    (hv : vals.length < 100) : (smallHeader parent n v vals hv).num = UInt64.ofNat n := rfl

end TurboOctopus.Parlia
