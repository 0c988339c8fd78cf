import TurboOctopus.Params
import TurboOctopus.Types.Block
/-!
# World state and execution

The consensus engine reads and writes nonces and balances, and lets the virtual
machine do the rest. `Machine` is that machine and the state's backend: it is a
function of its arguments, and a call that fails leaves the world as it was.
-/
namespace TurboOctopus.Core

open Lib TurboOctopus.Types Params

variable {ω : Type}

/-- The accounts. `rest` is what only the virtual machine touches. -/
structure World (ω : Type) where
  nonce : Address → UInt64
  balance : Address → Nat
  rest : ω

def World.setNonce (w : World ω) (a : Address) (n : UInt64) : World ω :=
  { w with nonce := Function.update w.nonce a n }

def World.setBalance (w : World ω) (a : Address) (amount : Nat) : World ω :=
  { w with balance := Function.update w.balance a amount }

def World.addBalance (w : World ω) (a : Address) (amount : Nat) : World ω :=
  w.setBalance a (w.balance a + amount)

/-- The state a block is executed on: the accounts, the transaction in
execution, and the logs of each transaction. -/
structure StateDB (ω : Type) where
  world : World ω
  thash : Hash
  txIndex : Nat
  logs : Hash → List Log
  logSize : Nat

def StateDB.prepare (s : StateDB ω) (thash : Hash) (ti : Nat) : StateDB ω :=
  { s with thash := thash, txIndex := ti }

/-- What a contract writes into a log. -/
structure Event where
  address : Address
  topics : List Hash
  data : List UInt8

/-- `AddLog`, with the block number the virtual machine fills in. -/
def StateDB.addLog (blockNumber : UInt64) (s : StateDB ω) (ev : Event) : StateDB ω :=
  { s with
    logs := Function.update s.logs s.thash
      (s.logs s.thash ++ [⟨ev.address, ev.topics, ev.data, blockNumber, s.thash, s.txIndex, 0, s.logSize⟩])
    logSize := s.logSize + 1 }

/-- `GetLogs` writes the block into the logs it returns. -/
def StateDB.markLogs (s : StateDB ω) (hash blockHash : Hash) : StateDB ω :=
  { s with logs := Function.update s.logs hash ((s.logs hash).map fun l => { l with blockHash := blockHash }) }

/-! ## Execution -/

/-- What a contract can ask about the block. -/
structure BlockContext where
  getHash : UInt64 → Hash
  coinbase : Address
  gasLimit : UInt64
  blockNumber : Nat
  time : UInt64
  difficulty : Nat
  baseFee : Option Nat
  random : Option Hash

/-- The loop of `GetHashFn`, down from the last hash known. A block's ancestors
have smaller numbers, so `fuel` is the number of the block. -/
def ancestorHash (getHeader : Hash → UInt64 → Option Header) (n : UInt64) : Nat → Hash → UInt64 → Hash
  | 0, _, _ => 0
  | fuel + 1, lastKnownHash, lastKnownNumber =>
    match getHeader lastKnownHash lastKnownNumber with
    | none => 0
    | some header =>
      if n = header.num - 1 then header.parentHash
      else ancestorHash getHeader n fuel header.parentHash (header.num - 1)

/-- `GetHashFn`, without its cache of the hashes found before. -/
def getHashFn (getHeader : Hash → UInt64 → Option Header) (ref : Header) (n : UInt64) : Hash :=
  if n = ref.num - 1 then ref.parentHash
  else ancestorHash getHeader n ref.num.toNat ref.parentHash (ref.num - 1)

/-- `NewEVMBlockContext`; the author of a Parlia header is its coinbase. -/
def newEVMBlockContext (getHeader : Hash → UInt64 → Option Header) (header : Header) : BlockContext where
  getHash := getHashFn getHeader header
  coinbase := header.coinbase
  gasLimit := header.gasLimit
  blockNumber := header.number.getD 0
  time := header.time
  difficulty := header.difficulty.getD 0
  baseFee := header.baseFee
  random := if header.difficulty.getD 0 = 0 then some header.mixDigest else none

/-- A call the engine makes itself. -/
structure CallMsg where
  fromAddr : Address
  toAddr : Address
  gas : UInt64
  gasPrice : Nat
  value : Nat
  data : List UInt8
deriving DecidableEq

/-- A transaction with its sender. -/
structure Message where
  toAddr : Option Address
  fromAddr : Address
  nonce : UInt64
  amount : Nat
  gasLimit : UInt64
  gasPrice : Nat
  gasFeeCap : Nat
  gasTipCap : Nat
  data : List UInt8
  accessList : List AccessTuple

/-- What the execution of a message leaves. -/
structure Executed (ω : Type) where
  usedGas : UInt64
  failed : Bool
  gasPool : UInt64
  world : World ω
  events : List Event

/-- The virtual machine and the backend of the state. -/
structure Machine (ω : Type) where
  /-- `EVM.Call`: the gas left over, the world after it and what was logged;
  `none` if it fails. -/
  call : BlockContext → CallMsg → World ω → Option (UInt64 × World ω × List Event)
  /-- `ApplyMessage`, with the gas left in the block; `none` if the message is invalid. -/
  applyMessage : BlockContext → Message → UInt64 → World ω → Option (Executed ω)
  /-- `Sender` under the signer of a block. -/
  sender : ChainConfig → Option Nat → Transaction → Option Address
  /-- The changes of state that hard forks prescribe for a block. -/
  applyForks : ChainConfig → Option Nat → World ω → World ω
  /-- `Finalise`, with or without the deletion of empty accounts. -/
  finalise : Bool → World ω → World ω
  root : World ω → Hash
  /-- The root of the trie over a list. -/
  deriveSha : List (List UInt8) → Hash

/-- `tx.AsMessage`. -/
def Machine.asMessage (M : Machine ω) (config : ChainConfig) (number : Option Nat) (baseFee : Option Nat)
    (tx : Transaction) : Option Message :=
  (M.sender config number tx).map fun sender =>
    { toAddr := tx.toAddr
      fromAddr := sender
      nonce := tx.nonce
      amount := tx.value
      gasLimit := tx.gas
      gasPrice := match baseFee with
        | some fee => min (tx.gasTipCap + fee) tx.gasFeeCap
        | none => tx.gasPrice
      gasFeeCap := tx.gasFeeCap
      gasTipCap := tx.gasTipCap
      data := tx.data
      accessList := tx.accessTuples }

/-- The world at the end of a transaction, and the root that its receipt holds
before Byzantium. -/
def Machine.endTransaction (M : Machine ω) (config : ChainConfig) (number : Option Nat) (w : World ω) :
    World ω × List UInt8 :=
  if config.isByzantium number then (M.finalise true w, [])
  else
    let w := M.finalise (config.isEIP158 number) w
    (w, Hash.bytes (M.root w))

end TurboOctopus.Core
