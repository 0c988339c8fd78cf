import TurboOctopus.Parlia.SystemTx
/-!
# Executing a block

`StateProcessor.Process` with the Parlia engine. The transactions of the body
are executed in order, except those the engine counts as system transactions:
they are set aside and handed to `Finalize`.
-/
namespace TurboOctopus.Core

open Lib TurboOctopus.Types Params Parlia

inductive ProcessErr where
  | engine (err : Parlia.Err)
  | invalidSender
  | couldNotApply (i : Nat) (txHash : Hash)
deriving DecidableEq

/-- What the loop over the body carries. -/
structure Progress (ω : Type) where
  state : StateDB ω
  gasPool : UInt64
  usedGas : UInt64
  commonTxs : List Transaction
  systemTxs : List Transaction
  receipts : List Receipt

/-- What `Process` returns. -/
structure Processed (ω : Type) where
  state : StateDB ω
  receipts : List Receipt
  allLogs : List Log
  usedGas : UInt64

section Process
variable {ω : Type} (e : Engine) (V : Env ω) (block : Types.Block)

/-- `applyTransaction`: the receipt of a message that is valid, and the state and
gas after it. -/
def applyTransaction (i : Nat) (tx : Transaction) (msg : Message) (g : Progress ω) : Option (Progress ω) :=
  let header := block.header
  let txHash := tx.hash e.crypto
  let blockHash := e.hashOf header
  let s := g.state.prepare txHash i
  (V.machine.applyMessage (newEVMBlockContext V.chain.getHeader header) msg g.gasPool s.world).map fun result =>
    let done := V.machine.endTransaction V.chain.config header.number result.world
    let usedGas := g.usedGas + result.usedGas
    let s := (result.events.foldl (StateDB.addLog header.num) { s with world := done.1 }).markLogs txHash blockHash
    { g with
      state := s
      gasPool := result.gasPool
      usedGas := usedGas
      commonTxs := g.commonTxs ++ [tx]
      receipts := g.receipts ++ [{
        type := tx.type
        postState := done.2
        status := if result.failed then receiptStatusFailed else receiptStatusSuccessful
        cumulativeGasUsed := usedGas
        bloom := createBloom e.crypto (s.logs txHash)
        logs := s.logs txHash
        txHash := txHash
        contractAddress := if msg.toAddr = none then createAddress e.crypto msg.fromAddr tx.nonce else 0
        gasUsed := result.usedGas
        blockHash := blockHash
        blockNumber := header.number.getD 0
        transactionIndex := s.txIndex }] }

/-- One round of the loop. -/
def processTx (i : Nat) (tx : Transaction) (g : Progress ω) : Except ProcessErr (Progress ω) :=
  match e.isSystemTransaction tx block.header with
  | .error err => .error (.engine err)
  | .ok true => .ok { g with systemTxs := g.systemTxs ++ [tx] }
  | .ok false =>
    match V.machine.asMessage V.chain.config block.header.number block.header.baseFee tx with
    | none => .error .invalidSender
    | some msg =>
      match applyTransaction e V block i tx msg g with
      | none => .error (.couldNotApply i (tx.hash e.crypto))
      | some g => .ok g

def processTxs : Nat → List Transaction → Progress ω → Except ProcessErr (Progress ω)
  | _, [], g => .ok g
  | i, tx :: txs, g => processTx e V block i tx g >>= processTxs (i + 1) txs

/-- The loop over the whole body, after the changes hard forks prescribe. -/
def processBody (s : StateDB ω) : Except ProcessErr (Progress ω) :=
  processTxs e V block 0 block.transactions
    ⟨{ s with world := V.machine.applyForks V.chain.config block.header.number s.world }, block.header.gasLimit, 0,
      [], [], []⟩

/-- What `Finalize` starts from. -/
def Progress.pending (g : Progress ω) : Pending ω := ⟨g.state, g.commonTxs, g.receipts, g.systemTxs, g.usedGas⟩

def process (s : StateDB ω) : EStateM ProcessErr Caches (Processed ω) := fun c =>
  match processBody e V block s with
  | .error err => .error err c
  | .ok g =>
    match e.finalize V block.header (c, g.pending) with
    | .error err t => .error (.engine err) t.1
    | .ok _ t => .ok ⟨t.2.state, t.2.receipts, t.2.receipts.flatMap Receipt.logs, t.2.usedGas⟩ t.1

end Process

end TurboOctopus.Core
