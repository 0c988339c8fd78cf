import TurboOctopus.Core.State
import TurboOctopus.Parlia.Engine
/-!
# System transactions

At the end of a block the engine itself calls its contracts: at block 1 it
initialises them, out of turn it slashes the validator whose turn it was, and it
hands the fees of the block to the validators. The producer signs a transaction
for each call; every other node takes it from the block and checks that it is
the one expected.
-/
namespace TurboOctopus.Parlia

open Lib TurboOctopus.Types Params TurboOctopus.Core

def validatorContract : Address := 0x1000
def slashContract : Address := 0x1001
def systemRewardContract : Address := 0x1002
def lightClientContract : Address := 0x1003
def tokenHubContract : Address := 0x1004
def relayerIncentivizeContract : Address := 0x1005
def relayerHubContract : Address := 0x1006
def govHubContract : Address := 0x1007
def crossChainContract : Address := 0x2000
def systemAddress : Address := 0xfffffffffffffffffffffffffffffffffffffffe

def systemContracts : List Address :=
  [validatorContract, slashContract, systemRewardContract, lightClientContract, relayerHubContract, govHubContract,
    tokenHubContract, relayerIncentivizeContract, crossChainContract]

def Engine.isSystemTransaction (e : Engine) (tx : Transaction) (header : Header) : Except Err Bool :=
  match tx.toAddr with
  -- deploy a contract
  | none => .ok false
  | some toAddr =>
    match signerSender e.crypto e.chainConfig.chainID tx with
    | none => .error .unauthorizedTransaction
    | some sender => .ok (decide (sender = header.coinbase ∧ toAddr ∈ systemContracts ∧ tx.gasPrice = 0))

/-! ## Messages -/

/-- `abi.Pack` of a method with address arguments: the selector, and each
argument in a word. -/
def Engine.pack (e : Engine) (signature : List UInt8) (args : List Address) : List UInt8 :=
  (Hash.bytes (e.crypto.keccak256 signature)).take 4 ++ args.flatMap fun a => fixedBytes 32 a.toNat

def getSystemMessage (fromAddr toAddr : Address) (data : List UInt8) (value : Nat) : CallMsg where
  fromAddr := fromAddr
  toAddr := toAddr
  gas := 0x7fffffffffffffff
  gasPrice := 0
  value := value
  data := data

def initContracts : List Address :=
  [validatorContract, slashContract, lightClientContract, relayerHubContract, tokenHubContract,
    relayerIncentivizeContract, crossChainContract]

/-- `init()` -/
def Engine.initData (e : Engine) : List UInt8 := e.pack [0x69, 0x6e, 0x69, 0x74, 0x28, 0x29] []

/-- `slash(address)` -/
def Engine.slashData (e : Engine) (spoiledVal : Address) : List UInt8 :=
  e.pack [0x73, 0x6c, 0x61, 0x73, 0x68, 0x28, 0x61, 0x64, 0x64, 0x72, 0x65, 0x73, 0x73, 0x29] [spoiledVal]

/-- `deposit(address)` -/
def Engine.depositData (e : Engine) (validator : Address) : List UInt8 :=
  e.pack [0x64, 0x65, 0x70, 0x6f, 0x73, 0x69, 0x74, 0x28, 0x61, 0x64, 0x64, 0x72, 0x65, 0x73, 0x73, 0x29] [validator]

def Engine.initMessages (e : Engine) (header : Header) : List CallMsg :=
  initContracts.map fun c => getSystemMessage header.coinbase c e.initData 0

def Engine.slashMessage (e : Engine) (header : Header) (spoiledVal : Address) : CallMsg :=
  getSystemMessage header.coinbase slashContract (e.slashData spoiledVal) 0

def rewardMessage (header : Header) (amount : Nat) : CallMsg :=
  getSystemMessage header.coinbase systemRewardContract [] amount

def Engine.depositMessage (e : Engine) (header : Header) (amount : Nat) (validator : Address) : CallMsg :=
  getSystemMessage header.coinbase validatorContract (e.depositData validator) amount

/-! ## Applying a message -/

/-- What the calls of one block work on. `received` are the transactions of the
block not yet matched to a call. -/
structure Pending (ω : Type) where
  state : StateDB ω
  txs : List Transaction
  receipts : List Receipt
  received : List Transaction
  usedGas : UInt64

abbrev SystemM (ω : Type) := EStateM Err (Pending ω)

/-- What a node runs a block with: the virtual machine, and the headers it finds. -/
structure Env (ω : Type) where
  machine : Machine ω
  chain : ChainReader

section Apply
variable {ω : Type} (e : Engine) (V : Env ω) (header : Header)

/-- The unsigned transaction of a message. -/
def expectedTx (nonce : UInt64) (msg : CallMsg) : Transaction :=
  newTransaction nonce msg.toAddr msg.value msg.gas msg.gasPrice msg.data

def Engine.signingHash (tx : Transaction) : Hash := signerHash e.crypto e.chainConfig.chainID tx

/-- The transaction of a message: signed by the producer, else the next one
received. -/
def Engine.takeTransaction (msg : CallMsg) (nonce : UInt64) (mining : Bool) : SystemM ω Transaction := fun p =>
  if msg.fromAddr = e.val ∧ mining then
    match e.signTxFn msg.fromAddr (expectedTx nonce msg) with
    | .ok tx => .ok tx p
    | .error err => .error err p
  else
    match p.received with
    | [] => .error .noReceivedTransaction p
    | actualTx :: rest =>
      if e.signingHash actualTx ≠ e.signingHash (expectedTx nonce msg) then
        .error (.unexpectedTransaction (e.signingHash (expectedTx nonce msg)) (actualTx.hash e.crypto)
          (expectedTx nonce msg)) p
      else .ok actualTx { p with received := rest }

/-- `applyMessage`: the gas used, and the state after the call. -/
def Env.applyMessage (msg : CallMsg) (s : StateDB ω) : Except Err (UInt64 × StateDB ω) :=
  match V.machine.call (newEVMBlockContext V.chain.getHeader header) msg s.world with
  | none => .error .execution
  | some (returnGas, world, events) =>
    .ok (msg.gas - returnGas, events.foldl (StateDB.addLog header.num) { s with world := world })

namespace Engine

/-- `state.Prepare`, before the call of a transaction. -/
def prepareFor (tx : Transaction) (p : Pending ω) : Pending ω :=
  { p with state := p.state.prepare (tx.hash e.crypto) p.txs.length }

/-- The receipt of a system call. `s` is the state with the block in its logs. -/
def systemReceipt (blockHash : Hash) (tx : Transaction) (root : List UInt8) (gasUsed usedGas : UInt64)
    (s : StateDB ω) : Receipt where
  type := 0
  postState := root
  status := receiptStatusSuccessful
  cumulativeGasUsed := usedGas
  bloom := createBloom e.crypto (s.logs (tx.hash e.crypto))
  logs := s.logs (tx.hash e.crypto)
  txHash := tx.hash e.crypto
  contractAddress := 0
  gasUsed := gasUsed
  blockHash := blockHash
  blockNumber := header.number.getD 0
  transactionIndex := s.txIndex

/-- What a successful call leaves: its transaction, its receipt and the next
nonce. When mining, `usedGas` is the header's own field, so the hash of the
header changes with it. -/
def record (msg : CallMsg) (nonce : UInt64) (mining : Bool) (tx : Transaction) (gasUsed : UInt64)
    (s : StateDB ω) (p : Pending ω) : Pending ω :=
  let usedGas := p.usedGas + gasUsed
  let blockHash := e.hashOf (if mining then { header with gasUsed := usedGas } else header)
  let done := V.machine.endTransaction e.chainConfig header.number s.world
  let s := s.markLogs (tx.hash e.crypto) blockHash
  { p with
    state := { s with world := done.1.setNonce msg.fromAddr (nonce + 1) }
    txs := p.txs ++ [tx]
    receipts := p.receipts ++ [e.systemReceipt header blockHash tx done.2 gasUsed usedGas s]
    usedGas := usedGas }

def applyTransaction (mining : Bool) (msg : CallMsg) : SystemM ω Unit := fun p =>
  let nonce := p.state.world.nonce msg.fromAddr
  match e.takeTransaction msg nonce mining p with
  | .error err p => .error err p
  | .ok tx p =>
    let p := e.prepareFor tx p
    match V.applyMessage header msg p.state with
    | .error err => .error err p
    | .ok (gasUsed, s) => .ok () (e.record V header msg nonce mining tx gasUsed s p)

/-- Apply messages up to the first that fails. -/
def applyEach (mining : Bool) : List CallMsg → SystemM ω Unit
  | [] => pure ()
  | msg :: msgs => do
    e.applyTransaction V header mining msg
    applyEach mining msgs

def initContract (mining : Bool) : SystemM ω Unit := e.applyEach V header mining (e.initMessages header)

def slash (mining : Bool) (spoiledVal : Address) : SystemM ω Unit :=
  e.applyTransaction V header mining (e.slashMessage header spoiledVal)

def distributeToSystem (mining : Bool) (amount : Nat) : SystemM ω Unit :=
  e.applyTransaction V header mining (rewardMessage header amount)

def distributeToValidator (mining : Bool) (amount : Nat) (validator : Address) : SystemM ω Unit :=
  e.applyTransaction V header mining (e.depositMessage header amount validator)

end Engine

/-- The fees of the block, moved to the coinbase. -/
def Pending.collect (p : Pending ω) : Pending ω :=
  let w := p.state.world
  { p with state := { p.state with
      world := (w.setBalance systemAddress 0).addBalance header.coinbase (w.balance systemAddress) } }

/-- The share of the fees that goes to the reward contract, as long as that is
not full. -/
def Pending.rewards (p : Pending ω) (balance : Nat) : Nat :=
  if p.state.world.balance systemRewardContract < maxSystemBalance then balance / 2 ^ systemRewardPercent else 0

namespace Engine

def distributeIncoming (mining : Bool) (val : Address) : SystemM ω Unit := fun p =>
  let balance := p.state.world.balance systemAddress
  if balance = 0 then .ok () p
  else
    let p := p.collect header
    let rewards := p.rewards balance
    if 0 < rewards then
      (do e.distributeToSystem V header mining rewards
          e.distributeToValidator V header mining (balance - rewards) val) p
    else e.distributeToValidator V header mining balance val p

/-! ## The end of a block -/

/-- Slash the validator whose turn it was, unless it signed recently. An error
of the call is dropped. -/
def slashSpoiled (mining : Bool) (snap : Snapshot) : SystemM ω Unit := do
  let spoiledVal ← lift snap.supposeValidator
  if HasValue snap.recents spoiledVal then pure ()
  else swallow (e.slash V header mining spoiledVal)

/-- Initialise the contracts at block 1. An error is dropped. -/
def initFirst (mining : Bool) : SystemM ω Unit :=
  if header.number.getD 0 = 1 then swallow (e.initContract V header mining) else pure ()

/-- The check of an epoch block against the validator contract. -/
def verifyEpochValidators (header : Header) : Except Err Unit :=
  if header.num % e.config.epoch = 0 then do
    let newValidators ← e.getCurrentValidators header.parentHash (header.number.getD 0 - 1)
    failIf (header.extra.length < extraVanity + extraSeal) .panic
    failIf ((header.extra.drop extraVanity).take (header.extra.length - extraVanity - extraSeal) ≠
      (sortValidators newValidators).flatMap Address.bytes) .errMismatchingEpochValidators
  else .ok ()

/-- `Finalize` slashes out of turn. -/
def slashOutOfTurn (snap : Snapshot) : SystemM ω Unit :=
  if header.difficulty.getD 0 ≠ diffInTurn then e.slashSpoiled V header false snap else pure ()

/-- `Finalize` after its snapshot and the check of an epoch block. -/
def settle (snap : Snapshot) : SystemM ω Unit := do
  e.initFirst V header false
  e.slashOutOfTurn V header snap
  e.distributeIncoming V header false header.coinbase
  let p ← get
  lift (failIf (p.received ≠ []) .systemTxsLength)

def finalize : EStateM Err (Caches × Pending ω) Unit := do
  let snap ← onFst (e.snapshot V.chain (header.num - 1) header.parentHash [])
  lift (e.verifyEpochValidators header)
  onSnd (e.settle V header snap)

/-- `FinalizeAndAssemble` slashes out of turn, and reads the snapshot only then. -/
def mineSlash : EStateM Err (Caches × Pending ω) Unit :=
  if header.difficulty.getD 0 ≠ diffInTurn then do
    let snap ← onFst (e.snapshot V.chain (header.num - 1) header.parentHash [])
    onSnd (e.slashSpoiled V header true snap)
  else pure ()

/-- The system calls of `FinalizeAndAssemble`. -/
def mineSystem : EStateM Err (Caches × Pending ω) Unit := do
  onSnd (e.initFirst V header true)
  e.mineSlash V header
  onSnd (e.distributeIncoming V header true e.val)

/-- `FinalizeAndAssemble`. `usedGas` starts as `header.GasUsed`, and there are no
received transactions. -/
def finalizeAndAssemble (state : StateDB ω) (txs : List Transaction) (receipts : List Receipt) :
    EStateM Err Caches (Types.Block × List Receipt × StateDB ω) := fun c =>
  match e.mineSystem V header (c, ⟨state, txs, receipts, [], header.gasUsed⟩) with
  | .error err s => .error err s.1
  | .ok _ s =>
    let p := s.2
    if header.gasLimit < p.usedGas then .error .systemGasAboveLimit s.1
    else
      let world := V.machine.finalise (V.chain.config.isEIP158 header.number) p.state.world
      let block := newBlock e.crypto V.machine.deriveSha { header with gasUsed := p.usedGas } p.txs [] p.receipts
      .ok ({ block with header := { block.header with root := V.machine.root world } }, p.receipts,
        { p.state with world := world }) s.1

end Engine

end Apply

/-! ## A small machine

It moves the value of a call, refuses the calls to some contracts, and takes ten
coins for every common transaction. -/

def smallMachine (refuses : List Address) : Machine Unit where
  call _ msg w :=
    if msg.toAddr ∈ refuses ∨ w.balance msg.fromAddr < msg.value then none
    else some (msg.gas - 21000,
      (w.setBalance msg.fromAddr (w.balance msg.fromAddr - msg.value)).addBalance msg.toAddr msg.value, [])
  applyMessage _ msg gasPool w :=
    some ⟨21000, false, gasPool - 21000, (w.addBalance systemAddress 10).setNonce msg.fromAddr (msg.nonce + 1), []⟩
  sender config _ tx := signerSender smallCrypto config.chainID tx
  applyForks _ _ w := w
  finalise _ w := w
  root _ := 0
  deriveSha items := smallCrypto.keccak256 items.flatten

/-- A legacy transaction that `sender` signed. -/
def smallTx (sender : Address) (tx : Transaction) : Transaction :=
  .legacy ⟨tx.nonce, tx.gasPrice, tx.gas, tx.toAddr, tx.value, tx.data, 27, sender.toNat * 2 ^ 96, 1⟩

/-- Block 1 by validator 1, of some difficulty. -/
def firstHeader (parent : Hash) (difficulty : Nat) : Header :=
  { smallHeader parent 1 1 [] few_none with difficulty := some difficulty }

lemma firstHeader_parentHash (parent : Hash) (difficulty : Nat) : (firstHeader parent difficulty).parentHash = parent :=
  rfl

def smallState : StateDB Unit := ⟨⟨fun _ => 0, fun _ => 0, ()⟩, 0, 0, fun _ => [], 0⟩

/-! ## How a message ends -/

section Ends
variable {ω : Type} {e : Engine} {V : Env ω} {header : Header} {mining : Bool} {msg : CallMsg} {p q : Pending ω}

/-- A node that does not mine takes the next transaction received, or changes nothing. -/
lemma takeTransaction_ok {nonce : UInt64} {tx : Transaction} (h : e.takeTransaction msg nonce false p = .ok tx q) :
    p.received = tx :: q.received ∧ q = { p with received := q.received } ∧
      e.signingHash tx = e.signingHash (expectedTx nonce msg) := by
  unfold Engine.takeTransaction at h
  rw [if_neg (by simp)] at h
  cases hr : p.received with
  | nil => rw [hr] at h; cases h
  | cons tx' rest =>
    rw [hr] at h
    dsimp only at h
    split at h
    · cases h
    · rename_i hhash
      cases h
      exact ⟨rfl, rfl, not_not.1 hhash⟩

lemma takeTransaction_error {nonce : UInt64} {err : Err} (h : e.takeTransaction msg nonce mining p = .error err q) :
    q = p := by
  unfold Engine.takeTransaction at h
  split at h
  · split at h
    · cases h
    · cases h; rfl
  · split at h
    · cases h; rfl
    · split at h
      · cases h; rfl
      · cases h

lemma applyTransaction_untaken {err : Err}
    (h : e.takeTransaction msg (p.state.world.nonce msg.fromAddr) mining p = .error err q) :
    e.applyTransaction V header mining msg p = .error err p := by
  obtain rfl := takeTransaction_error h
  simp only [Engine.applyTransaction, h]

lemma applyTransaction_taken {tx : Transaction}
    (h : e.takeTransaction msg (p.state.world.nonce msg.fromAddr) mining p = .ok tx q) :
    e.applyTransaction V header mining msg p =
      match V.applyMessage header msg (e.prepareFor tx q).state with
      | .error err => .error err (e.prepareFor tx q)
      | .ok r => .ok () (e.record V header msg (p.state.world.nonce msg.fromAddr) mining tx r.1 r.2
          (e.prepareFor tx q)) := by
  simp only [Engine.applyTransaction, h]
  cases V.applyMessage header msg (e.prepareFor tx q).state <;> rfl

lemma settle_ok_iff {snap : Snapshot} : e.settle V header snap p = .ok () q ↔ ∃ p1 p2, e.initFirst V header false p =
      .ok () p1 ∧ e.slashOutOfTurn V header snap p1 = .ok () p2 ∧
      e.distributeIncoming V header false header.coinbase p2 = .ok () q ∧ q.received = [] := by
  unfold Engine.settle
  constructor
  · intro h
    obtain ⟨_, p1, h1, hr1⟩ := bind_run_ok h
    obtain ⟨_, p2, h2, hr2⟩ := bind_run_ok hr1
    obtain ⟨_, p3, h3, hr3⟩ := bind_run_ok hr2
    obtain ⟨_, _, hget, hr4⟩ := bind_run_ok hr3
    cases hget
    obtain ⟨hrec, rfl⟩ := lift_run_ok hr4
    exact ⟨p1, p2, h1, h2, h3, not_not.1 (failIf_ok_iff.1 hrec)⟩
  · rintro ⟨p1, p2, h1, h2, h3, hrec⟩
    rw [run_bind_of_ok h1, run_bind_of_ok h2, run_bind_of_ok h3]
    have hget : (get : SystemM ω (Pending ω)) q = .ok q q := rfl
    rw [run_bind_of_ok hget, failIf_of_not (not_not.2 hrec)]
    rfl

end Ends

end TurboOctopus.Parlia
