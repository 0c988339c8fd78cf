import TurboOctopus.Types.Transaction
/-!
# Logs, receipts, blocks

What the execution of a block's transactions leaves behind, and how a block is
put together from it.
-/
namespace TurboOctopus.Types

open Lib Lib.Rlp

structure Log where
  address : Address
  topics : List Hash
  data : List UInt8
  blockNumber : UInt64
  txHash : Hash
  txIndex : Nat
  blockHash : Hash
  index : Nat
deriving DecidableEq

def Log.item (l : Log) : Item :=
  .list [.str (Address.bytes l.address), .list (l.topics.map fun t => .str (Hash.bytes t)), .str l.data]

structure Receipt where
  type : UInt8
  postState : List UInt8
  status : UInt64
  cumulativeGasUsed : UInt64
  bloom : Bloom
  logs : List Log
  txHash : Hash
  contractAddress : Address
  gasUsed : UInt64
  blockHash : Hash
  blockNumber : Nat
  transactionIndex : Nat
deriving DecidableEq

def receiptStatusFailed : UInt64 := 0
def receiptStatusSuccessful : UInt64 := 1

/-- Three bits of the filter, from the first three pairs of bytes of the hash. -/
def Bloom.add (C : Crypto) (b : Bloom) (data : List UInt8) : Bloom :=
  let h := (C.keccak256 data).toNat
  let bit (i : Nat) : Bloom := 1 <<< (h / 2 ^ (240 - 16 * i) % 2048)
  b ||| bit 0 ||| bit 1 ||| bit 2

/-- `types.CreateBloom`, of the logs of the receipts one after the other. -/
def createBloom (C : Crypto) (logs : List Log) : Bloom :=
  logs.foldl (fun b l => l.topics.foldl (fun b t => Bloom.add C b (Hash.bytes t)) (Bloom.add C b (Address.bytes l.address))) 0

def Receipt.statusEncoding (r : Receipt) : List UInt8 :=
  if r.postState = [] then if r.status = receiptStatusFailed then [] else [1] else r.postState

/-- The bytes of a receipt in the list whose root is in the header. -/
def Receipt.encodeIndex (r : Receipt) : List UInt8 :=
  let data := (Item.list [.str r.statusEncoding, .nat r.cumulativeGasUsed.toNat, .str (Bloom.bytes r.bloom),
    .list (r.logs.map Log.item)]).encode
  if r.type = 0 then data else if r.type = 1 ∨ r.type = 2 then r.type :: data else []

/-- `crypto.CreateAddress`. -/
def createAddress (C : Crypto) (b : Address) (nonce : UInt64) : Address :=
  (C.rlpHash (.list [.str (Address.bytes b), .nat nonce.toNat])).setWidth 160

structure Block where
  header : Header
  transactions : List Transaction
  uncles : List Header
deriving DecidableEq

def emptyRootHash : Hash := 0x56e81f171bcc55a6ff8345e692c0f86e5b48e01b996cadc001622fb5e363b421

/-- `types.NewBlock`. The root of a list, `deriveSha`, depends on the bytes of
its elements. -/
def newBlock (C : Crypto) (deriveSha : List (List UInt8) → Hash) (header : Header) (txs : List Transaction)
    (uncles : List Header) (receipts : List Receipt) : Block where
  header := { header with
    txHash := if txs = [] then emptyRootHash else deriveSha (txs.map Transaction.encodeIndex)
    receiptHash := if receipts = [] then emptyRootHash else deriveSha (receipts.map Receipt.encodeIndex)
    bloom := if receipts = [] then header.bloom else createBloom C (receipts.flatMap Receipt.logs)
    uncleHash := if uncles = [] then calcUncleHash C [] else calcUncleHash C uncles }
  transactions := txs
  uncles := uncles

end TurboOctopus.Types
