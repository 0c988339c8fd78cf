import TurboOctopus.Types.Header
/-!
# Transactions

The three kinds of transaction, the hash each is known by, and the EIP-155
signer the consensus engine recovers senders with.
-/
namespace TurboOctopus.Types

open Lib Lib.Rlp

structure AccessTuple where
  address : Address
  storageKeys : List Hash
deriving DecidableEq

structure LegacyTx where
  nonce : UInt64
  gasPrice : Nat
  gas : UInt64
  toAddr : Option Address
  value : Nat
  data : List UInt8
  v : Nat
  r : Nat
  s : Nat
deriving DecidableEq

structure AccessListTx where
  chainID : Nat
  nonce : UInt64
  gasPrice : Nat
  gas : UInt64
  toAddr : Option Address
  value : Nat
  data : List UInt8
  accessList : List AccessTuple
  v : Nat
  r : Nat
  s : Nat
deriving DecidableEq

structure DynamicFeeTx where
  chainID : Nat
  nonce : UInt64
  gasTipCap : Nat
  gasFeeCap : Nat
  gas : UInt64
  toAddr : Option Address
  value : Nat
  data : List UInt8
  accessList : List AccessTuple
  v : Nat
  r : Nat
  s : Nat
deriving DecidableEq

inductive Transaction where
  | legacy (tx : LegacyTx)
  | accessList (tx : AccessListTx)
  | dynamicFee (tx : DynamicFeeTx)
deriving DecidableEq

namespace Transaction

def type : Transaction → UInt8
  | legacy _ => 0
  | accessList _ => 1
  | dynamicFee _ => 2

def nonce : Transaction → UInt64
  | legacy tx => tx.nonce
  | accessList tx => tx.nonce
  | dynamicFee tx => tx.nonce

def gasPrice : Transaction → Nat
  | legacy tx => tx.gasPrice
  | accessList tx => tx.gasPrice
  | dynamicFee tx => tx.gasFeeCap

def gasTipCap : Transaction → Nat
  | legacy tx => tx.gasPrice
  | accessList tx => tx.gasPrice
  | dynamicFee tx => tx.gasTipCap

def gasFeeCap : Transaction → Nat
  | legacy tx => tx.gasPrice
  | accessList tx => tx.gasPrice
  | dynamicFee tx => tx.gasFeeCap

def gas : Transaction → UInt64
  | legacy tx => tx.gas
  | accessList tx => tx.gas
  | dynamicFee tx => tx.gas

def toAddr : Transaction → Option Address
  | legacy tx => tx.toAddr
  | accessList tx => tx.toAddr
  | dynamicFee tx => tx.toAddr

def value : Transaction → Nat
  | legacy tx => tx.value
  | accessList tx => tx.value
  | dynamicFee tx => tx.value

def data : Transaction → List UInt8
  | legacy tx => tx.data
  | accessList tx => tx.data
  | dynamicFee tx => tx.data

/-- The inner type has a constructor of this name, so the accessor has another. -/
def accessTuples : Transaction → List AccessTuple
  | legacy _ => []
  | accessList tx => tx.accessList
  | dynamicFee tx => tx.accessList

end Transaction

/-- `types.NewTransaction`: an unsigned legacy transaction. -/
def newTransaction (nonce : UInt64) (toAddr : Address) (amount : Nat) (gasLimit : UInt64) (gasPrice : Nat)
    (data : List UInt8) : Transaction :=
  .legacy ⟨nonce, gasPrice, gasLimit, some toAddr, amount, data, 0, 0, 0⟩

/-- A nil address is the empty string. -/
def toItem : Option Address → Item
  | some a => .str (Address.bytes a)
  | none => .str []

def accessListItem (l : List AccessTuple) : Item :=
  .list (l.map fun t => .list [.str (Address.bytes t.address), .list (t.storageKeys.map fun k => .str (Hash.bytes k))])

def Transaction.item : Transaction → Item
  | .legacy tx => .list [.nat tx.nonce.toNat, .nat tx.gasPrice, .nat tx.gas.toNat, toItem tx.toAddr, .nat tx.value,
      .str tx.data, .nat tx.v, .nat tx.r, .nat tx.s]
  | .accessList tx => .list [.nat tx.chainID, .nat tx.nonce.toNat, .nat tx.gasPrice, .nat tx.gas.toNat,
      toItem tx.toAddr, .nat tx.value, .str tx.data, accessListItem tx.accessList, .nat tx.v, .nat tx.r, .nat tx.s]
  | .dynamicFee tx => .list [.nat tx.chainID, .nat tx.nonce.toNat, .nat tx.gasTipCap, .nat tx.gasFeeCap,
      .nat tx.gas.toNat, toItem tx.toAddr, .nat tx.value, .str tx.data, accessListItem tx.accessList, .nat tx.v,
      .nat tx.r, .nat tx.s]

/-- The bytes of a transaction in a block's list. -/
def Transaction.encodeIndex (tx : Transaction) : List UInt8 :=
  if tx.type = 0 then tx.item.encode else tx.type :: tx.item.encode

/-- `tx.Hash()`: a typed transaction is hashed behind its type byte. -/
def Transaction.hash (C : Crypto) (tx : Transaction) : Hash :=
  if tx.type = 0 then C.rlpHash tx.item else C.keccak256 (tx.type :: tx.item.encode)

/-! ## The EIP-155 signer -/

def secp256k1N : Nat := 0xfffffffffffffffffffffffffffffffebaaedce6af48a03bbfd25e8cd0364141

def validateSignatureValues (v : UInt8) (r s : Nat) (homestead : Bool) : Bool :=
  decide (1 ≤ r) && decide (1 ≤ s) && !(homestead && decide (secp256k1N / 2 < s)) &&
    decide (r < secp256k1N) && decide (s < secp256k1N) && (v == 0 || v == 1)

def isProtectedV (v : Nat) : Bool :=
  if v < 256 then v != 27 && v != 28 && v != 1 && v != 0 else true

def deriveChainId (v : Nat) : Nat :=
  if v < 2 ^ 64 then if v = 27 ∨ v = 28 then 0 else (UInt64.ofNat v - 35).toNat / 2 else (v - 35) / 2

/-- The hash that is signed: the fields of the transaction and the chain. -/
def signerHash (C : Crypto) (chainID : Nat) (tx : Transaction) : Hash :=
  C.rlpHash (.list [.nat tx.nonce.toNat, .nat tx.gasPrice, .nat tx.gas.toNat, toItem tx.toAddr, .nat tx.value,
    .str tx.data, .nat chainID, .nat 0, .nat 0])

/-- The same before EIP-155, without the chain. -/
def frontierHash (C : Crypto) (tx : Transaction) : Hash :=
  C.rlpHash (.list [.nat tx.nonce.toNat, .nat tx.gasPrice, .nat tx.gas.toNat, toItem tx.toAddr, .nat tx.value,
    .str tx.data])

/-- `v` is the recovery number plus 27, as an integer of any size and sign. -/
def recoverPlain (C : Crypto) (sighash : Hash) (r s : Nat) (v : Int) (homestead : Bool) : Option Address :=
  -- `Vb.BitLen() > 8`
  if 256 ≤ v.natAbs then none
  else
    let v8 := UInt8.ofNat (v.natAbs + 2 ^ 64 - 27)
    if !validateSignatureValues v8 r s homestead then none
    else
      match C.ecrecover sighash (fixedBytes 32 r ++ fixedBytes 32 s ++ [v8]) with
      | some (4 :: key) => some (C.pubkeyToAddress (4 :: key))
      | _ => none

/-- `EIP155Signer.Sender`; `none` is any of its errors. -/
def signerSender (C : Crypto) (chainID : Nat) : Transaction → Option Address
  | .legacy tx =>
    if !isProtectedV tx.v then recoverPlain C (frontierHash C (.legacy tx)) tx.r tx.s tx.v true
    else if deriveChainId tx.v ≠ chainID then none
    else recoverPlain C (signerHash C chainID (.legacy tx)) tx.r tx.s ((tx.v : Int) - 2 * chainID - 8) true
  | _ => none

end TurboOctopus.Types
