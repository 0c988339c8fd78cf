import TurboOctopus.Lib.Words
import TurboOctopus.Lib.Fallible
import TurboOctopus.Lib.Rlp
/-!
# Addresses, hashes, headers

`common.Address` and `common.Hash` are byte arrays; here they are the numbers
those bytes write big-endian, whose order is `bytes.Compare`. The functions
the program takes from cryptography are a `Crypto`.
-/
namespace TurboOctopus.Types

open Lib Lib.Rlp

abbrev Address := BitVec 160
abbrev Hash := BitVec 256
abbrev Bloom := BitVec 2048

def Address.bytes (a : Address) : List UInt8 := fixedBytes 20 a.toNat
def Hash.bytes (h : Hash) : List UInt8 := fixedBytes 32 h.toNat
def Bloom.bytes (b : Bloom) : List UInt8 := fixedBytes 256 b.toNat

/-- `common.BytesToAddress`: the last 20 bytes count. -/
def bytesToAddress (b : List UInt8) : Address := BitVec.ofNat 160 (beNat b)

/-- Keccak-256, and the public key a signature of a hash was made with. -/
structure Crypto where
  keccak256 : List UInt8 → Hash
  ecrecover : Hash → List UInt8 → Option (List UInt8)

def Crypto.rlpHash (C : Crypto) (x : Item) : Hash := C.keccak256 x.encode

/-- The account of a public key: the last 20 bytes of its hash, without the
key's format byte. -/
def Crypto.pubkeyToAddress (C : Crypto) (pubkey : List UInt8) : Address :=
  (C.keccak256 (pubkey.drop 1)).setWidth 160

/-- A block header. `number`, `difficulty` and `baseFee` are pointers to big
integers, `none` where the pointer is nil. A Go slice holds fewer than `2 ^ 63`
bytes. -/
structure Header where
  parentHash : Hash
  uncleHash : Hash
  coinbase : Address
  root : Hash
  txHash : Hash
  receiptHash : Hash
  bloom : Bloom
  difficulty : Option Nat
  number : Option Nat
  gasLimit : UInt64
  gasUsed : UInt64
  time : UInt64
  extra : List UInt8
  mixDigest : Hash
  nonce : UInt64
  baseFee : Option Nat
  extra_len : extra.length < 2 ^ 63
deriving DecidableEq

/-- `header.Number.Uint64()`: the low 64 bits. -/
def Header.num (h : Header) : UInt64 := UInt64.ofNat (h.number.getD 0)

/-- The fields `rlp.Encode` writes for a header. -/
def Header.item (h : Header) : Item :=
  .list ([.str (Hash.bytes h.parentHash), .str (Hash.bytes h.uncleHash), .str (Address.bytes h.coinbase),
    .str (Hash.bytes h.root), .str (Hash.bytes h.txHash), .str (Hash.bytes h.receiptHash),
    .str (Bloom.bytes h.bloom), .nat (h.difficulty.getD 0), .nat (h.number.getD 0),
    .nat h.gasLimit.toNat, .nat h.gasUsed.toNat, .nat h.time.toNat, .str h.extra,
    .str (Hash.bytes h.mixDigest), .str (fixedBytes 8 h.nonce.toNat)] ++
    match h.baseFee with
    | some fee => [.nat fee]
    | none => [])

/-- `header.Hash()`. -/
def Header.hash (C : Crypto) (h : Header) : Hash := C.rlpHash h.item

/-- `types.CalcUncleHash`. -/
def calcUncleHash (C : Crypto) (uncles : List Header) : Hash := C.rlpHash (.list (uncles.map Header.item))

/-- A field of a block that is too large to be handled, with its size. -/
inductive TooLarge
  | number (bitLen : Nat)
  | difficulty (bitLen : Nat)
  | extraData (size : Nat)
  | baseFee (bitLen : Nat)
  | td (bitLen : Nat)
deriving DecidableEq

/-- `types.Header.SanityCheck`. The pointers that are nil pass. -/
def Header.sanityCheck (h : Header) : Except TooLarge Unit := do
  failIf (64 < bitLen (h.number.getD 0)) (.number (bitLen (h.number.getD 0)))
  failIf (80 < bitLen (h.difficulty.getD 0)) (.difficulty (bitLen (h.difficulty.getD 0)))
  failIf (100 * 1024 < h.extra.length) (.extraData h.extra.length)
  failIf (256 < bitLen (h.baseFee.getD 0)) (.baseFee (bitLen (h.baseFee.getD 0)))

end TurboOctopus.Types
