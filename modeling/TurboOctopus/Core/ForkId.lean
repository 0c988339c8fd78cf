import Mathlib.Data.List.Destutter
import TurboOctopus.Params
/-!
# Fork identifiers

`forkid.NextForkHash`: a CRC-32 of the genesis hash and of every fork block up
to and including the next one.
-/
namespace TurboOctopus.ForkId

open Lib TurboOctopus.Types Params

/-- One bit of the reflected IEEE polynomial. -/
def crcBit (c : UInt32) : UInt32 := if c &&& 1 = 1 then (c >>> 1) ^^^ 0xedb88320 else c >>> 1

/-- `crc32.Update(crc, IEEETable, b)`. -/
def crcUpdate (crc : UInt32) (b : List UInt8) : UInt32 :=
  ~~~ b.foldl (fun c x => Nat.iterate crcBit 8 (c ^^^ x.toUInt32)) (~~~crc)

def checksumIEEE (b : List UInt8) : UInt32 := crcUpdate 0 b

example : checksumIEEE [0x31, 0x32, 0x33, 0x34, 0x35, 0x36, 0x37, 0x38, 0x39] = 0xcbf43926 := by
  decide +kernel

def checksumUpdate (hash : UInt32) (fork : UInt64) : UInt32 := crcUpdate hash (fixedBytes 8 fork.toNat)

def checksumToBytes (hash : UInt32) : List UInt8 := fixedBytes 4 hash.toNat

/-- The `*Block` fields of the configuration, in the order they are declared. -/
def forkBlocks (c : ChainConfig) : List (Option Nat) :=
  [c.homesteadBlock, c.daoForkBlock, c.eip150Block, c.eip155Block, c.eip158Block, c.byzantiumBlock,
    c.constantinopleBlock, c.petersburgBlock, c.istanbulBlock, c.muirGlacierBlock, c.berlinBlock, c.yoloV3Block,
    c.catalystBlock, c.londonBlock, c.arrowGlacierBlock, c.mergeForkBlock, c.ramanujanBlock, c.nielsBlock,
    c.mirrorSyncBlock, c.brunoBlock, c.eulerBlock, c.gibbsBlock, c.nanoBlock, c.moranBlock]

/-- The scheduled fork blocks, ascending, each once, without block 0. -/
def gatherForks (c : ChainConfig) : List UInt64 :=
  let forks : List UInt64 := (forkBlocks c).filterMap fun b => b.map UInt64.ofNat
  match (List.insertionSort (fun a b : UInt64 => a.toNat ≤ b.toNat) forks).destutter (· ≠ ·) with
  | 0 :: forks => forks
  | forks => forks

/-- The checksum up to the last fork `head` has passed, and the next fork. -/
def sumForks (head : UInt64) : UInt32 → List UInt64 → UInt32 × UInt64
  | hash, [] => (hash, 0)
  | hash, fork :: forks =>
    if fork ≤ head then sumForks head (checksumUpdate hash fork) forks else (hash, fork)

/-- `forkid.NextForkHash`. -/
def nextForkHash (c : ChainConfig) (genesis : Hash) (head : UInt64) : List UInt8 :=
  let (hash, next) := sumForks head (checksumIEEE (Hash.bytes genesis)) (gatherForks c)
  if next = 0 then checksumToBytes hash else checksumToBytes (checksumUpdate hash next)

lemma length_nextForkHash (c : ChainConfig) (genesis : Hash) (head : UInt64) :
    (nextForkHash c genesis head).length = 4 := by
  unfold nextForkHash checksumToBytes
  dsimp only
  split <;> simp

end TurboOctopus.ForkId
