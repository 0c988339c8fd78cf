import Mathlib.Data.Nat.Log
import Mathlib.Algebra.Order.Ring.Nat
/-!
# Recursive length prefix encoding

Byte strings and lists of them, and the bytes they are written as. Integers
are the byte string of their big-endian digits without leading zeros.
-/

namespace TurboOctopus.Lib

/-- The big-endian digits of `n` in base 256, without leading zeros. -/
def beBytes (n : Nat) : List UInt8 :=
  if n = 0 then [] else (List.range (n.log2 / 8 + 1)).reverse.map fun i => UInt8.ofNat (n / 256 ^ i)

/-- The number whose big-endian digits in base 256 are given. -/
def beNat (b : List UInt8) : Nat := b.foldl (fun acc x => acc * 256 + x.toNat) 0

/-- The `n` bytes of an array that holds a number, big-endian. -/
def fixedBytes (n : Nat) (x : Nat) : List UInt8 :=
  (List.range n).reverse.map fun i => UInt8.ofNat (x / 256 ^ i)

@[simp] lemma length_fixedBytes (n x : Nat) : (fixedBytes n x).length = n := by
  simp [fixedBytes]

namespace Rlp

/-- What is encoded: a byte string or a list. -/
inductive Item where
  | str (b : List UInt8)
  | list (l : List Item)

/-- An unsigned integer, written as its digits. -/
def Item.nat (n : Nat) : Item := .str (beBytes n)

/-- The head of a string or list of `size` bytes. -/
def puthead (smalltag largetag : Nat) (size : Nat) : List UInt8 :=
  if size < 56 then [UInt8.ofNat (smalltag + size)]
  else UInt8.ofNat (largetag + (beBytes size).length) :: beBytes size

def writeBytes (b : List UInt8) : List UInt8 :=
  match b with
  | [x] => if x ≤ 0x7f then [x] else puthead 0x80 0xb7 1 ++ [x]
  | b => puthead 0x80 0xb7 b.length ++ b

mutual
def Item.encode : Item → List UInt8
  | .str b => writeBytes b
  | .list l => puthead 0xc0 0xf7 (encodeItems l).length ++ encodeItems l

def encodeItems : List Item → List UInt8
  | [] => []
  | x :: l => x.encode ++ encodeItems l
end

example : (Item.list [.str [0x63, 0x61, 0x74], .nat 1024]).encode = [0xc7, 0x83, 0x63, 0x61, 0x74, 0x82, 4, 0] := by
  decide

end Rlp

end TurboOctopus.Lib
