import TurboOctopus.Trie.Hasher
import TurboOctopus.Rlp.RoundTrip
/-!
# The stack trie

`StackTrie` takes keys in order and hashes a subtree as soon as no later key can be in it.
A node has its own copy of its key, and the compact form is made in that buffer. Nodes of
32 bytes or more are put into the database when they are hashed. Keys are without the end
here, a digit is a half byte.
-/
open TurboOctopus.Lib TurboOctopus.Lib.Rlp TurboOctopus.Types TurboOctopus.Rlp

namespace TurboOctopus.Trie

/-! ## Compact keys, in place -/

/-- The loop that packs two digits into each byte. -/
def packLoop (hexLen : Nat) : Nat → Nat → Nat → List UInt8 → List UInt8
  | 0, _, _, hex => hex
  | fuel + 1, bi, ni, hex =>
    if ni < hexLen then
      packLoop hexLen fuel (bi + 1) (ni + 2) (hex.set bi ((hex.getD ni 0 <<< 4) ||| hex.getD (ni + 1) 0))
    else hex

/-- The buffer afterwards, and how much of it the compact key takes. -/
def hexToCompactInPlace (hex : List UInt8) : List UInt8 × Nat :=
  let terminated := hex.getLast? = some 16
  let hexLen := if terminated then hex.length - 1 else hex.length
  let flag := if terminated then (1 : UInt8) <<< 5 else 0
  let odd := hexLen % 2 = 1
  let firstByte := if odd then flag ||| (1 : UInt8) <<< 4 ||| hex.getD 0 0 else flag
  let packed := packLoop hexLen hexLen 1 (if odd then 1 else 0) hex
  (packed.set 0 firstByte, hexLen / 2 + 1)

/-! ## Nodes -/

abbrev Nibble := Fin 16

def keyNibbles (str : List UInt8) : List Nibble :=
  str.flatMap fun b => [Fin.ofNat 16 (b.toNat / 16), Fin.ofNat 16 (b.toNat % 16)]

/-- `nil` is the pointer, `empty` the node type. -/
inductive StackNode where
  | nil
  | empty
  | branch (children : Nibble → StackNode)
  | ext (key : List Nibble) (child : StackNode)
  | leaf (key : List Nibble) (val : List UInt8)
  | hashed (val : List UInt8)

def StackNode.isNil : StackNode → Bool
  | nil => true
  | _ => false

inductive StackPanic
  | deletion
  | existingKey
  | intoHash
  | outOfRange

section Stack
variable (C : Crypto)

/-- What is embedded, or the hash as a string. -/
def rawChild (val : List UInt8) : List UInt8 := if val.length < 32 then val else writeBytes val

def nibbleBytes (key : List Nibble) : List UInt8 := key.map fun digit => UInt8.ofNat digit.val

def compactInPlace (key : List UInt8) : List UInt8 :=
  let (buffer, sz) := hexToCompactInPlace key
  buffer.take sz

/-- `rawShortNode.encode` and `rawFullNode.encode`, with the fields encoded. -/
def encodeRaw (fields : List (List UInt8)) : List UInt8 := encodeList List.flatten fields

/-- The end of `hashRec`: the value of the hashed node, and what is put. -/
def sealNode (encodedNode : List UInt8) (puts : List Put) : List UInt8 × List Put :=
  if encodedNode.length < 32 then (encodedNode, puts)
  else (Hash.bytes (C.keccak256 encodedNode), puts ++ [(C.keccak256 encodedNode, encodedNode)])

/-- The value that the node has once it is hashed. -/
def StackNode.hashRec : StackNode → List UInt8 × List Put
  | nil => ([], [])
  | hashed val => (val, [])
  | empty => (Hash.bytes emptyRoot, [])
  | branch children =>
    let nodes := (List.finRange 16).map fun i =>
      if (children i).isNil then [0x80] else rawChild (children i).hashRec.1
    let puts := (List.finRange 16).flatMap fun i => (children i).hashRec.2
    sealNode C (encodeRaw (nodes ++ [[0x80]])) puts
  | ext key child =>
    let compact := compactInPlace (nibbleBytes key)
    sealNode C (encodeRaw [writeBytes compact, rawChild child.hashRec.1]) child.hashRec.2
  | leaf key val =>
    let compact := compactInPlace (nibbleBytes key ++ [16])
    sealNode C (encodeRaw [writeBytes compact, writeBytes val]) []

/-- `StackTrie.hash`. -/
def StackNode.hash (st : StackNode) : StackNode × List Put := (.hashed (st.hashRec C).1, (st.hashRec C).2)

/-- Where the key of a node and a new key part. -/
def getDiffIndex : List Nibble → List Nibble → Except StackPanic Nat
  | [], _ => .ok 0
  | _ :: _, [] => .error .outOfRange
  | nibble :: rest, digit :: key =>
    if nibble ≠ digit then .ok 0
    else do
      let idx ← getDiffIndex rest key
      return idx + 1

/-- The nearest elder sibling is hashed, if it is not yet. -/
def unresolveElder (children : Nibble → StackNode) : Nat → (Nibble → StackNode) × List Put
  | 0 => (children, [])
  | i + 1 =>
    let elder := Fin.ofNat 16 i
    match children elder with
    | .nil => unresolveElder children i
    | .hashed _ => (children, [])
    | child =>
      let (hashed, puts) := child.hash C
      (Function.update children elder hashed, puts)

def StackNode.insert : StackNode → List Nibble → List UInt8 → Except StackPanic (StackNode × List Put)
  | branch children, key, value =>
    match key with
    | [] => .error .outOfRange
    | idx :: rest =>
      let (siblings, puts) := unresolveElder C children idx.val
      if (children idx).isNil then .ok (branch (Function.update siblings idx (leaf rest value)), puts)
      else do
        let (child, more) ← (children idx).insert rest value
        return (branch (Function.update siblings idx child), puts ++ more)
  | ext nkey child, key, value => do
    let diffidx ← getDiffIndex nkey key
    if diffidx = nkey.length then
      let (child, puts) ← child.insert (key.drop diffidx) value
      return (ext nkey child, puts)
    else
      match nkey.drop diffidx, key.drop diffidx with
      | origIdx :: nrest, newIdx :: krest =>
        let n := if diffidx < nkey.length - 1 then ext nrest child else child
        let (n, puts) := n.hash C
        let p := branch (Function.update (Function.update (fun _ => nil) origIdx n) newIdx (leaf krest value))
        return (if diffidx = 0 then p else ext (nkey.take diffidx) p, puts)
      | _, _ => throw .outOfRange
  | leaf nkey val, key, value => do
    let diffidx ← getDiffIndex nkey key
    match nkey.drop diffidx, key.drop diffidx with
    | [], _ => throw .existingKey
    | origIdx :: nrest, newIdx :: krest =>
      let (n, puts) := (leaf nrest val).hash C
      let p := branch (Function.update (Function.update (fun _ => nil) origIdx n) newIdx (leaf krest value))
      return (if diffidx = 0 then p else ext (nkey.take diffidx) p, puts)
    | _, _ => throw .outOfRange
  | empty, key, value => .ok (leaf key value, [])
  | hashed _, _, _ => .error .intoHash
  | nil, _, _ => .error .outOfRange

end Stack

end TurboOctopus.Trie

namespace TurboOctopus

open Trie

/-! ## The stack trie -/

/-- A stack trie, with what its database has been given, if it has one. All nodes have the
database of the root. -/
structure StackTrie where
  node : StackNode
  db : Option (List Put)

inductive CommitError
  | disabled
deriving DecidableEq

namespace StackTrie

def new (db : Option (List Put)) : StackTrie := ⟨.empty, db⟩

def reset (_ : StackTrie) : StackTrie := ⟨.empty, none⟩

def put (st : StackTrie) (node : StackNode) (puts : List Put) : StackTrie := ⟨node, st.db.map (· ++ puts)⟩

def bytesToHash (b : List UInt8) : Hash := .ofNat 256 (beNat b)

variable (C : Crypto)

def tryUpdate (st : StackTrie) (key value : List UInt8) : Except StackPanic StackTrie :=
  if value.length = 0 then .error .deletion
  else do
    let (node, puts) ← st.node.insert C (keyNibbles key) value
    return st.put node puts

/-- `Hash`: a root that is not hashed is hashed here. -/
def hash (st : StackTrie) : Hash × StackTrie :=
  let (val, puts) := st.node.hashRec C
  let st := st.put (.hashed val) puts
  if val.length = 32 then (bytesToHash val, st) else (C.keccak256 val, st)

def commit (st : StackTrie) : Except CommitError (Hash × StackTrie) :=
  match st.db with
  | none => .error .disabled
  | some _ =>
    let (val, puts) := st.node.hashRec C
    let st := st.put (.hashed val) puts
    if val.length = 32 then .ok (bytesToHash val, st)
    else .ok (C.keccak256 val, st.put st.node [(C.keccak256 val, val)])

end StackTrie

end TurboOctopus
