import TurboOctopus.Lib.Patricia
import TurboOctopus.Types.Header
/-!
# The trie in memory

Nodes as `trie.node` has them, with keys in hex encoding: a digit for each half byte, and
16 at the end of a key. Nodes that are not loaded are hash nodes, which the database
resolves. A recursion through resolved nodes takes fuel; an index out of range or a node
of the wrong type is the error `invalid`.
-/
namespace TurboOctopus.Trie

open Lib Lib.Rlp TurboOctopus.Types
open Lib.Patricia.Tree (prefixLen)

/-! ## Keys -/

/-- A half byte, or 16 for the end. -/
abbrev HexDigit := Fin 17

instance neZero_hexDigit : NeZero 17 := ⟨by decide⟩

def keybytesToHex (str : List UInt8) : List HexDigit :=
  str.flatMap (fun b => [Fin.ofNat 17 (b.toNat / 16), Fin.ofNat 17 (b.toNat % 16)]) ++ [16]

def hasTerm (hex : List HexDigit) : Bool := hex.getLast? = some 16

def decodeNibbles : List HexDigit → List UInt8
  | a :: b :: rest => UInt8.ofNat (a.val * 16 + b.val) :: decodeNibbles rest
  | _ => []

/-- The flag byte has the end and an odd length, and then the first digit. -/
def hexToCompact (hex : List HexDigit) : List UInt8 :=
  let terminator := if hasTerm hex then 1 else 0
  let hex := if hasTerm hex then hex.dropLast else hex
  match hex with
  | a :: rest =>
    if hex.length % 2 = 1 then UInt8.ofNat (terminator * 32 + 16 + a.val) :: decodeNibbles rest
    else UInt8.ofNat (terminator * 32) :: decodeNibbles hex
  | [] => [UInt8.ofNat (terminator * 32)]

/-! ## Nodes -/

structure NodeFlag where
  hash : Option Hash
  dirty : Bool

def newFlag : NodeFlag := ⟨none, true⟩

/-- `empty` is nil. -/
inductive Node where
  | empty
  | value (v : List UInt8)
  | short (key : List HexDigit) (val : Node) (flags : NodeFlag)
  | full (children : HexDigit → Node) (flags : NodeFlag)
  | hash (h : Hash)

def Node.isEmpty : Node → Bool
  | empty => true
  | _ => false

/-- `Database.node`. -/
abbrev NodeDb := Hash → Option Node

inductive TrieError
  | missingNode (hash : Hash) (path : List HexDigit)
  | invalid
  | endless
deriving DecidableEq

def resolveHash (db : NodeDb) (h : Hash) (path : List HexDigit) : Except TrieError Node :=
  match db h with
  | some n => .ok n
  | none => .error (.missingNode h path)

def resolve (db : NodeDb) (n : Node) (path : List HexDigit) : Except TrieError Node :=
  match n with
  | .hash h => resolveHash db h path
  | n => .ok n

/-! ## Reading -/

/-- The value, the node with what was loaded on the way, and whether anything was. -/
def Node.tryGet (db : NodeDb) : Nat → Node → List HexDigit → Nat → Except TrieError (Option (List UInt8) × Node × Bool)
  | 0, _, _, _ => .error .endless
  | fuel + 1, n, key, pos =>
    match n with
    | .empty => .ok (none, .empty, false)
    | .value v => .ok (some v, n, false)
    | .short nkey val flags =>
      if key.length - pos < nkey.length ∨ nkey ≠ (key.drop pos).take nkey.length then .ok (none, n, false)
      else do
        let (found, newnode, didResolve) ← Node.tryGet db fuel val key (pos + nkey.length)
        return (found, if didResolve then .short nkey newnode flags else n, didResolve)
    | .full children flags =>
      match key[pos]? with
      | none => .error .invalid
      | some digit => do
        let (found, newnode, didResolve) ← Node.tryGet db fuel (children digit) key (pos + 1)
        return (found, if didResolve then .full (Function.update children digit newnode) flags else n, didResolve)
    | .hash h => do
      let child ← resolveHash db h (key.take pos)
      let (found, newnode, _) ← Node.tryGet db fuel child key pos
      return (found, newnode, true)

/-! ## Writing -/

/-- Whether the node changed, and the new node. -/
def Node.insert (db : NodeDb) : Nat → Node → List HexDigit → List HexDigit → Node → Except TrieError (Bool × Node)
  | 0, _, _, _, _ => .error .endless
  | fuel + 1, n, path, key, leaf =>
    match key with
    | [] =>
      match n, leaf with
      | .value v, .value w => .ok (v != w, leaf)
      | .value _, _ => .error .invalid
      | _, _ => .ok (true, leaf)
    | digit :: rest =>
      match n with
      | .short nkey val _ =>
        let matchlen := prefixLen key nkey
        if matchlen = nkey.length then do
          let (dirty, nn) ← Node.insert db fuel val (path ++ key.take matchlen) (key.drop matchlen) leaf
          return if dirty then (true, .short nkey nn newFlag) else (false, n)
        else
          match nkey.drop matchlen, key.drop matchlen with
          | old :: nrest, new :: krest => do
            let (_, oldChild) ← Node.insert db fuel .empty (path ++ nkey.take (matchlen + 1)) nrest val
            let (_, newChild) ← Node.insert db fuel .empty (path ++ key.take (matchlen + 1)) krest leaf
            let branch := Node.full (Function.update (Function.update (fun _ => .empty) old oldChild) new newChild) newFlag
            return (true, if matchlen = 0 then branch else .short (key.take matchlen) branch newFlag)
          | _, _ => .error .invalid
      | .full children _ => do
        let (dirty, nn) ← Node.insert db fuel (children digit) (path ++ [digit]) rest leaf
        return if dirty then (true, .full (Function.update children digit nn) newFlag) else (false, n)
      | .empty => .ok (true, .short key leaf newFlag)
      | .hash h => do
        let rn ← resolveHash db h path
        let (dirty, nn) ← Node.insert db fuel rn path key leaf
        return if dirty then (true, nn) else (false, rn)
      | .value _ => .error .invalid

/-- The loop over the children that are left: the index of the only one, -1 if there is
none, and -2 if there are two. -/
def remainingChild (children : HexDigit → Node) : List HexDigit → Int → Int
  | [], pos => pos
  | i :: rest, pos =>
    if (children i).isEmpty then remainingChild children rest pos
    else if pos = -1 then remainingChild children rest i.val
    else -2

/-- A full node that a child was taken from. -/
def reduce (db : NodeDb) (children : HexDigit → Node) (path : List HexDigit) : Except TrieError Node :=
  let pos := remainingChild children (List.finRange 17) (-1)
  if 0 ≤ pos then
    let digit := Fin.ofNat 17 pos.toNat
    if pos = 16 then .ok (.short [digit] (children digit) newFlag)
    else do
      match ← resolve db (children digit) path with
      | .short ckey cval _ => return .short (digit :: ckey) cval newFlag
      | _ => return .short [digit] (children digit) newFlag
  else .ok (.full children newFlag)

def Node.delete (db : NodeDb) : Nat → Node → List HexDigit → List HexDigit → Except TrieError (Bool × Node)
  | 0, _, _, _ => .error .endless
  | fuel + 1, n, path, key =>
    match n with
    | .short nkey val _ =>
      let matchlen := prefixLen key nkey
      if matchlen < nkey.length then .ok (false, n)
      else if matchlen = key.length then .ok (true, .empty)
      else do
        let (dirty, child) ← Node.delete db fuel val (path ++ key.take nkey.length) (key.drop nkey.length)
        if dirty then
          match child with
          | .short ckey cval _ => return (true, .short (nkey ++ ckey) cval newFlag)
          | child => return (true, .short nkey child newFlag)
        else return (false, n)
    | .full children _ =>
      match key with
      | [] => .error .invalid
      | digit :: rest => do
        let (dirty, nn) ← Node.delete db fuel (children digit) (path ++ [digit]) rest
        if dirty then
          let children := Function.update children digit nn
          if nn.isEmpty then
            let n ← reduce db children path
            return (true, n)
          else return (true, .full children newFlag)
        else return (false, n)
    | .value _ => .ok (true, .empty)
    | .empty => .ok (false, .empty)
    | .hash h => do
      let rn ← resolveHash db h path
      let (dirty, nn) ← Node.delete db fuel rn path key
      return if dirty then (true, nn) else (false, rn)

end TurboOctopus.Trie

namespace TurboOctopus

/-! ## The trie -/

open Trie

/-- `Trie` with its database. The number of changes since the last hashing only chooses
between one thread and several. -/
structure Trie where
  db : NodeDb
  root : Node

namespace Trie

def tryGet (t : Trie) (key : List UInt8) : Except TrieError (Option (List UInt8) × Trie) := do
  let k := keybytesToHex key
  let (value, newroot, didResolve) ← Node.tryGet t.db (2 * k.length + 2) t.root k 0
  return (value, if didResolve then { t with root := newroot } else t)

def tryDelete (t : Trie) (key : List UInt8) : Except TrieError Trie := do
  let k := keybytesToHex key
  let (_, n) ← Node.delete t.db (2 * k.length + 2) t.root [] k
  return { t with root := n }

def tryUpdate (t : Trie) (key value : List UInt8) : Except TrieError Trie := do
  let k := keybytesToHex key
  if value.length ≠ 0 then
    let (_, n) ← Node.insert t.db (2 * k.length + 2) t.root [] k (.value value)
    return { t with root := n }
  else
    let (_, n) ← Node.delete t.db (2 * k.length + 2) t.root [] k
    return { t with root := n }

end Trie

end TurboOctopus
