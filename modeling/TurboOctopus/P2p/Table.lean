import Mathlib.Data.Nat.Size
import TurboOctopus.P2p.NetSet
/-!
# The node table of the discovery protocol

Every bucket has a list of entries and a list of replacements, and the table
counts addresses by subnet, once for itself and once for each bucket. The counters
are adjusted apart from the lists.
-/

namespace TurboOctopus.Discover

open Lib Netutil

abbrev ID := BitVec 256

structure Node where
  id : ID
  ip : IP
  deriving DecidableEq

def bucketSize : Nat := 16
def maxReplacements : Nat := 10
def hashBits : Nat := 256
def nBuckets : Nat := hashBits / 15
def bucketMinDistance : Nat := hashBits - nBuckets
def bucketIPLimit : Nat := 2
def bucketSubnet : Nat := 24
def tableIPLimit : Nat := 10
def tableSubnet : Nat := 24

/-- The number of bits left after the leading ones on which two ids agree. -/
def logDist (a b : ID) : Fin (hashBits + 1) :=
  ⟨(a ^^^ b).toNat.size, Nat.lt_succ_of_le (Nat.size_le.2 (a ^^^ b).isLt)⟩

def bucketAtDistance (d : Fin (hashBits + 1)) : Fin nBuckets :=
  if h : d.val ≤ bucketMinDistance then ⟨0, by decide⟩
  else ⟨d.val - bucketMinDistance - 1, by
    have hd := d.isLt
    simp only [nBuckets, bucketMinDistance, hashBits] at *
    omega⟩

structure Bucket where
  entries : List Node
  replacements : List Node
  deriving DecidableEq

/-- The counters: `tab.ips`, and `b.ips` of each bucket. -/
structure Counters where
  table : DistinctNetSet tableSubnet tableIPLimit
  bucket : Fin nBuckets → DistinctNetSet bucketSubnet bucketIPLimit

structure Table where
  self : ID
  initDone : Bool
  buckets : Fin nBuckets → Bucket
  ips : Counters

def newTable (self : ID) : Table := ⟨self, false, fun _ => ⟨[], []⟩, ⟨.empty, fun _ => .empty⟩⟩

def Counters.addIP (c : Counters) (i : Fin nBuckets) (ip : IP) : Counters × Bool :=
  if ip = [] then (c, false) -- nodes without an address cannot be added
  else if isLAN ip then (c, true)
  else
    match c.table.add ip with
    | none => (c, false)
    | some table =>
      match (c.bucket i).add ip with
      | none => ({ c with table := table.remove ip }, false)
      | some b => (⟨table, Function.update c.bucket i b⟩, true)

def Counters.removeIP (c : Counters) (i : Fin nBuckets) (ip : IP) : Counters :=
  if isLAN ip then c else ⟨c.table.remove ip, Function.update c.bucket i ((c.bucket i).remove ip)⟩

def containsID (ns : List Node) (id : ID) : Bool := ns.any fun n => n.id = id

/-- Add to the front, keeping at most `max` nodes; the second part is the one pushed out. -/
def pushNode (list : List Node) (n : Node) (max : Nat) : List Node × Option Node :=
  if list.length < max then (n :: list, none) else (n :: list.dropLast, list.getLast?)

def deleteNode (list : List Node) (n : Node) : List Node := list.eraseP fun m => m.id = n.id

namespace Table

def bucket (t : Table) (id : ID) : Fin nBuckets := bucketAtDistance (logDist t.self id)

def setBucket (t : Table) (i : Fin nBuckets) (b : Bucket) (c : Counters) : Table :=
  { t with buckets := Function.update t.buckets i b, ips := c }

def addReplacement (t : Table) (i : Fin nBuckets) (n : Node) : Table :=
  let b := t.buckets i
  if containsID b.replacements n.id then t
  else
    let added := t.ips.addIP i n.ip
    if added.2 then
      let pushed := pushNode b.replacements n maxReplacements
      let c := match pushed.2 with
        | none => added.1
        | some removed => added.1.removeIP i removed.ip
      t.setBucket i { b with replacements := pushed.1 } c
    else { t with ips := added.1 }

/-- The common end of the two ways to add a node: as a replacement if the bucket
is full, otherwise as an entry, where `place` puts it. -/
def addTo (t : Table) (i : Fin nBuckets) (n : Node) (place : List Node → List Node) : Table :=
  let b := t.buckets i
  if bucketSize ≤ b.entries.length then t.addReplacement i n
  else
    let added := t.ips.addIP i n.ip
    if added.2 then t.setBucket i ⟨place b.entries, deleteNode b.replacements n⟩ added.1
    else { t with ips := added.1 }

def addSeenNode (t : Table) (n : Node) : Table :=
  if n.id = t.self then t
  else
    let i := t.bucket n.id
    if containsID (t.buckets i).entries n.id then t
    else t.addTo i n fun entries => entries ++ [n]

def bumpInBucket (t : Table) (i : Fin nBuckets) (n : Node) : Table × Bool :=
  let b := t.buckets i
  match b.entries.find? fun e => e.id = n.id with
  | none => (t, false)
  | some e =>
    let front : Bucket := { b with entries := n :: deleteNode b.entries n }
    if equal n.ip e.ip then (t.setBucket i front t.ips, true)
    else
      let added := (t.ips.removeIP i e.ip).addIP i n.ip
      if added.2 then (t.setBucket i front added.1, true)
      else ({ t with ips := (added.1.addIP i e.ip).1 }, false)

def addVerifiedNode (t : Table) (n : Node) : Table :=
  if !t.initDone then t
  else if n.id = t.self then t
  else
    let i := t.bucket n.id
    let bumped := t.bumpInBucket i n
    if bumped.2 then bumped.1
    else bumped.1.addTo i n fun entries => (pushNode entries n bucketSize).1

def deleteInBucket (t : Table) (i : Fin nBuckets) (n : Node) : Table :=
  let b := t.buckets i
  t.setBucket i { b with entries := deleteNode b.entries n } (t.ips.removeIP i n.ip)

def delete (t : Table) (n : Node) : Table := t.deleteInBucket (t.bucket n.id) n

/-- `k` is the number drawn for the replacement to take. -/
def replace (t : Table) (i : Fin nBuckets) (last : Node) (k : Nat) : Table :=
  let b := t.buckets i
  match b.entries.getLast? with
  | none => t
  | some e =>
    if e.id = last.id then
      match b.replacements[k % b.replacements.length]? with
      | none => t.deleteInBucket i last
      | some r =>
        t.setBucket i ⟨b.entries.dropLast ++ [r], deleteNode b.replacements r⟩ (t.ips.removeIP i last.ip)
    else t

end Table

inductive Call
  | initDone
  | addSeenNode (n : Node)
  | addVerifiedNode (n : Node)
  | delete (n : Node)
  | replace (i : Fin nBuckets) (last : Node) (k : Nat)

def Table.call (t : Table) : Call → Table
  | .initDone => { t with initDone := true }
  | .addSeenNode n => t.addSeenNode n
  | .addVerifiedNode n => t.addVerifiedNode n
  | .delete n => t.delete n
  | .replace i last k => t.replace i last k

end TurboOctopus.Discover
