import TurboOctopus.Rawdb.Table
/-!
# The freezer

Tables of the same length, one for each kind of data of a block, and the number of the first
block: the offset of the blocks that were pruned before. A map of tables is a list with the
keys of the map; Go goes through it in any order, the list has one. The function that
`ModifyAncients` calls makes some appends, whatever their errors, and then fails or not.
-/
namespace TurboOctopus.Rawdb

open Lib

structure Freezer (κ : Type) where
  frozen : Nat
  offset : Nat
  readonly : Bool
  tables : List (κ × Table)

/-- One call of `AppendRaw`, or of `Append` with this encoding. -/
structure Append (κ : Type) where
  kind : κ
  num : Nat
  blob : List UInt8

/-- What the function given to `ModifyAncients` does. -/
structure WriteOp (κ : Type) where
  appends : List (Append κ)
  fails : Bool

/-- The number before the first, for the tables of an empty map. -/
def maxUint64 : Nat := 2 ^ 64 - 1

/-- `uint64` subtraction. -/
def sub64 (a b : Nat) : Nat := (a + 2 ^ 64 - b) % 2 ^ 64

variable {κ : Type} [DecidableEq κ]

/-! ## Batches of all tables -/

/-- The batches of the tables, and what comes of their writes. -/
abbrev Batches (κ : Type) := List (κ × TableBatch) × List Fault

def newBatches (tables : List (κ × Table)) (offset : Nat) : List (κ × TableBatch) :=
  tables.map fun (kind, t) => (kind, .start t offset)

/-- The append of one table; its error goes to the caller. There is no batch of an unknown
kind, and its use panics. -/
def appendTo (S : Snappy) (a : Append κ) : List (κ × TableBatch) → List Fault → Option (Batches κ)
  | [], _ => none
  | (kind, batch) :: rest, faults =>
    if kind = a.kind then
      let s := stateOf (TableBatch.appendRaw S a.num a.blob (batch, faults))
      some ((kind, s.1) :: rest, s.2)
    else (appendTo S a rest faults).map fun (rest, faults) => ((kind, batch) :: rest, faults)

/-- Whether all appends were made without a panic, and the batches then. -/
def runAppends (S : Snappy) : List (Append κ) → Batches κ → Bool × Batches κ
  | [], s => (true, s)
  | a :: as, s =>
    match appendTo S a s.1 s.2 with
    | none => (false, s)
    | some s => runAppends S as s

/-- The number that all batches are at. -/
def checkItems : Nat → List (κ × TableBatch) → Except Err Nat
  | item, [] => .ok item
  | item, (_, batch) :: rest =>
    if item < maxUint64 ∧ batch.curItem ≠ item then .error (.tableAtItem batch.curItem item)
    else checkItems batch.curItem rest

/-- Commits one table after the other and adds up what was written; an error leaves the rest. -/
def commitTables : List (κ × TableBatch) → List Fault → EStateM.Result Err (Batches κ) Nat
  | [], faults => .ok 0 ([], faults)
  | (kind, batch) :: rest, faults =>
    match TableBatch.commit (batch, faults) with
    | .error e (batch, faults) => .error e ((kind, batch) :: rest, faults)
    | .ok _ (batch, faults) =>
      match commitTables rest faults with
      | .error e (rest, faults) => .error e ((kind, batch) :: rest, faults)
      | .ok size (rest, faults) => .ok (batch.totalBytes + size) ((kind, batch) :: rest, faults)

def tablesOf (batches : List (κ × TableBatch)) : List (κ × Table) := batches.map fun (kind, batch) => (kind, batch.t)

namespace Freezer

/-! ## Writing -/

/-- After a failed write every table is truncated to the number of frozen blocks; an error of
that is logged. -/
def rollback (f : Freezer κ) (batches : List (κ × TableBatch)) : Freezer κ :=
  { f with tables := (tablesOf batches).map fun (kind, t) => (kind, stateOf (Table.truncate f.frozen t)) }

/-- Returns the size of what was written. -/
def modifyAncients (S : Snappy) (fn : WriteOp κ) (faults : List Fault) (f : Freezer κ) :
    EStateM.Result Err (Freezer κ) Nat :=
  if f.readonly then .error .readOnly f
  else
    match runAppends S fn.appends (newBatches f.tables f.offset, faults) with
    -- A panic passes the roll-back, which looks at the error only.
    | (false, batches, _) => .error .panic { f with tables := tablesOf batches }
    | (true, batches, faults) =>
      if fn.fails then .error .caller (f.rollback batches)
      else
        match checkItems maxUint64 batches with
        | .error e => .error e (f.rollback batches)
        | .ok item =>
          match commitTables batches faults with
          | .error e (batches, _) => .error e (f.rollback batches)
          | .ok size (batches, _) => .ok size { f with frozen := item, tables := tablesOf batches }

/-- Truncates one table after the other, up to an error. -/
def truncateTables (items : Nat) : List (κ × Table) → EStateM.Result Err (List (κ × Table)) Unit
  | [] => .ok () []
  | (kind, t) :: rest =>
    match Table.truncate items t with
    | .error e t => .error e ((kind, t) :: rest)
    | .ok _ t =>
      match truncateTables items rest with
      | .error e rest => .error e ((kind, t) :: rest)
      | .ok _ rest => .ok () ((kind, t) :: rest)

def truncateAncients (items : Nat) (f : Freezer κ) : EStateM.Result Err (Freezer κ) Unit :=
  if f.readonly then .error .readOnly f
  else if f.frozen ≤ items then .ok () f
  else
    match truncateTables (sub64 items f.offset) f.tables with
    | .error e tables => .error e { f with tables := tables }
    | .ok _ tables => .ok () { f with frozen := items, tables := tables }

/-! ## Opening -/

/-- What is on disk of a closed freezer: of each table the files, and whether it is
compressed. -/
abbrev Files (κ : Type) := List (κ × Disk × Bool)

def openTables (maxTableSize : Nat) : Files κ → Except Err (List (κ × Table))
  | [] => .ok []
  | (kind, disk, disableSnappy) :: rest => do
    let t ← Table.newTable disk maxTableSize disableSnappy
    let rest ← openTables maxTableSize rest
    .ok ((kind, t) :: rest)

/-- The length that all tables are truncated to. -/
def minItems (tables : List (κ × Table)) : Nat :=
  tables.foldl (fun min e => if e.2.items < min then e.2.items else min) maxUint64

/-- `newFreezer`, for writing. -/
def newFreezer (offset maxTableSize : Nat) (files : Files κ) : Except Err (Freezer κ) := do
  let tables ← openTables maxTableSize files
  match truncateTables (minItems tables) tables with
  | .error e _ => .error e
  | .ok _ tables' => .ok ⟨(minItems tables + offset) % 2 ^ 64, offset, false, tables'⟩

/-- `Close`: what stays on disk. -/
def close (f : Freezer κ) : Files κ := f.tables.map fun (kind, t) => (kind, t.disk, t.noCompression)

/-! ## Reading -/

def hasAncient (f : Freezer κ) (kind : κ) (number : Nat) : Bool :=
  match f.tables.lookup kind with
  | some t => t.has (sub64 number f.offset)
  | none => false

def ancient (S : Snappy) (f : Freezer κ) (kind : κ) (number : Nat) : Except Err (List UInt8) :=
  match f.tables.lookup kind with
  | some t => t.retrieve S (sub64 number f.offset)
  | none => .error .unknownTable

/-- The start is not made relative to the offset. -/
def ancientRange (S : Snappy) (f : Freezer κ) (kind : κ) (start count maxBytes : Nat) : Except Err (List (List UInt8)) :=
  match f.tables.lookup kind with
  | some t => t.retrieveItems S start count maxBytes
  | none => .error .unknownTable

def ancients (f : Freezer κ) : Nat := f.frozen

def itemAmountInAncient (f : Freezer κ) : Nat := sub64 f.frozen f.offset

def ancientOffSet (f : Freezer κ) : Nat := f.offset

end Freezer

end TurboOctopus.Rawdb
