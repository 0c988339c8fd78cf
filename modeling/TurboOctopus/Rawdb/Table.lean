import TurboOctopus.Lib.Fallible
import TurboOctopus.Lib.BigEndian
/-!
# Freezer tables

A table of the freezer is an index file with one entry for each item, which says in which
data file the item ends and where, and the data files. The first entry counts the items
that were removed at the tail instead. A file is its bytes: every write goes to the end,
since the code seeks there whenever it opens or truncates a file. A table is opened for
writing, the operating system opens, truncates and reads what it is asked to, and only
writes can fail, in any place (`freezerTableBatch.commit`). Sizes are not bounded by the
machine, except where a slice is made.
-/
namespace TurboOctopus.Rawdb

open Lib

inductive Err where
  | outOfBounds
  | unknownTable
  | readOnly
  | outOrderInsertion (have_ want : Nat)
  | tableAtItem (have_ want : Nat)
  | eof
  | io
  | missingDataFile (id : Nat)
  | corrupt
  | panic
  /-- The error of the function that the caller passed. -/
  | caller
  deriving DecidableEq

/-! ## Files -/

/-- `File.ReadAt`: the error at the end of the file is `none`. -/
def readAt (file : List UInt8) (off len : Nat) : Option (List UInt8) :=
  if len = 0 ∨ off + len ≤ file.length then some ((file.drop off).take len) else none

/-- `File.Truncate`, which fills a longer file with zeros. -/
def resize (file : List UInt8) (size : Nat) : List UInt8 := file.take size ++ List.replicate (size - file.length) 0

/-- What comes of the next `File.Write`: all is written, or only so many bytes. -/
abbrev Fault := Option Nat

/-- The file after the write, whether the write succeeded, and what comes of later ones.
Without any more faults, writes succeed. -/
def write (file buf : List UInt8) : List Fault → List UInt8 × Bool × List Fault
  | [] => (file ++ buf, true, [])
  | none :: faults => (file ++ buf, true, faults)
  | some k :: faults => (file ++ buf.take k, false, faults)

/-- The longest slice that Go makes; for a longer one it panics. -/
def maxAlloc : Nat := 2 ^ 48

/-! ## Index entries -/

structure IndexEntry where
  filenum : Nat
  offset : Nat
  deriving DecidableEq

def indexEntrySize : Nat := 6

def IndexEntry.unmarshalBinary (b : List UInt8) : IndexEntry := ⟨beNat (b.take 2), beNat ((b.drop 2).take 4)⟩

/-- The file number is cut to 16 bits. -/
def IndexEntry.bytes (i : IndexEntry) : List UInt8 := fixedBytes 2 i.filenum ++ fixedBytes 4 i.offset

def IndexEntry.append (i : IndexEntry) (b : List UInt8) : List UInt8 := b ++ i.bytes

/-- Start, end and file of the item between two entries. -/
def IndexEntry.bounds (start stop : IndexEntry) : Nat × Nat × Nat :=
  if start.filenum ≠ stop.filenum then (0, stop.offset, stop.filenum) else (start.offset, stop.offset, stop.filenum)

/-! ## Tables -/

/-- What of a table is on disk. -/
structure Disk where
  index : List UInt8
  data : Nat → Option (List UInt8)

/-- `files` are the data files that are open; the head is the open file `headId`. -/
structure Table where
  disk : Disk
  noCompression : Bool
  maxFileSize : Nat
  items : Nat
  itemOffset : Nat
  headId : Nat
  tailId : Nat
  headBytes : Nat
  files : Nat → Bool

namespace Table

def head (t : Table) : List UInt8 := (t.disk.data t.headId).getD []

def setIndex (t : Table) (index : List UInt8) : Table := { t with disk := { t.disk with index := index } }

def setData (t : Table) (id : Nat) (data : Option (List UInt8)) : Table :=
  { t with disk := { t.disk with data := Function.update t.disk.data id data } }

/-- `openFile` for appending, which creates the file. -/
def openForAppend (t : Table) (id : Nat) : Table :=
  { t.setData id (some ((t.disk.data id).getD [])) with files := Function.update t.files id true }

/-- Deletes the open files above `id`. -/
def removeFilesAfter (t : Table) (id : Nat) : Table :=
  { t with
    disk := { t.disk with data := fun n => if id < n ∧ t.files n = true then none else t.disk.data n }
    files := fun n => t.files n && decide (n ≤ id) }

/-- A missing next file is made, one that is there starts over. -/
def advanceHead (t : Table) : Table :=
  let nextID := t.headId + 1
  let t := if t.files nextID then t else t.setData nextID (some [])
  { t with files := Function.update t.files nextID true, headBytes := 0, headId := nextID }

/-- The head becomes the file of the last entry that stays, and ends where that says. -/
def truncateTo (t : Table) (items : Nat) (expected : IndexEntry) : Table :=
  let t :=
    if expected.filenum ≠ t.headId then
      { (t.openForAppend expected.filenum).removeFilesAfter expected.filenum with headId := expected.filenum }
    else t
  { t.setData t.headId (some (resize t.head expected.offset)) with headBytes := expected.offset, items := items }

def truncate (items : Nat) : EStateM Err Table Unit := fun t =>
  if t.items ≤ items then .ok () t
  else
    let t := t.setIndex (resize t.disk.index ((items + 1) * indexEntrySize))
    match readAt t.disk.index (items * indexEntrySize) indexEntrySize with
    | none => .error .eof t
    | some buffer => .ok () (t.truncateTo items (.unmarshalBinary buffer))

/-! ## Opening -/

/-- The last entry of an index of `n` entries. Reading in front of the file fails, which is
not checked, and leaves the buffer. -/
def entryBefore (index : List UInt8) (buffer : IndexEntry) : Nat → IndexEntry
  | 0 => buffer
  | n + 1 => ((readAt index (n * indexEntrySize) indexEntrySize).map IndexEntry.unmarshalBinary).getD buffer

/-- The loop of `repair`, for an index of `n` entries with `last` at its end and a head of
`contentSize` bytes. It returns how many entries stay, the last of them and the size of the
head. -/
def repairLoop (n : Nat) (last : IndexEntry) (contentSize : Nat) (t : Table) :
    EStateM.Result Err Table (Nat × IndexEntry × Nat) :=
  if last.offset < contentSize then
    .ok (n, last, last.offset) (t.setData last.filenum (some (resize ((t.disk.data last.filenum).getD []) last.offset)))
  else if contentSize < last.offset then
    match n with
    | 0 => .error .io t
    | n + 1 =>
      let t := t.setIndex (resize t.disk.index (n * indexEntrySize))
      let newLast := entryBefore t.disk.index last n
      if newLast.filenum ≠ last.filenum then
        let t := t.openForAppend newLast.filenum
        repairLoop n newLast ((t.disk.data newLast.filenum).getD []).length t
      else repairLoop n newLast contentSize t
  else .ok (n, last, contentSize) t

/-- Opens every file up to the head; a missing one is an error. -/
def preopen : EStateM Err Table Unit := fun t =>
  if (List.range t.headId).all (fun n => decide (n < t.tailId) || (t.disk.data n).isSome) then
    .ok () { t.openForAppend t.headId with files := fun n => decide (t.tailId ≤ n ∧ n ≤ t.headId) }
  else .error .io t

/-- The index that `repair` works on: a new one gets its first entry, and a torn entry at
the end is cut off. -/
def wholeIndex (index : List UInt8) : List UInt8 :=
  if index.length = 0 then (⟨0, 0⟩ : IndexEntry).bytes
  else resize index (index.length - index.length % indexEntrySize)

def repair (t : Table) : EStateM.Result Err Table Unit :=
  let index := wholeIndex t.disk.index
  let n := index.length / indexEntrySize
  let firstIndex := ((readAt index 0 indexEntrySize).map IndexEntry.unmarshalBinary).getD ⟨0, 0⟩
  let lastIndex := entryBefore index firstIndex n
  let t := { (t.setIndex index).openForAppend lastIndex.filenum with
    tailId := firstIndex.filenum, itemOffset := firstIndex.offset }
  match repairLoop n lastIndex ((t.disk.data lastIndex.filenum).getD []).length t with
  | .error e t => .error e t
  | .ok (n, last, contentSize) t =>
    -- With no entry left the count is one below zero.
    preopen { t with
      items := (t.itemOffset + (n + 2 ^ 64 - 1)) % 2 ^ 64, headBytes := contentSize, headId := last.filenum }

/-- `newTable`. -/
def newTable (disk : Disk) (maxFileSize : Nat) (noCompression : Bool) : Except Err Table :=
  match repair ⟨disk, noCompression, maxFileSize, 0, 0, 0, 0, 0, fun _ => false⟩ with
  | .ok _ t => .ok t
  | .error e _ => .error e

end Table

/-! ## Reading -/

/-- Compression of blocks of bytes. -/
structure Snappy where
  encode : List UInt8 → List UInt8
  decode : List UInt8 → Option (List UInt8)
  /-- The length of what a block was, which its header says. -/
  decodedLen : List UInt8 → Nat
  decode_encode : ∀ b, decode (encode b) = some b
  decodedLen_encode : ∀ b, decodedLen (encode b) = b.length

namespace Table

def getIndices (t : Table) (start count : Nat) : Except Err (List IndexEntry) := do
  let start := (start + 2 ^ 64 - t.itemOffset) % 2 ^ 64
  let size := (count + 1) * indexEntrySize % 2 ^ 64
  failIf (maxAlloc < size) .panic
  match readAt t.disk.index (start * indexEntrySize) size with
  | none => .error .eof
  | some buffer =>
    -- The loop runs up to an end that can wrap around.
    let indices := (List.range (if start + count < 2 ^ 64 then count + 1 else 0)).map fun i =>
      IndexEntry.unmarshalBinary (buffer.drop (i * indexEntrySize))
    if start = 0 then
      match indices with
      | _ :: second :: rest => .ok (⟨second.filenum, 0⟩ :: second :: rest)
      | _ => .error .panic
    else .ok indices

/-- The buffer that data is read into: its length, and the part that is used. -/
structure Buffer where
  len : Nat
  used : List UInt8

/-- `readData`: a buffer that is too short for the item is made anew. -/
def readData (t : Table) (id start length : Nat) (output : Buffer) : Except Err Buffer := do
  let output := if output.len < length then ⟨length, List.replicate output.used.length 0⟩ else output
  failIf (¬ t.files id) (.missingDataFile id)
  failIf (output.len < output.used.length + length) .panic
  match readAt ((t.disk.data id).getD []) start length with
  | none => .error .eof
  | some data => .ok { output with used := output.used ++ data }

/-- Reads what waits, if anything does. -/
def readUnread (t : Table) (id start unreadSize : Nat) (output : Buffer) : Except Err Buffer :=
  if 0 < unreadSize then t.readData id start unreadSize output else .ok output

/-- What waits in the file of `first` is read before an item of another file. -/
def readCrossing (t : Table) (first second : IndexEntry) (readStart unreadSize : Nat) (output : Buffer) :
    Except Err Buffer :=
  if second.filenum ≠ first.filenum then t.readUnread first.filenum readStart unreadSize output else .ok output

/-- The loop of `retrieveItems`, at the entry `first` with those behind it: `sizes` so far,
and `unreadSize` bytes from `readStart` on that are still to be read. -/
def retrieveLoop (t : Table) (maxBytes : Nat) (isFirst : Bool) (first : IndexEntry) :
    List IndexEntry → List Nat → Nat → Nat → Buffer → Except Err (Buffer × List Nat)
  | [], sizes, _, _, output => .ok (output, sizes)
  | second :: rest, sizes, readStart, unreadSize, output => do
    let (offset1, offset2, _) := first.bounds second
    let size := (offset2 + 2 ^ 32 - offset1) % 2 ^ 32
    let output ← t.readCrossing first second readStart unreadSize output
    let unreadSize := if second.filenum ≠ first.filenum then 0 else unreadSize
    let readStart := if second.filenum ≠ first.filenum then 0 else readStart
    if isFirst = false ∧ maxBytes < sizes.sum + size then
      let output ← t.readUnread second.filenum readStart unreadSize output
      .ok (output, sizes)
    else if rest = [] ∨ maxBytes < sizes.sum + size then
      let output ← t.readData second.filenum readStart (unreadSize + size) output
      .ok (output, sizes ++ [size])
    else retrieveLoop t maxBytes false second rest (sizes ++ [size]) readStart (unreadSize + size) output

/-- `retrieveItems`. -/
def retrieveRaw (t : Table) (start count maxBytes : Nat) : Except Err (List UInt8 × List Nat) := do
  failIf (t.items ≤ start ∨ start < t.itemOffset ∨ count = 0) .outOfBounds
  let count := if t.items < (start + count) % 2 ^ 64 then t.items - start else count
  failIf (maxAlloc < maxBytes) .panic
  match ← t.getIndices start count with
  | [] => .error .panic
  | first :: rest =>
    let (output, sizes) ← t.retrieveLoop maxBytes true first rest [] first.offset 0 ⟨maxBytes, []⟩
    .ok (output.used, sizes)

def decodeItem (S : Snappy) (t : Table) (item : List UInt8) : Except Err (List UInt8) :=
  if t.noCompression then .ok item
  else
    match S.decode item with
    | none => .error .corrupt
    | some data => .ok data

/-- The loop of `RetrieveItems`: what is read is cut into items. -/
def sliceItems (S : Snappy) (t : Table) (maxBytes : Nat) :
    List Nat → List UInt8 → List (List UInt8) → Nat → Except Err (List (List UInt8))
  | [], _, output, _ => .ok output
  | diskSize :: sizes, diskData, output, outputSize =>
    let item := diskData.take diskSize
    let decompressedSize := if t.noCompression then diskSize else S.decodedLen item
    if output ≠ [] ∧ maxBytes < outputSize + decompressedSize then .ok output
    else do
      let data ← t.decodeItem S item
      sliceItems S t maxBytes sizes (diskData.drop diskSize) (output ++ [data]) (outputSize + decompressedSize)

/-- The size of a slice header. -/
def sliceHeaderSize : Nat := 24

/-- `RetrieveItems`. -/
def retrieveItems (S : Snappy) (t : Table) (start count maxBytes : Nat) : Except Err (List (List UInt8)) := do
  let (diskData, sizes) ← t.retrieveRaw start count maxBytes
  failIf (maxAlloc < count * sliceHeaderSize) .panic
  t.sliceItems S maxBytes sizes diskData [] 0

def retrieve (S : Snappy) (t : Table) (item : Nat) : Except Err (List UInt8) := do
  match ← t.retrieveItems S item 1 0 with
  | [] => .error .panic
  | data :: _ => .ok data

def has (t : Table) (number : Nat) : Bool := decide (number < t.items)

end Table

/-! ## Batches -/

def freezerBatchBufferLimit : Nat := 2 * 1024 * 1024

/-- `freezerTableBatch`, with its table. -/
structure TableBatch where
  t : Table
  dataBuffer : List UInt8
  indexBuffer : List UInt8
  curItem : Nat
  totalBytes : Nat
  offset : Nat

namespace TableBatch

/-- `newBatch` and `reset`. -/
def start (t : Table) (offset : Nat) : TableBatch := ⟨t, [], [], t.items + offset, 0, offset⟩

/-- What a batch of a table works on: itself, and what comes of its writes. -/
abbrev M := EStateM Err (TableBatch × List Fault)

def commit : M Unit := fun (batch, faults) =>
  match write batch.t.head batch.dataBuffer faults with
  | (data, false, faults) =>
    .error .io ({ batch with t := batch.t.setData batch.t.headId (some data) }, faults)
  | (data, true, faults) =>
    let dataSize := batch.dataBuffer.length
    let batch := { batch with t := batch.t.setData batch.t.headId (some data), dataBuffer := [] }
    match write batch.t.disk.index batch.indexBuffer faults with
    | (index, false, faults) => .error .io ({ batch with t := batch.t.setIndex index }, faults)
    | (index, true, faults) =>
      .ok () ({ batch with
        t := { batch.t.setIndex index with
          headBytes := batch.t.headBytes + dataSize, items := batch.curItem - batch.offset }
        indexBuffer := [] }, faults)

def maybeCommit : M Unit := fun (batch, faults) =>
  if freezerBatchBufferLimit < batch.dataBuffer.length then commit (batch, faults) else .ok () (batch, faults)

/-- Goes to the next file if the item does not fit into this one. Returns where the item
will start. -/
def makeRoom (itemSize : Nat) : M Nat := fun (batch, faults) =>
  let itemOffset := batch.t.headBytes + batch.dataBuffer.length
  if batch.t.maxFileSize < itemOffset + itemSize then
    match commit (batch, faults) with
    | .error e s => .error e s
    | .ok _ (batch, faults) => .ok 0 ({ batch with t := batch.t.advanceHead }, faults)
  else .ok itemOffset (batch, faults)

/-- Puts the item into the buffers. The offset is cut to 32 bits. -/
def buffered (batch : TableBatch) (data : List UInt8) (stop : Nat) : TableBatch :=
  { batch with
    dataBuffer := batch.dataBuffer ++ data
    totalBytes := batch.totalBytes + data.length
    indexBuffer := (⟨batch.t.headId, stop % 2 ^ 32⟩ : IndexEntry).append batch.indexBuffer
    curItem := batch.curItem + 1 }

def appendItem (data : List UInt8) : M Unit := do
  let itemOffset ← makeRoom data.length
  modify fun (batch, faults) => (batch.buffered data (itemOffset + data.length), faults)
  maybeCommit

/-- `AppendRaw`, and `Append` of what has this encoding. -/
def appendRaw (S : Snappy) (item : Nat) (blob : List UInt8) : M Unit := fun (batch, faults) =>
  if item ≠ batch.curItem then .error (.outOrderInsertion item batch.curItem) (batch, faults)
  else appendItem (if batch.t.noCompression then blob else S.encode blob) (batch, faults)

end TableBatch

end TurboOctopus.Rawdb
