import TurboOctopus.State.Object
import TurboOctopus.Lib.UndoLog
import TurboOctopus.Types.Block
import Mathlib.Data.Finset.Insert
/-!
# The state of a block in execution

`StateDB` with its journal: every write appends an entry that undoes it, and
`RevertToSnapshot` undoes the entries since the snapshot, the last one first. An undo that
panics is `none`.
-/
namespace TurboOctopus.State

open TurboOctopus.Types

/-! ## Access lists -/

/-- The index of the slots of an address, -1 if it has none. -/
structure AccessList where
  addresses : Address → Option Int
  slots : List (Finset Hash)

namespace AccessList

def new : AccessList := ⟨fun _ => none, []⟩

def containsAddress (l : AccessList) (address : Address) : Bool := (l.addresses address).isSome

def contains (l : AccessList) (address : Address) (slot : Hash) : Bool × Bool :=
  match l.addresses address with
  | none => (false, false)
  | some idx =>
    if idx = -1 then (true, false) else (true, decide (slot ∈ l.slots.getD idx.toNat ∅))

def addAddress (l : AccessList) (address : Address) : Bool × AccessList :=
  match l.addresses address with
  | some _ => (false, l)
  | none => (true, { l with addresses := Function.update l.addresses address (some (-1)) })

/-- A new map of slots for an address without one. -/
def newSlots (l : AccessList) (address : Address) (slot : Hash) : AccessList where
  addresses := Function.update l.addresses address (some l.slots.length)
  slots := l.slots ++ [{slot}]

/-- Whether the address, and the slot, are new. -/
def addSlot (l : AccessList) (address : Address) (slot : Hash) : (Bool × Bool) × AccessList :=
  match l.addresses address with
  | none => ((true, true), l.newSlots address slot)
  | some idx =>
    if idx = -1 then ((false, true), l.newSlots address slot)
    else if slot ∈ l.slots.getD idx.toNat ∅ then ((false, false), l)
    else ((false, true), { l with slots := l.slots.modify idx.toNat (insert slot ·) })

/-- The last slot of an address takes the slots after it away. -/
def deleteSlot (l : AccessList) (address : Address) (slot : Hash) : Option AccessList :=
  match l.addresses address with
  | none => none
  | some idx =>
    if 0 ≤ idx ∧ idx.toNat < l.slots.length then
      let slotmap := (l.slots.getD idx.toNat ∅).erase slot
      if slotmap = ∅ then
        some ⟨Function.update l.addresses address (some (-1)), l.slots.take idx.toNat⟩
      else some { l with slots := l.slots.set idx.toNat slotmap }
    else none

def deleteAddress (l : AccessList) (address : Address) : AccessList :=
  { l with addresses := Function.update l.addresses address none }

end AccessList

/-! ## The journal -/

inductive JournalEntry
  | createObject (account : Address)
  | resetObject (account : Address) (prev : StateObject) (prevdestruct : Bool)
  | suicide (account : Address) (prev : Bool) (prevbalance : Int)
  | balance (account : Address) (prev : Int)
  | nonce (account : Address) (prev : UInt64)
  | storage (account : Address) (key prevalue : Hash)
  | code (account : Address) (prevcode : Option (List UInt8)) (prevhash : Hash)
  | refund (prev : UInt64)
  | addLog (txhash : Hash)
  | addPreimage (hash : Hash)
  | touch (account : Address)
  | accessListAddAccount (address : Address)
  | accessListAddSlot (address : Address) (slot : Hash)

def JournalEntry.dirtied : JournalEntry → Option Address
  | createObject account => some account
  | resetObject _ _ _ => none
  | suicide account _ _ => some account
  | balance account _ => some account
  | nonce account _ => some account
  | storage account _ _ => some account
  | code account _ _ => some account
  | refund _ => none
  | addLog _ => none
  | addPreimage _ => none
  | touch account => some account
  | accessListAddAccount _ => none
  | accessListAddSlot _ _ => none

/-- An account that is not in `dirties` counts 0. -/
structure Journal where
  entries : List JournalEntry
  dirties : Address → Int

def Journal.count (dirties : Address → Int) (change : Int) : Option Address → Address → Int
  | none => dirties
  | some addr => Function.update dirties addr (dirties addr + change)

def Journal.append (j : Journal) (e : JournalEntry) : Journal := ⟨j.entries ++ [e], count j.dirties 1 e.dirtied⟩

structure Revision where
  id : Nat
  journalIndex : Nat

structure StateDB where
  snapDestructs : Address → Bool
  stateObjects : Address → Option StateObject
  stateObjectsDirty : Address → Bool
  /-- The maps of the storage pool. -/
  shared : Address → Storage
  refund : UInt64
  thash : Hash
  txIndex : Nat
  logs : Hash → List Log
  logSize : Nat
  preimages : Hash → Option (List UInt8)
  accessList : Option AccessList
  journal : Journal
  validRevisions : List Revision
  nextRevisionId : Nat

inductive Panic
  | refundBelowZero
  | unknownRevision
  /-- While a journal entry was reverted. -/
  | revert
deriving DecidableEq

/-- The address 3. -/
def ripemd : Address := 3

/-! ## Objects -/

namespace StateDB

variable (b : Backend)

def append (s : StateDB) (e : JournalEntry) : StateDB := { s with journal := s.journal.append e }

def setStateObject (s : StateDB) (addr : Address) (o : StateObject) : StateDB :=
  { s with stateObjects := Function.update s.stateObjects addr (some o) }

/-- What is below the live objects: the snapshot layer, and the trie if it does not answer. -/
def readAccount (addr : Address) : Option StateAccount :=
  match b.snap with
  | none => b.trieAccount addr
  | some snap =>
    match snap.account addr with
    | some acc => acc
    | none => b.trieAccount addr

def getDeletedStateObject (s : StateDB) (addr : Address) : Option StateObject × StateDB :=
  match s.stateObjects addr with
  | some o => (some o, s)
  | none =>
    match readAccount b addr with
    | none => (none, s)
    | some data => (some (newObject data), s.setStateObject addr (newObject data))

def getStateObject (s : StateDB) (addr : Address) : Option StateObject × StateDB :=
  match s.getDeletedStateObject b addr with
  | (some o, s) => (if o.deleted then none else some o, s)
  | (none, s) => (none, s)

/-- The new object, and the one it replaces unless that was deleted. -/
def createObject (s : StateDB) (addr : Address) : StateObject × Option StateObject × StateDB :=
  let newobj := newObject b.freshAccount
  match s.getDeletedStateObject b addr with
  | (none, s) => (newobj, none, (s.append (.createObject addr)).setStateObject addr newobj)
  | (some prev, s) =>
    let prevdestruct := b.snap.isSome && s.snapDestructs addr
    let s := if b.snap.isSome then { s with snapDestructs := Function.update s.snapDestructs addr true } else s
    let s := (s.append (.resetObject addr prev prevdestruct)).setStateObject addr newobj
    (newobj, if prev.deleted then none else some prev, s)

def getOrNewStateObject (s : StateDB) (addr : Address) : StateObject × StateDB :=
  match s.getStateObject b addr with
  | (some o, s) => (o, s)
  | (none, s) =>
    let (newobj, _, s) := s.createObject b addr
    (newobj, s)

def createAccount (s : StateDB) (addr : Address) : StateDB :=
  let (newobj, prev, s) := s.createObject b addr
  match prev with
  | some prev => s.setStateObject addr (newobj.setBalance prev.data.balance)
  | none => s

/-! ## Reading -/

def exist (s : StateDB) (addr : Address) : Bool := (s.getStateObject b addr).1.isSome

def empty (s : StateDB) (addr : Address) : Bool := ((s.getStateObject b addr).1.map (·.empty b)).getD true

def getBalance (s : StateDB) (addr : Address) : Int := ((s.getStateObject b addr).1.map (·.data.balance)).getD 0

def getNonce (s : StateDB) (addr : Address) : UInt64 := ((s.getStateObject b addr).1.map (·.data.nonce)).getD 0

def getCodeHash (s : StateDB) (addr : Address) : Hash := ((s.getStateObject b addr).1.map (·.data.codeHash)).getD 0

def hasSuicided (s : StateDB) (addr : Address) : Bool := ((s.getStateObject b addr).1.map (·.suicided)).getD false

/-- With the code that was loaded. -/
def getCode (s : StateDB) (addr : Address) : Option (List UInt8) × StateDB :=
  match s.getStateObject b addr with
  | (none, s) => (none, s)
  | (some o, s) =>
    let (code, o) := o.getCode b addr
    (code, s.setStateObject addr o)

/-- A read of a slot of a live object, with what it cached. -/
def readSlot (s : StateDB) (addr : Address) (r : Hash × StateObject × Storage) : Hash × StateDB :=
  (r.1, { s.setStateObject addr r.2.1 with shared := Function.update s.shared addr r.2.2 })

def getState (s : StateDB) (addr : Address) (key : Hash) : Hash × StateDB :=
  match s.getStateObject b addr with
  | (none, s) => (0, s)
  | (some o, s) => s.readSlot addr (o.getState b addr (s.snapDestructs addr) (s.shared addr) key)

def getCommittedState (s : StateDB) (addr : Address) (key : Hash) : Hash × StateDB :=
  match s.getStateObject b addr with
  | (none, s) => (0, s)
  | (some o, s) => s.readSlot addr (o.getCommittedState b addr (s.snapDestructs addr) (s.shared addr) key)

def addressInAccessList (s : StateDB) (addr : Address) : Bool :=
  match s.accessList with
  | none => false
  | some l => l.containsAddress addr

def slotInAccessList (s : StateDB) (addr : Address) (slot : Hash) : Bool × Bool :=
  match s.accessList with
  | none => (false, false)
  | some l => l.contains addr slot

/-! ## Writing -/

def objectSetBalance (s : StateDB) (addr : Address) (o : StateObject) (amount : Int) : StateDB :=
  (s.append (.balance addr o.data.balance)).setStateObject addr (o.setBalance amount)

/-- The precompile at address 3 stays dirty when the touch is reverted. -/
def touch (s : StateDB) (addr : Address) : StateDB :=
  let s := s.append (.touch addr)
  if addr = ripemd then { s with journal := { s.journal with dirties := Journal.count s.journal.dirties 1 (some addr) } }
  else s

def addBalance (s : StateDB) (addr : Address) (amount : Int) : StateDB :=
  let (o, s) := s.getOrNewStateObject b addr
  if amount = 0 then
    if o.empty b then s.touch addr else s
  else s.objectSetBalance addr o (o.data.balance + amount)

def subBalance (s : StateDB) (addr : Address) (amount : Int) : StateDB :=
  let (o, s) := s.getOrNewStateObject b addr
  if amount = 0 then s else s.objectSetBalance addr o (o.data.balance - amount)

def setBalance (s : StateDB) (addr : Address) (amount : Int) : StateDB :=
  let (o, s) := s.getOrNewStateObject b addr
  s.objectSetBalance addr o amount

def setNonce (s : StateDB) (addr : Address) (nonce : UInt64) : StateDB :=
  let (o, s) := s.getOrNewStateObject b addr
  (s.append (.nonce addr o.data.nonce)).setStateObject addr (o.setNonce nonce)

/-- The code may be nil. -/
def setCode (s : StateDB) (addr : Address) (code : Option (List UInt8)) : StateDB :=
  let (o, s) := s.getOrNewStateObject b addr
  let (prevcode, o) := o.getCode b addr
  let s := s.setStateObject addr o
  (s.append (.code addr prevcode o.data.codeHash)).setStateObject addr (o.setCode (b.crypto.keccak256 (code.getD [])) code)

def setState (s : StateDB) (addr : Address) (key value : Hash) : StateDB :=
  let (o, s) := s.getOrNewStateObject b addr
  let r := o.getState b addr (s.snapDestructs addr) (s.shared addr) key
  let s := (s.readSlot addr r).2
  if r.1 = value then s else (s.append (.storage addr key r.1)).setStateObject addr (r.2.1.setState key value)

def suicide (s : StateDB) (addr : Address) : StateDB :=
  match s.getStateObject b addr with
  | (none, s) => s
  | (some o, s) =>
    (s.append (.suicide addr o.suicided o.data.balance)).setStateObject addr
      { o.setBalance 0 with suicided := true }

def addRefund (s : StateDB) (gas : UInt64) : StateDB := { s.append (.refund s.refund) with refund := s.refund + gas }

def subRefund (s : StateDB) (gas : UInt64) : Except Panic StateDB :=
  if gas > s.refund then .error .refundBelowZero
  else .ok { s.append (.refund s.refund) with refund := s.refund - gas }

/-- The fields that the caller has filled in are those of `log`. -/
def addLog (s : StateDB) (log : Log) : StateDB :=
  { s.append (.addLog s.thash) with
    logs := Function.update s.logs s.thash
      (s.logs s.thash ++ [{ log with txHash := s.thash, txIndex := s.txIndex, index := s.logSize }])
    logSize := s.logSize + 1 }

def addPreimage (s : StateDB) (hash : Hash) (preimage : List UInt8) : StateDB :=
  match s.preimages hash with
  | some _ => s
  | none => { s.append (.addPreimage hash) with preimages := Function.update s.preimages hash (some preimage) }

def addAddressToAccessList (s : StateDB) (addr : Address) : StateDB :=
  let (added, l) := (s.accessList.getD .new).addAddress addr
  let s := { s with accessList := some l }
  if added then s.append (.accessListAddAccount addr) else s

def addSlotToAccessList (s : StateDB) (addr : Address) (slot : Hash) : StateDB :=
  let ((addrMod, slotMod), l) := (s.accessList.getD .new).addSlot addr slot
  let s := { s with accessList := some l }
  let s := if addrMod then s.append (.accessListAddAccount addr) else s
  if slotMod then s.append (.accessListAddSlot addr slot) else s

/-! ## Reverting -/

/-- A live object is changed; without one, the revert dereferences nil. -/
def modifyObject (s : StateDB) (addr : Address) (f : StateObject → StateObject) : Option StateDB :=
  match s.getStateObject b addr with
  | (none, _) => none
  | (some o, s) => some (s.setStateObject addr (f o))

end StateDB

def JournalEntry.revert (b : Backend) (e : JournalEntry) (s : StateDB) : Option StateDB :=
  match e with
  | createObject account => some
      { s with
        stateObjects := Function.update s.stateObjects account none
        stateObjectsDirty := Function.update s.stateObjectsDirty account false }
  | resetObject account prev prevdestruct =>
    let s := s.setStateObject account prev
    if prevdestruct = false ∧ b.snap.isSome then
      some { s with snapDestructs := Function.update s.snapDestructs account false }
    else some s
  | suicide account prev prevbalance =>
    match s.getStateObject b account with
    | (none, s) => some s
    | (some o, s) => some (s.setStateObject account { o.setBalance prevbalance with suicided := prev })
  | balance account prev => s.modifyObject b account (·.setBalance prev)
  | nonce account prev => s.modifyObject b account (·.setNonce prev)
  | storage account key prevalue => s.modifyObject b account (·.setState key prevalue)
  | code account prevcode prevhash => s.modifyObject b account (·.setCode prevhash prevcode)
  | refund prev => some { s with refund := prev }
  | addLog txhash =>
    let logs := s.logs txhash
    if logs.length = 0 then none
    else some { s with logs := Function.update s.logs txhash logs.dropLast, logSize := s.logSize - 1 }
  | addPreimage hash => some { s with preimages := Function.update s.preimages hash none }
  | touch _ => some s
  | accessListAddAccount address => some { s with accessList := s.accessList.map (·.deleteAddress address) }
  | accessListAddSlot address slot =>
    match s.accessList with
    | none => some s
    | some l => (l.deleteSlot address slot).map fun l => { s with accessList := some l }

namespace StateDB

variable (b : Backend)

/-- One turn of the loop of `journal.revert`. -/
def undo (e : JournalEntry) (s : StateDB) : Option StateDB :=
  (e.revert b s).map fun s => { s with journal := { s.journal with dirties := Journal.count s.journal.dirties (-1) e.dirtied } }

/-- `journal.revert`. -/
def revertJournal (s : StateDB) (snapshot : Nat) : Option StateDB :=
  (Lib.undoAll (undo b) (s.journal.entries.drop snapshot).reverse s).map fun t =>
    { t with journal := { t.journal with entries := s.journal.entries.take snapshot } }

def snapshot (s : StateDB) : Nat × StateDB :=
  (s.nextRevisionId,
    { s with
      nextRevisionId := s.nextRevisionId + 1
      validRevisions := s.validRevisions ++ [⟨s.nextRevisionId, s.journal.entries.length⟩] })

def revertToSnapshot (s : StateDB) (revid : Nat) : Except Panic StateDB :=
  let idx := s.validRevisions.findIdx (fun r => r.id ≥ revid)
  match s.validRevisions[idx]? with
  | none => .error .unknownRevision
  | some r =>
    if r.id ≠ revid then .error .unknownRevision
    else
      match s.revertJournal b r.journalIndex with
      | none => .error .revert
      | some t => .ok { t with validRevisions := s.validRevisions.take idx }

end StateDB

/-! ## Runs -/

/-- `getObject` stands for the reads that only load the object. -/
inductive Op
  | getObject (addr : Address)
  | getCode (addr : Address)
  | getState (addr : Address) (key : Hash)
  | getCommittedState (addr : Address) (key : Hash)
  | createAccount (addr : Address)
  | addBalance (addr : Address) (amount : Int)
  | subBalance (addr : Address) (amount : Int)
  | setBalance (addr : Address) (amount : Int)
  | setNonce (addr : Address) (nonce : UInt64)
  | setCode (addr : Address) (code : Option (List UInt8))
  | setState (addr : Address) (key value : Hash)
  | suicide (addr : Address)
  | addRefund (gas : UInt64)
  | subRefund (gas : UInt64)
  | addLog (log : Log)
  | addPreimage (hash : Hash) (preimage : List UInt8)
  | addAddressToAccessList (addr : Address)
  | addSlotToAccessList (addr : Address) (slot : Hash)
  | snapshot
  | revertToSnapshot (revid : Nat)

def Op.apply (b : Backend) (s : StateDB) : Op → Except Panic StateDB
  | getObject addr => .ok (s.getStateObject b addr).2
  | getCode addr => .ok (s.getCode b addr).2
  | getState addr key => .ok (s.getState b addr key).2
  | getCommittedState addr key => .ok (s.getCommittedState b addr key).2
  | createAccount addr => .ok (s.createAccount b addr)
  | addBalance addr amount => .ok (s.addBalance b addr amount)
  | subBalance addr amount => .ok (s.subBalance b addr amount)
  | setBalance addr amount => .ok (s.setBalance b addr amount)
  | setNonce addr nonce => .ok (s.setNonce b addr nonce)
  | setCode addr code => .ok (s.setCode b addr code)
  | setState addr key value => .ok (s.setState b addr key value)
  | suicide addr => .ok (s.suicide b addr)
  | addRefund gas => .ok (s.addRefund gas)
  | subRefund gas => s.subRefund gas
  | addLog log => .ok (s.addLog log)
  | addPreimage hash preimage => .ok (s.addPreimage hash preimage)
  | addAddressToAccessList addr => .ok (s.addAddressToAccessList addr)
  | addSlotToAccessList addr slot => .ok (s.addSlotToAccessList addr slot)
  | snapshot => .ok s.snapshot.2
  | revertToSnapshot revid => s.revertToSnapshot b revid

def StateDB.run (b : Backend) (s : StateDB) (ops : List Op) : Except Panic StateDB := ops.foldlM (Op.apply b) s

end TurboOctopus.State
