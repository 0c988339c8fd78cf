import TurboOctopus.State.Revert
/-!
# The shared storage pool

Reads through the pool. What the pool holds of an account is its storage at the root of the
block. An object that reads this storage where it has cached nothing itself does not notice
the pool, and writes the same to it.
-/
namespace TurboOctopus.State

open Lib TurboOctopus.Types StateObject

/-! ## Transactions and copies -/

section Source
variable (b : Backend)

def StateObject.finalise (o : StateObject) : StateObject :=
  { o with
    pendingStorage := fun key => o.dirtyStorage key <|> o.pendingStorage key
    dirtyStorage := fun _ => none }

/-- Whether `Finalise` deletes the object. -/
def StateObject.dies (deleteEmptyObjects : Bool) (o : StateObject) : Bool := o.suicided || (deleteEmptyObjects && o.empty b)

namespace StateDB

def clearJournalAndRefund (s : StateDB) : StateDB :=
  let s := if s.journal.entries = [] then s else { s with journal := ⟨[], fun _ => 0⟩, refund := 0 }
  { s with validRevisions := [] }

def finalise (deleteEmptyObjects : Bool) (s : StateDB) : StateDB :=
  clearJournalAndRefund
    { s with
      stateObjects := fun addr =>
        if s.journal.dirties addr = 0 then s.stateObjects addr
        else (s.stateObjects addr).map fun o =>
          if o.dies b deleteEmptyObjects then { o with deleted := true } else o.finalise
      snapDestructs := fun addr =>
        s.snapDestructs addr || (b.snap.isSome && s.journal.dirties addr ≠ 0 &&
          (s.stateObjects addr).any (·.dies b deleteEmptyObjects))
      stateObjectsDirty := fun addr =>
        s.stateObjectsDirty addr || (s.journal.dirties addr ≠ 0 && (s.stateObjects addr).isSome) }

def prepare (s : StateDB) (thash : Hash) (ti : Nat) : StateDB :=
  { s with thash := thash, txIndex := ti, accessList := none }

/-- The objects that were changed, without the journal. The pool stays the same one. -/
def copy (s : StateDB) : StateDB :=
  { s with
    stateObjects := fun addr =>
      if s.journal.dirties addr ≠ 0 ∨ s.stateObjectsDirty addr = true then s.stateObjects addr else none
    stateObjectsDirty := fun addr =>
      s.stateObjectsDirty addr || (s.journal.dirties addr ≠ 0 && (s.stateObjects addr).isSome)
    thash := 0
    txIndex := 0
    journal := ⟨[], fun _ => 0⟩
    validRevisions := []
    nextRevisionId := 0 }

end StateDB

/-- Made by `New`. -/
def Backend.plain : Backend := { b with storagePool := false, writeOnSharedStorage := false }

/-- Made by `NewWithSharedPool`, and for a prefetcher with `EnableWriteOnSharedStorage`. -/
def Backend.sharing (write : Bool) : Backend := { b with storagePool := true, writeOnSharedStorage := write }

/-- The storage of an account at the root. -/
def base (addr : Address) (key : Hash) : Hash :=
  match StateDB.readAccount b addr with
  | none => 0
  | some data => (newObject data).backing b addr false key

def Barren (addr : Address) : Prop := ∀ key, base b addr key = 0

/-- Empty tries hold nothing, and the layer has no storage of an account that is not there. -/
structure Backend.Sound : Prop where
  emptyTrie : ∀ addr key, (b.openStorageTrie addr Trie.emptyRoot key).getD 0 = 0
  absent : ∀ snap, b.snap = some snap → ∀ addr, StateDB.readAccount b addr = none → ∀ key, (snap.storage addr key).getD 0 = 0

end Source

/-! ## Reads -/

section Objects
variable {b : Backend} {addr : Address} {d : Bool} {o o' : StateObject} {shared : Storage} {key : Hash}

/-- What the object has not cached, it reads at the root. -/
def Settled (b : Backend) (addr : Address) (d : Bool) (o : StateObject) : Prop :=
  ∀ key, o.originStorage key = none → o.backing b addr d key = base b addr key

def PoolOf (b : Backend) (addr : Address) (shared : Storage) : Prop :=
  ∀ key value, shared key = some value → value = base b addr key

section
variable (h : Settled b addr d o)
include h

lemma Settled.setOrigin (key value : Hash) :
    Settled b addr d { o with originStorage := Function.update o.originStorage key (some value) } := by
  intro key' hnone
  by_cases hkey : key' = key
  · subst hkey
    simp at hnone
  · exact h key' (by simpa [hkey] using hnone)

lemma Settled.setOriginStorage (hpool : PoolOf b addr shared) (key : Hash) {value : Hash}
    (hvalue : value = base b addr key) (write : Bool) :
    Settled b addr d (o.setOriginStorage (b.sharing write) shared key value).1 ∧
      PoolOf b addr (o.setOriginStorage (b.sharing write) shared key value).2 := by
  refine ⟨h.setOrigin key value, ?_⟩
  rw [StateObject.setOriginStorage]
  split
  · intro key' value' hget
    by_cases hkey : key' = key
    · subst hkey
      simp only [Function.update_self, Option.some.injEq] at hget
      exact hget.symm.trans hvalue
    · exact hpool key' value' (by simpa [hkey] using hget)
  · exact hpool

lemma Settled.readTrie (hpool : PoolOf b addr shared) (write : Bool)
    (hbase : (o.getTrie b addr key).getD 0 = base b addr key) :
    Settled b addr d (o.readTrie (b.sharing write) addr shared key).2.1 ∧
      PoolOf b addr (o.readTrie (b.sharing write) addr shared key).2.2 := by
  have hopen : Settled b addr d { o with trie := some (o.getTrie b addr) } := h
  rw [StateObject.readTrie]
  cases hread : o.getTrie b addr key with
  | none =>
    have hread' : (o.getTrie (b.sharing write) addr) key = none := hread
    simp only [getTrie, Option.getD_some] at hread' ⊢
    rw [hread']
    exact ⟨hopen, hpool⟩
  | some value =>
    have hread' : (o.getTrie (b.sharing write) addr) key = some value := hread
    simp only [getTrie, Option.getD_some] at hread' ⊢
    rw [hread']
    rw [hread] at hbase
    exact hopen.setOriginStorage hpool key hbase write

lemma Settled.readBackend (hpool : PoolOf b addr shared) (write : Bool)
    (hnone : o.originStorage key = none) : Settled b addr d (o.readBackend (b.sharing write) addr d shared key).2.1 ∧
      PoolOf b addr (o.readBackend (b.sharing write) addr d shared key).2.2 := by
  have hbase := h key hnone
  rw [backing] at hbase
  rw [StateObject.readBackend]
  have hsnap : (b.sharing write).snap = b.snap := rfl
  rw [hsnap]
  cases hlayer : b.snap with
  | none =>
    rw [hlayer] at hbase
    exact h.readTrie hpool write hbase
  | some snap =>
    rw [hlayer] at hbase
    dsimp only at hbase ⊢
    by_cases hd : d = true
    · rw [if_pos hd]
      exact ⟨h, hpool⟩
    · rw [if_neg hd] at hbase ⊢
      cases hread : snap.storage addr key with
      | none =>
        rw [hread] at hbase
        exact h.readTrie hpool write hbase
      | some value =>
        rw [hread] at hbase
        exact h.setOriginStorage hpool key hbase write

lemma Settled.getCommittedState (hpool : PoolOf b addr shared) (write : Bool) (key : Hash) :
    Settled b addr d (o.getCommittedState (b.sharing write) addr d shared key).2.1 ∧
      PoolOf b addr (o.getCommittedState (b.sharing write) addr d shared key).2.2 := by
  rw [StateObject.getCommittedState]
  cases hpending : o.pendingStorage key with
  | some value => exact ⟨h, hpool⟩
  | none =>
    rw [getOriginStorage]
    cases horigin : o.originStorage key with
    | some value => exact ⟨h, hpool⟩
    | none =>
      have hpooled : (b.sharing write).storagePool = true := rfl
      rw [if_pos hpooled]
      cases hshared : shared key with
      | none => exact h.readBackend hpool write horigin
      | some value => exact ⟨h.setOrigin key value, hpool⟩

lemma Settled.getState (hpool : PoolOf b addr shared) (write : Bool) (key : Hash) :
    Settled b addr d (o.getState (b.sharing write) addr d shared key).2.1 ∧
      PoolOf b addr (o.getState (b.sharing write) addr d shared key).2.2 := by
  rw [StateObject.getState]
  cases o.dirtyStorage key with
  | some value => exact ⟨h, hpool⟩
  | none => exact h.getCommittedState hpool write key

end

/-- What an object shows without the pool. -/
def StateObject.shows (b : Backend) (addr : Address) (d : Bool) (o : StateObject) : ObjectView :=
  o.view b.plain addr d fun _ => none

lemma view_plain (o : StateObject) (shared : Storage) : o.view b.plain addr d shared = o.shows b addr d := by
  rw [shows, view_eq, view_eq]
  rfl

/-- The pool is not seen. -/
lemma Settled.view_sharing (h : Settled b addr d o) (hpool : PoolOf b addr shared) (write : Bool) :
    o.view (b.sharing write) addr d shared = o.shows b addr d := by
  have hcommitted : ∀ key, o.committed (b.sharing write) addr d shared key =
      o.committed b.plain addr d (fun _ => none) key := by
    intro key
    have hpooled : pooled (b.sharing write) shared key = shared key := rfl
    have hplain : pooled b.plain (fun _ => none) key = none := rfl
    have hbacking : o.backing (b.sharing write) addr d key = o.backing b.plain addr d key := rfl
    rw [committed, committed, hpooled, hplain, hbacking]
    cases hcached : (o.pendingStorage key <|> o.originStorage key) with
    | some value => rfl
    | none =>
      have horigin : o.originStorage key = none := by
        cases hpending : o.pendingStorage key with
        | some value => rw [hpending] at hcached; cases hcached
        | none => rw [hpending] at hcached; exact hcached
      have hbase : o.backing b.plain addr d key = base b addr key := h key horigin
      cases hshared : shared key with
      | none => rfl
      | some value => simp [hbase, hpool key value hshared]
  rw [shows, view_eq, view_eq, funext hcommitted]
  rfl

lemma Cached.shows (hcached : Cached (b.sharing write) addr d o shared o' shared') (h : Settled b addr d o)
    (hpool : PoolOf b addr shared) (h' : Settled b addr d o') (hpool' : PoolOf b addr shared') :
    o'.shows b addr d = o.shows b addr d := by
  rw [← h.view_sharing hpool write, ← h'.view_sharing hpool' write]
  exact hcached.view

lemma settled_load (data : StateAccount) (hdata : StateDB.readAccount b addr = some data) (hd : d = true → Barren b addr) :
    Settled b addr d (newObject data) := by
  intro key _
  have hbase : base b addr key = (newObject data).backing b addr false key := by rw [base, hdata]
  cases hd' : d with
  | false => exact hbase.symm
  | true =>
    rw [hd hd' key, backing]
    rw [hd hd' key, backing] at hbase
    cases hsnap : b.snap with
    | none =>
      rw [hsnap] at hbase
      exact hbase.symm
    | some snap => rfl

lemma settled_fresh (hsound : b.Sound) (hbarren : Barren b addr)
    (hd : b.snap.isSome → d = true ∨ StateDB.readAccount b addr = none) : Settled b addr d (newObject b.freshAccount) := by
  intro key _
  have htrie : ((newObject b.freshAccount).getTrie b addr key).getD 0 = 0 := by
    have hroot : (newObject b.freshAccount).data.root = Trie.emptyRoot := by
      rw [newObject]
      split <;> rfl
    rw [getTrie, hroot]
    exact hsound.emptyTrie addr key
  rw [hbarren key, backing]
  cases hsnap : b.snap with
  | none => exact htrie
  | some snap =>
    dsimp only
    rcases hd (by rw [hsnap]; rfl) with rfl | hnone
    · rfl
    · split
      · rfl
      · rw [htrie]
        exact hsound.absent snap hsnap addr hnone key

end Objects

end TurboOctopus.State
