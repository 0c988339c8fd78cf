import TurboOctopus.Trie.Hasher
/-!
# State objects

An account in execution. Storage is read through the writes of the transaction, those of the
block, the object's cache, the pool that states share, and the snapshot layer or the storage
trie. What is read below the pool is cached on the way back.
-/
namespace TurboOctopus.State

open TurboOctopus.Types

/-- `types.StateAccount`. -/
structure StateAccount where
  nonce : UInt64
  balance : Int
  root : Hash
  codeHash : Hash
deriving DecidableEq

abbrev Storage := Hash → Option Hash

/-- What `TryGet` of a storage trie finds, decoded; `none` if it fails. -/
abbrev StorageTrie := Hash → Option Hash

/-- The snapshot layer; `none` is an error. A missing slot is read as zero. -/
structure Snap where
  account : Address → Option (Option StateAccount)
  storage : Address → Hash → Option Hash

/-- What is below a state, and how it was made. -/
structure Backend where
  crypto : Crypto
  snap : Option Snap
  /-- `s.trie.TryGet`, decoded. -/
  trieAccount : Address → Option StateAccount
  openStorageTrie : Address → Hash → StorageTrie
  contractCode : Address → Hash → Option (List UInt8)
  /-- Made by `NewWithSharedPool`. -/
  storagePool : Bool
  writeOnSharedStorage : Bool

def Backend.emptyCodeHash (b : Backend) : Hash := b.crypto.keccak256 []

structure StateObject where
  data : StateAccount
  trie : Option StorageTrie
  code : Option (List UInt8)
  originStorage : Storage
  pendingStorage : Storage
  dirtyStorage : Storage
  dirtyCode : Bool
  suicided : Bool
  deleted : Bool

def newObject (data : StateAccount) : StateObject where
  data := if data.root = 0 then { data with root := Trie.emptyRoot } else data
  trie := none
  code := none
  originStorage := fun _ => none
  pendingStorage := fun _ => none
  dirtyStorage := fun _ => none
  dirtyCode := false
  suicided := false
  deleted := false

/-- `types.StateAccount{}`, with the defaults of `newObject`. -/
def Backend.freshAccount (b : Backend) : StateAccount := ⟨0, 0, Trie.emptyRoot, b.emptyCodeHash⟩

namespace StateObject

variable (b : Backend) (addr : Address)

def empty (o : StateObject) : Bool := o.data.nonce = 0 ∧ o.data.balance = 0 ∧ o.data.codeHash = b.emptyCodeHash

def getTrie (o : StateObject) : StorageTrie := o.trie.getD (b.openStorageTrie addr o.data.root)

/-- `shared` is the map of the account in the pool. -/
def getOriginStorage (o : StateObject) (shared : Storage) (key : Hash) : Option Hash × StateObject :=
  match o.originStorage key with
  | some value => (some value, o)
  | none =>
    if b.storagePool then
      match shared key with
      | none => (none, o)
      | some value => (some value, { o with originStorage := Function.update o.originStorage key (some value) })
    else (none, o)

def setOriginStorage (o : StateObject) (shared : Storage) (key value : Hash) : StateObject × Storage :=
  ({ o with originStorage := Function.update o.originStorage key (some value) },
    if b.writeOnSharedStorage ∧ b.storagePool then Function.update shared key (some value) else shared)

/-- A read of the storage trie. A failed one gives zero, and is not cached. -/
def readTrie (o : StateObject) (shared : Storage) (key : Hash) : Hash × StateObject × Storage :=
  let o := { o with trie := some (o.getTrie b addr) }
  match o.getTrie b addr key with
  | none => (0, o, shared)
  | some value => (value, setOriginStorage b o shared key value)

/-- Below the caches: the snapshot layer, without the accounts that were destructed in this
block, and the trie if there is no layer or it does not answer. -/
def readBackend (destructed : Bool) (o : StateObject) (shared : Storage) (key : Hash) : Hash × StateObject × Storage :=
  match b.snap with
  | none => o.readTrie b addr shared key
  | some snap =>
    if destructed then (0, o, shared)
    else
      match snap.storage addr key with
      | none => o.readTrie b addr shared key
      | some value => (value, setOriginStorage b o shared key value)

def getCommittedState (destructed : Bool) (o : StateObject) (shared : Storage) (key : Hash) :
    Hash × StateObject × Storage :=
  match o.pendingStorage key with
  | some value => (value, o, shared)
  | none =>
    match o.getOriginStorage b shared key with
    | (some value, o) => (value, o, shared)
    | (none, o) => o.readBackend b addr destructed shared key

def getState (destructed : Bool) (o : StateObject) (shared : Storage) (key : Hash) : Hash × StateObject × Storage :=
  match o.dirtyStorage key with
  | some value => (value, o, shared)
  | none => o.getCommittedState b addr destructed shared key

def getCode (o : StateObject) : Option (List UInt8) × StateObject :=
  match o.code with
  | some code => (some code, o)
  | none =>
    if o.data.codeHash = b.emptyCodeHash then (none, o)
    else
      let code := b.contractCode addr o.data.codeHash
      (code, { o with code := code })

def setBalance (o : StateObject) (amount : Int) : StateObject := { o with data := { o.data with balance := amount } }

def setNonce (o : StateObject) (nonce : UInt64) : StateObject := { o with data := { o.data with nonce := nonce } }

def setCode (o : StateObject) (codeHash : Hash) (code : Option (List UInt8)) : StateObject :=
  { o with code := code, data := { o.data with codeHash := codeHash }, dirtyCode := true }

def setState (o : StateObject) (key value : Hash) : StateObject :=
  { o with dirtyStorage := Function.update o.dirtyStorage key (some value) }

end StateObject

/-! ## What of an object can be seen -/

/-- What the reads of an account answer, whatever is cached. -/
structure ObjectView where
  nonce : UInt64
  balance : Int
  codeHash : Hash
  code : Option (List UInt8)
  suicided : Bool
  deleted : Bool
  state : Hash → Hash
  committed : Hash → Hash

section View
variable (b : Backend) (addr : Address)

def StateObject.view (destructed : Bool) (shared : Storage) (o : StateObject) : ObjectView where
  nonce := o.data.nonce
  balance := o.data.balance
  codeHash := o.data.codeHash
  code := (o.getCode b addr).1
  suicided := o.suicided
  deleted := o.deleted
  state := fun key => (o.getState b addr destructed shared key).1
  committed := fun key => (o.getCommittedState b addr destructed shared key).1

/-- What a read finds below the caches. -/
def StateObject.backing (destructed : Bool) (o : StateObject) (key : Hash) : Hash :=
  match b.snap with
  | none => (o.getTrie b addr key).getD 0
  | some snap => if destructed then 0 else (snap.storage addr key).getD ((o.getTrie b addr key).getD 0)

def StateObject.pooled (shared : Storage) (key : Hash) : Option Hash := if b.storagePool then shared key else none

def StateObject.committed (destructed : Bool) (shared : Storage) (o : StateObject) (key : Hash) : Hash :=
  ((o.pendingStorage key <|> o.originStorage key) <|> pooled b shared key).getD (o.backing b addr destructed key)

end View

section Reads
variable {b : Backend} {addr : Address} {destructed : Bool} {o o' : StateObject} {shared shared' : Storage} {key value : Hash}

/-- An object, and the pool, after something was cached. -/
structure Cached (b : Backend) (addr : Address) (destructed : Bool) (o : StateObject) (shared : Storage)
    (o' : StateObject) (shared' : Storage) : Prop where
  data : o'.data = o.data
  code : o'.code = o.code
  dirtyStorage : o'.dirtyStorage = o.dirtyStorage
  suicided : o'.suicided = o.suicided
  deleted : o'.deleted = o.deleted
  committed : ∀ key, o'.committed b addr destructed shared' key = o.committed b addr destructed shared key
  /-- The pool is only written below it, and not for a destructed account of a layer. -/
  shared : (b.writeOnSharedStorage = true → b.storagePool = true → b.snap.isSome ∧ destructed = true) → shared' = shared

lemma Cached.refl (o : StateObject) (shared : Storage) : Cached b addr destructed o shared o shared :=
  ⟨rfl, rfl, rfl, rfl, rfl, fun _ => rfl, fun _ => rfl⟩

lemma cached_trie (o : StateObject) (shared : Storage) :
    Cached b addr destructed o shared { o with trie := some (o.getTrie b addr) } shared :=
  ⟨rfl, rfl, rfl, rfl, rfl, fun _ => rfl, fun _ => rfl⟩

lemma Cached.trans {o'' : StateObject} {shared'' : Storage} (h : Cached b addr destructed o shared o' shared')
    (h' : Cached b addr destructed o' shared' o'' shared'') : Cached b addr destructed o shared o'' shared'' where
  data := h'.data.trans h.data
  code := h'.code.trans h.code
  dirtyStorage := h'.dirtyStorage.trans h.dirtyStorage
  suicided := h'.suicided.trans h.suicided
  deleted := h'.deleted.trans h.deleted
  committed key := (h'.committed key).trans (h.committed key)
  shared hpool := (h'.shared hpool).trans (h.shared hpool)

open StateObject

/-- Caching the value that is read changes no read. -/
lemma committed_update (hvalue : value = o.committed b addr destructed shared key) (hshared : shared' = shared ∨
    shared' = Function.update shared key (some value)) (hnone : o.pendingStorage key = none) (key' : Hash) :
    committed b addr destructed shared'
      { o with originStorage := Function.update o.originStorage key (some value) } key' =
      o.committed b addr destructed shared key' := by
  by_cases hkey : key' = key
  · subst hkey
    rw [hvalue, committed]
    simp [hnone]
  · have hpool : pooled b shared' key' = pooled b shared key' := by
      rcases hshared with rfl | rfl
      · rfl
      · rw [pooled, pooled, Function.update_of_ne hkey]
    simp only [committed, Function.update_of_ne hkey, hpool]
    rfl

lemma setOriginStorage_cached (hvalue : value = o.committed b addr destructed shared key)
    (hnone : o.pendingStorage key = none) (hopen : ¬ (b.snap.isSome ∧ destructed = true)) :
    Cached b addr destructed o shared (o.setOriginStorage b shared key value).1
      (o.setOriginStorage b shared key value).2 where
  data := rfl
  code := rfl
  dirtyStorage := rfl
  suicided := rfl
  deleted := rfl
  committed := by
    apply committed_update hvalue _ hnone
    rw [setOriginStorage]
    split
    · exact .inr rfl
    · exact .inl rfl
  shared hpool := by
    rw [setOriginStorage, if_neg]
    rintro ⟨hwrite, hpooled⟩
    exact hopen (hpool hwrite hpooled)

lemma readTrie_spec (hnone : o.pendingStorage key = none) (hopen : ¬ (b.snap.isSome ∧ destructed = true))
    (hvalue : o.committed b addr destructed shared key = (o.getTrie b addr key).getD 0) :
    (o.readTrie b addr shared key).1 = o.committed b addr destructed shared key ∧
      Cached b addr destructed o shared (o.readTrie b addr shared key).2.1 (o.readTrie b addr shared key).2.2 := by
  have htrie : ({ o with trie := some (o.getTrie b addr) } : StateObject).getTrie b addr = o.getTrie b addr := rfl
  rw [readTrie, htrie]
  rw [hvalue]
  cases hread : o.getTrie b addr key with
  | none => exact ⟨rfl, cached_trie o shared⟩
  | some value =>
    refine ⟨rfl, (cached_trie o shared).trans (setOriginStorage_cached ?_ hnone hopen)⟩
    rw [(cached_trie o shared).committed, hvalue, hread]
    rfl

/-- Below the caches, where none of them has the slot. -/
lemma readBackend_spec (hpending : o.pendingStorage key = none) (horigin : o.originStorage key = none)
    (hpool : pooled b shared key = none) :
    (o.readBackend b addr destructed shared key).1 = o.committed b addr destructed shared key ∧
      Cached b addr destructed o shared (o.readBackend b addr destructed shared key).2.1
        (o.readBackend b addr destructed shared key).2.2 := by
  have hcommitted : o.committed b addr destructed shared key = o.backing b addr destructed key := by
    rw [committed, hpending, horigin, hpool]
    rfl
  rw [backing] at hcommitted
  rw [readBackend]
  cases hsnap : b.snap with
  | none =>
    rw [hsnap] at hcommitted
    exact readTrie_spec hpending (by simp [hsnap]) hcommitted
  | some snap =>
    rw [hsnap] at hcommitted
    dsimp only at hcommitted ⊢
    by_cases hd : destructed = true
    · rw [if_pos hd] at hcommitted ⊢
      exact ⟨hcommitted.symm, .refl o shared⟩
    · rw [if_neg hd] at hcommitted ⊢
      cases hread : snap.storage addr key with
      | none =>
        rw [hread] at hcommitted
        exact readTrie_spec hpending (by simp [hd]) hcommitted
      | some value =>
        rw [hread] at hcommitted
        exact ⟨hcommitted.symm, setOriginStorage_cached hcommitted.symm hpending (by simp [hd])⟩

lemma getCommittedState_spec (o : StateObject) (destructed : Bool) (shared : Storage) (key : Hash) :
    (o.getCommittedState b addr destructed shared key).1 = o.committed b addr destructed shared key ∧
      Cached b addr destructed o shared (o.getCommittedState b addr destructed shared key).2.1
        (o.getCommittedState b addr destructed shared key).2.2 := by
  rw [getCommittedState]
  cases hpending : o.pendingStorage key with
  | some value => exact ⟨by simp [committed, hpending], .refl o shared⟩
  | none =>
    rw [getOriginStorage]
    cases horigin : o.originStorage key with
    | some value => exact ⟨by simp [committed, hpending, horigin], .refl o shared⟩
    | none =>
      by_cases hpooled : b.storagePool = true
      · have hpool : pooled b shared key = shared key := if_pos hpooled
        rw [if_pos hpooled]
        cases hshared : shared key with
        | none => exact readBackend_spec hpending horigin (hpool.trans hshared)
        | some value =>
          have hvalue : value = o.committed b addr destructed shared key := by
            simp [committed, hpending, horigin, hpool, hshared]
          exact ⟨hvalue, rfl, rfl, rfl, rfl, rfl, committed_update hvalue (.inl rfl) hpending, fun _ => rfl⟩
      · rw [if_neg hpooled]
        exact readBackend_spec hpending horigin (if_neg hpooled)

/-- The code that is read for a hash and a loaded code. -/
def codeView (b : Backend) (addr : Address) (codeHash : Hash) (code : Option (List UInt8)) : Option (List UInt8) :=
  code <|> if codeHash = b.emptyCodeHash then none else b.contractCode addr codeHash

lemma getCode_fst (o : StateObject) : (o.getCode b addr).1 = codeView b addr o.data.codeHash o.code := by
  rw [getCode, codeView]
  cases o.code with
  | some code => rfl
  | none =>
    dsimp only
    split <;> rfl

lemma getState_fst (o : StateObject) (destructed : Bool) (shared : Storage) (key : Hash) :
    (o.getState b addr destructed shared key).1 = (o.dirtyStorage key).getD (o.committed b addr destructed shared key) := by
  rw [getState]
  cases o.dirtyStorage key with
  | some value => rfl
  | none => exact (getCommittedState_spec o destructed shared key).1

lemma view_eq (o : StateObject) (destructed : Bool) (shared : Storage) :
    o.view b addr destructed shared =
      ⟨o.data.nonce, o.data.balance, o.data.codeHash, codeView b addr o.data.codeHash o.code, o.suicided, o.deleted,
        fun key => (o.dirtyStorage key).getD (o.committed b addr destructed shared key),
        o.committed b addr destructed shared⟩ := by
  rw [view, getCode_fst, funext fun key => getState_fst o destructed shared key,
    funext fun key => (getCommittedState_spec o destructed shared key).1]

/-- Reads of the object after something was cached. -/
lemma Cached.view (h : Cached b addr destructed o shared o' shared') :
    o'.view b addr destructed shared' = o.view b addr destructed shared := by
  simp only [view_eq, h.data, h.code, h.dirtyStorage, h.suicided, h.deleted, funext h.committed]

lemma getState_cached (o : StateObject) (destructed : Bool) (shared : Storage) (key : Hash) :
    Cached b addr destructed o shared (o.getState b addr destructed shared key).2.1
      (o.getState b addr destructed shared key).2.2 := by
  rw [getState]
  cases o.dirtyStorage key with
  | some value => exact .refl o shared
  | none => exact (getCommittedState_spec o destructed shared key).2

/-! ## Writes, as they are seen -/

section Writes
variable (o : StateObject) (destructed : Bool) (shared : Storage)

lemma view_getCode : (o.getCode b addr).2.view b addr destructed shared = o.view b addr destructed shared := by
  rw [getCode]
  cases hcode : o.code with
  | some code => rfl
  | none =>
    dsimp only
    split
    · rfl
    · next hhash =>
      have hview : codeView b addr o.data.codeHash (b.contractCode addr o.data.codeHash) =
          codeView b addr o.data.codeHash none := by
        rw [codeView, codeView, if_neg hhash]
        cases b.contractCode addr o.data.codeHash <;> rfl
      rw [view_eq, view_eq, hcode]
      rw [hview]
      rfl

lemma view_setBalance (amount : Int) : (o.setBalance amount).view b addr destructed shared =
    { o.view b addr destructed shared with balance := amount } := by
  rw [view_eq, view_eq]
  rfl

lemma view_setNonce (nonce : UInt64) : (o.setNonce nonce).view b addr destructed shared =
    { o.view b addr destructed shared with nonce := nonce } := by
  rw [view_eq, view_eq]
  rfl

lemma view_setCode (codeHash : Hash) (code : Option (List UInt8)) :
    (o.setCode codeHash code).view b addr destructed shared =
      { o.view b addr destructed shared with codeHash := codeHash, code := codeView b addr codeHash code } := by
  rw [view_eq, view_eq]
  rfl

lemma view_setState (key value : Hash) : (o.setState key value).view b addr destructed shared =
    { o.view b addr destructed shared with
      state := Function.update (o.view b addr destructed shared).state key value } := by
  rw [view_eq, view_eq]
  congr 1
  funext key'
  by_cases hkey : key' = key
  · subst hkey
    simp [setState]
  · simp only [setState, Function.update_of_ne hkey]
    rfl

end Writes

end Reads

end TurboOctopus.State
