import TurboOctopus.State.Pool
/-!
# A state with the pool beside one without it

`Sim` relates a state of the pool to a state that has none and has done the same. The
journals go along: an entry that brings back an old object brings back related objects.
-/
namespace TurboOctopus.State

open Lib TurboOctopus.Types Function List Option StateDB

/-! ## Beside a state without the pool -/

/-- A deleted object is not read any more. -/
structure ObjSim (b : Backend) (addr : Address) (d : Bool) (o o' : StateObject) : Prop where
  data : o'.data = o.data
  suicided : o'.suicided = o.suicided
  deleted : o'.deleted = o.deleted
  shows : o.deleted = false → o'.shows b addr d = o.shows b addr d
  settled : o.deleted = false → Settled b addr d o

/-- The destruct marks after the entry is undone. -/
def undoFlags (b : Backend) (flags : Address → Bool) : JournalEntry → Address → Bool
  | .resetObject addr _ prevdestruct =>
    if prevdestruct = false ∧ b.snap.isSome then update flags addr false else flags
  | _ => flags

def EntrySim (b : Backend) (flags : Address → Bool) (e e' : JournalEntry) : Prop :=
  match e with
  | .resetObject addr o d =>
    Barren b addr ∧ ∃ o', e' = .resetObject addr o' d ∧ ObjSim b addr (undoFlags b flags e addr) o o'
  | .createObject addr => e' = e ∧ Barren b addr
  | _ => e' = e

/-- The last entry is the first of the list. -/
def JournalSim (b : Backend) : (Address → Bool) → List JournalEntry → List JournalEntry → Prop
  | _, [], [] => True
  | flags, e :: log, e' :: log' => EntrySim b flags e e' ∧ JournalSim b (undoFlags b flags e) log log'
  | _, _, _ => False

/-- `s` has the pool, `r` has not. -/
structure SimWith (b : Backend) (log log' : List JournalEntry) (s r : StateDB) : Prop where
  objects : ∀ addr, Option.Rel (ObjSim b addr (s.snapDestructs addr)) (s.stateObjects addr) (r.stateObjects addr)
  pool : ∀ addr, PoolOf b addr (s.shared addr)
  flagged : ∀ addr, s.snapDestructs addr = true →
    Barren b addr ∨ (s.stateObjects addr).isSome ∧ s.stateObjectsDirty addr = true
  journal : JournalSim b s.snapDestructs log log'
  rest : r =
    { s with
      stateObjects := r.stateObjects
      shared := r.shared
      journal := { s.journal with entries := r.journal.entries } }

def Sim (b : Backend) (s r : StateDB) : Prop :=
  SimWith b s.journal.entries.reverse r.journal.entries.reverse s r

section Sim
variable {b : Backend} {log log' : List JournalEntry} {s r t : StateDB} {addr : Address} {o o' : StateObject}
  {e : JournalEntry}

section
variable (h : SimWith b log log' s r)
include h

lemma SimWith.snapDestructs : r.snapDestructs = s.snapDestructs := by
  rw [h.rest]

lemma SimWith.object (addr : Address) :
    s.stateObjects addr = none ∧ r.stateObjects addr = none ∨
      ∃ o o', s.stateObjects addr = some o ∧ r.stateObjects addr = some o' ∧ ObjSim b addr (s.snapDestructs addr) o o' := by
  have hobj := h.objects addr
  cases hs : s.stateObjects addr with
  | none =>
    cases hr : r.stateObjects addr with
    | none => exact .inl ⟨rfl, rfl⟩
    | some o' => rw [hs, hr] at hobj; cases hobj
  | some o =>
    cases hr : r.stateObjects addr with
    | none => rw [hs, hr] at hobj; cases hobj
    | some o' =>
      rw [hs, hr] at hobj
      cases hobj with
      | some hobj => exact .inr ⟨o, o', rfl, rfl, hobj⟩

lemma SimWith.set (hobj : ObjSim b addr (s.snapDestructs addr) o o') :
    SimWith b log log' (s.setStateObject addr o) (r.setStateObject addr o') where
  __ := h
  objects addr' := by
    by_cases haddr : addr' = addr
    · subst haddr
      simp only [setStateObject, update_self]
      exact .some hobj
    · simp only [setStateObject, update_of_ne haddr]
      exact h.objects addr'
  flagged addr' hflag := by
    refine (h.flagged addr' hflag).imp_right fun hloaded => ⟨?_, hloaded.2⟩
    by_cases haddr : addr' = addr
    · subst haddr
      simp [setStateObject]
    · simpa [setStateObject, haddr] using hloaded.1
  rest := by
    conv_lhs => rw [h.rest]
    rfl

/-- Loading an object: the result is the object that is loaded then. -/
lemma SimWith.getDeletedStateObject (addr : Address) :
    SimWith b log log' (s.getDeletedStateObject b addr).2 (r.getDeletedStateObject b addr).2 ∧
      (s.getDeletedStateObject b addr).1 = (s.getDeletedStateObject b addr).2.stateObjects addr ∧
      (r.getDeletedStateObject b addr).1 = (r.getDeletedStateObject b addr).2.stateObjects addr ∧
      (s.getDeletedStateObject b addr).2.snapDestructs = s.snapDestructs := by
  rw [StateDB.getDeletedStateObject, StateDB.getDeletedStateObject]
  rcases h.object addr with ⟨hs, hr⟩ | ⟨o, o', hs, hr, -⟩
  · rw [hs, hr]
    cases hread : readAccount b addr with
    | none => exact ⟨h, hs.symm, hr.symm, rfl⟩
    | some data =>
      have hload : ObjSim b addr (s.snapDestructs addr) (newObject data) (newObject data) := by
        refine ⟨rfl, rfl, rfl, fun _ => rfl, fun _ => settled_load data hread fun hflag => ?_⟩
        rcases h.flagged addr hflag with hbarren | ⟨hsome, -⟩
        · exact hbarren
        · rw [hs] at hsome
          cases hsome
      refine ⟨h.set hload, ?_, ?_, rfl⟩ <;> simp [setStateObject]
  · rw [hs, hr]
    exact ⟨h, hs.symm, hr.symm, rfl⟩

/-- Two live objects, or none. -/
lemma SimWith.getStateObject (addr : Address) :
    SimWith b log log' (s.getStateObject b addr).2 (r.getStateObject b addr).2 ∧
      (s.getStateObject b addr).2.snapDestructs = s.snapDestructs ∧
      ((s.getStateObject b addr).1 = none ∧ (r.getStateObject b addr).1 = none ∨
        ∃ o o', (s.getStateObject b addr).1 = some o ∧ (r.getStateObject b addr).1 = some o' ∧ o.deleted = false ∧
          ObjSim b addr (s.snapDestructs addr) o o') := by
  obtain ⟨hsim, hs, hr, hflags⟩ := h.getDeletedStateObject addr
  have hobj := hsim.objects addr
  rw [← hs, ← hr, hflags] at hobj
  rw [StateDB.getStateObject, StateDB.getStateObject]
  rcases hgs : s.getDeletedStateObject b addr with ⟨os, us⟩
  rcases hgr : r.getDeletedStateObject b addr with ⟨or, ur⟩
  rw [hgs] at hsim hobj hflags
  rw [hgr] at hsim hobj
  cases hobj with
  | none => exact ⟨hsim, hflags, .inl ⟨rfl, rfl⟩⟩
  | @some o o' hobj =>
    refine ⟨hsim, hflags, ?_⟩
    dsimp only
    rw [hobj.deleted]
    cases hdeleted : o.deleted with
    | true => exact .inl ⟨rfl, rfl⟩
    | false => exact .inr ⟨o, o', rfl, rfl, hdeleted, hobj⟩

end

/-! ## Entries -/

/-- The same entry on both sides, which marks nothing. -/
def JournalEntry.isCommon : JournalEntry → Bool
  | .resetObject _ _ _ => false
  | .createObject _ => false
  | _ => true

lemma entrySim_common (he : e.isCommon = true) (flags : Address → Bool) :
    EntrySim b flags e e ∧ undoFlags b flags e = flags := by
  cases e with
  | createObject account => cases he
  | resetObject account prev d => cases he
  | _ => exact ⟨rfl, rfl⟩

lemma entrySim_eq {e' : JournalEntry} {flags : Address → Bool} (he : e.isCommon = true) (h : EntrySim b flags e e') : e' = e := by
  cases e with
  | createObject account => cases he
  | resetObject account prev d => cases he
  | _ => exact h

lemma Sim.append (h : Sim b s r) (he : e.isCommon = true) : Sim b (s.append e) (r.append e) where
  __ := h
  journal := by
    obtain ⟨hentry, hflags⟩ := entrySim_common (b := b) he s.snapDestructs
    simp only [StateDB.append, Journal.append, reverse_append, reverse_singleton, singleton_append]
    exact ⟨hentry, by rw [hflags]; exact h.journal⟩
  rest := by
    conv_lhs => rw [h.rest]
    rfl

/-! ## Writes -/

/-- A change of an object that its storage at the root does not notice. -/
structure Write (b : Backend) (addr : Address) (f : StateObject → StateObject) : Prop where
  visible : ∃ g, Visible b.plain addr f g
  data : ∀ {o o'}, o'.data = o.data → (f o').data = (f o).data
  suicided : ∀ {o o'}, o'.suicided = o.suicided → (f o').suicided = (f o).suicided
  deleted : ∀ o, (f o).deleted = o.deleted
  settled : ∀ {d o}, Settled b addr d o → Settled b addr d (f o)

lemma write_setBalance (amount : Int) : Write b addr (·.setBalance amount) where
  visible := ⟨_, visible_setBalance amount⟩
  data hdata := by rw [StateObject.setBalance, StateObject.setBalance, hdata]
  suicided := id
  deleted _ := rfl
  settled := id

lemma write_setNonce (nonce : UInt64) : Write b addr (·.setNonce nonce) where
  visible := ⟨_, visible_setNonce nonce⟩
  data hdata := by rw [StateObject.setNonce, StateObject.setNonce, hdata]
  suicided := id
  deleted _ := rfl
  settled := id

lemma write_setState (key value : Hash) : Write b addr (·.setState key value) where
  visible := ⟨_, visible_setState key value⟩
  data := id
  suicided := id
  deleted _ := rfl
  settled := id

lemma write_setCode (codeHash : Hash) (code : Option (List UInt8)) : Write b addr (·.setCode codeHash code) where
  visible := ⟨_, visible_setCode codeHash code⟩
  data hdata := by rw [StateObject.setCode, StateObject.setCode, hdata]
  suicided := id
  deleted _ := rfl
  settled := id

lemma write_suicide (amount : Int) (flag : Bool) :
    Write b addr (fun o => { o.setBalance amount with suicided := flag }) where
  visible := ⟨_, visible_suicide amount flag⟩
  data hdata := by rw [StateObject.setBalance, StateObject.setBalance, hdata]
  suicided _ := rfl
  deleted _ := rfl
  settled := id

variable {d : Bool} {f : StateObject → StateObject} {flags : Address → Bool}

lemma ObjSim.map (h : ObjSim b addr d o o') (hf : Write b addr f) :
    ObjSim b addr d (f o) (f o') where
  data := hf.data h.data
  suicided := hf.suicided h.suicided
  deleted := by rw [hf.deleted, hf.deleted, h.deleted]
  shows hlive := by
    obtain ⟨g, hg⟩ := hf.visible
    exact hg.congr (h.shows (hf.deleted o ▸ hlive))
  settled hlive := hf.settled (h.settled (hf.deleted o ▸ hlive))

lemma ObjSim.empty (h : ObjSim b addr d o o') : o'.empty b = o.empty b := by
  rw [StateObject.empty, StateObject.empty, h.data]

lemma SimWith.modifyObject (h : SimWith b log log' s r) (hf : Write b addr f) (ht : s.modifyObject b addr f = some t) :
    ∃ t', r.modifyObject b addr f = some t' ∧ SimWith b log log' t t' := by
  obtain ⟨hsim, hflags, hget⟩ := h.getStateObject addr
  rw [StateDB.modifyObject] at ht ⊢
  rcases hs : s.getStateObject b addr with ⟨os, us⟩
  rcases hr : r.getStateObject b addr with ⟨or, ur⟩
  rw [hs] at hsim hget ht hflags
  rw [hr] at hsim hget
  rcases hget with ⟨rfl, -⟩ | ⟨o, o', rfl, rfl, -, hobj⟩
  · cases ht
  · cases ht
    refine ⟨_, rfl, hsim.set ?_⟩
    rw [hflags]
    exact hobj.map hf

lemma undoFlags_of_ne {account : Address} {prev : StateObject} {prevdestruct : Bool}
    (h : addr ≠ account) : undoFlags b flags (.resetObject account prev prevdestruct) addr = flags addr := by
  rw [undoFlags]
  split
  · rw [update_of_ne h]
  · rfl

/-- An entry that is the same on both sides. -/
lemma SimWith.revert (h : SimWith b log log' s r) (he : e.isCommon = true) (ht : e.revert b s = some t) :
    ∃ t', e.revert b r = some t' ∧ SimWith b log log' t t' := by
  cases e with
  | createObject account => cases he
  | resetObject account prev prevdestruct => cases he
  | suicide account prev prevbalance =>
    obtain ⟨hsim, hflags, hget⟩ := h.getStateObject account
    rw [JournalEntry.revert] at ht ⊢
    rcases hs : s.getStateObject b account with ⟨os, us⟩
    rcases hr : r.getStateObject b account with ⟨or, ur⟩
    rw [hs] at hsim hget ht hflags
    rw [hr] at hsim hget
    rcases hget with ⟨rfl, rfl⟩ | ⟨o, o', rfl, rfl, -, hobj⟩
    · cases ht
      exact ⟨ur, rfl, hsim⟩
    · cases ht
      refine ⟨_, rfl, hsim.set ?_⟩
      rw [hflags]
      exact hobj.map (write_suicide prevbalance prev)
  | balance account prev => exact h.modifyObject (write_setBalance prev) ht
  | nonce account prev => exact h.modifyObject (write_setNonce prev) ht
  | storage account key prevalue => exact h.modifyObject (write_setState key prevalue) ht
  | code account prevcode prevhash => exact h.modifyObject (write_setCode prevhash prevcode) ht
  | touch account =>
    cases ht
    exact ⟨r, rfl, h⟩
  | refund | addPreimage | accessListAddAccount =>
    cases ht
    exact ⟨_, rfl, { h with rest := by conv_lhs => rw [h.rest] }⟩
  | addLog txhash =>
    have hlogs : r.logs = s.logs := by rw [h.rest]
    rw [JournalEntry.revert] at ht ⊢
    rw [hlogs]
    split at ht
    · cases ht
    · next hlength =>
      cases ht
      rw [if_neg hlength]
      exact ⟨_, rfl, { h with rest := by conv_lhs => rw [h.rest] }⟩
  | accessListAddSlot address slot =>
    have haccess : r.accessList = s.accessList := by rw [h.rest]
    rw [JournalEntry.revert] at ht ⊢
    rw [haccess]
    split at ht
    · cases ht
      exact ⟨r, rfl, h⟩
    · obtain ⟨l', hl', rfl⟩ := map_eq_some_iff.1 ht
      exact ⟨_, map_eq_some_iff.2 ⟨l', hl', rfl⟩, { h with rest := by conv_lhs => rw [h.rest] }⟩

lemma SimWith.undo {e e' : JournalEntry} (h : SimWith b (e :: log) (e' :: log') s r)
    (ht : undo b e s = some t) : ∃ t', undo b e' r = some t' ∧ SimWith b log log' t t' := by
  obtain ⟨hentry, hjournal⟩ := h.journal
  suffices hrevert : ∀ u, e.revert b s = some u → ∃ u', e'.revert b r = some u' ∧ SimWith b log log' u u' ∧
      e'.dirtied = e.dirtied by
    obtain ⟨u, hu, rfl⟩ := map_eq_some_iff.1 ht
    obtain ⟨u', hu', hsim, hdirtied⟩ := hrevert u hu
    refine ⟨_, map_eq_some_iff.2 ⟨u', hu', rfl⟩, { hsim with rest := ?_ }⟩
    rw [hdirtied]
    conv_lhs => rw [hsim.rest]
  intro u hu
  by_cases he : e.isCommon = true
  · obtain ⟨-, hflags⟩ := entrySim_common (b := b) he s.snapDestructs
    rw [hflags] at hjournal
    obtain rfl := entrySim_eq he hentry
    obtain ⟨u', hu', hsim⟩ := SimWith.revert { h with journal := hjournal } he hu
    exact ⟨u', hu', hsim, rfl⟩
  cases e with
  | createObject account =>
    obtain ⟨rfl, hbarren⟩ := hentry
    cases hu
    refine ⟨_, rfl, ⟨fun addr => ?_, h.pool, fun addr hflag => ?_, hjournal, ?_⟩, rfl⟩
    · by_cases haddr : addr = account
      · subst haddr
        simp only [update_self]
        exact .none
      · simp only [update_of_ne haddr]
        exact h.objects addr
    · by_cases haddr : addr = account
      · subst haddr
        exact .inl hbarren
      · simp only [update_of_ne haddr]
        exact h.flagged addr hflag
    · conv_lhs => rw [h.rest]
  | resetObject account prev prevdestruct =>
    obtain ⟨hbarren, prev', rfl, hobj⟩ := hentry
    obtain ⟨hus, hur⟩ : u = { s.setStateObject account prev with
          snapDestructs := undoFlags b s.snapDestructs (.resetObject account prev prevdestruct) } ∧
        JournalEntry.revert b (.resetObject account prev' prevdestruct) r = some { r.setStateObject account prev' with
          snapDestructs := undoFlags b s.snapDestructs (.resetObject account prev prevdestruct) } := by
      rw [JournalEntry.revert] at hu ⊢
      rw [undoFlags]
      split at hu
      · next hreset =>
        cases hu
        rw [if_pos hreset, if_pos hreset, ← h.snapDestructs]
        exact ⟨by rw [h.snapDestructs]; rfl, rfl⟩
      · next hreset =>
        cases hu
        rw [if_neg hreset, if_neg hreset, ← h.snapDestructs]
        exact ⟨by rw [h.snapDestructs]; rfl, rfl⟩
    subst hus
    refine ⟨_, hur, ⟨fun addr => ?_, h.pool, fun addr hflag => ?_, hjournal, ?_⟩, rfl⟩
    · by_cases haddr : addr = account
      · subst haddr
        simp only [setStateObject, update_self]
        exact .some hobj
      · simp only [setStateObject, update_of_ne haddr, undoFlags_of_ne haddr]
        exact h.objects addr
    · by_cases haddr : addr = account
      · subst haddr
        exact .inl hbarren
      · simp only [setStateObject, update_of_ne haddr, undoFlags_of_ne haddr] at hflag ⊢
        exact h.flagged addr hflag
    · conv_lhs => rw [h.rest]
      rfl
  | _ => exact absurd rfl he

lemma SimWith.undoAll {es es' : List JournalEntry} (hlen : es.length = es'.length)
    (h : SimWith b (es ++ log) (es' ++ log') s r) (ht : Lib.undoAll (StateDB.undo b) es s = some t) :
    ∃ t', Lib.undoAll (StateDB.undo b) es' r = some t' ∧ SimWith b log log' t t' := by
  induction es generalizing es' s r with
  | nil =>
    obtain rfl := length_eq_zero_iff.1 hlen.symm
    cases ht
    exact ⟨r, rfl, h⟩
  | cons e es ih =>
    obtain ⟨e', es', rfl⟩ := exists_cons_of_length_eq_add_one hlen.symm
    obtain ⟨u, hu, ht⟩ := bind_eq_some_iff.1 ht
    obtain ⟨u', hu', hsim⟩ := h.undo hu
    obtain ⟨t', ht', hsim'⟩ := ih (Nat.succ_injective hlen) hsim ht
    exact ⟨t', by rw [Lib.undoAll, hu']; exact ht', hsim'⟩

lemma JournalSim.length (h : JournalSim b flags log log') : log.length = log'.length := by
  induction log generalizing flags log' with
  | nil =>
    cases log' with
    | nil => rfl
    | cons e' log' => exact h.elim
  | cons e log ih =>
    cases log' with
    | nil => exact h.elim
    | cons e' log' => rw [length_cons, length_cons, ih h.2]

lemma Sim.revertToSnapshot (h : Sim b s r) {revid : Nat} (ht : s.revertToSnapshot b revid = .ok t) :
    ∃ t', r.revertToSnapshot b revid = .ok t' ∧ Sim b t t' := by
  have hrevisions : r.validRevisions = s.validRevisions := by rw [h.rest]
  have hlen : s.journal.entries.length = r.journal.entries.length := by simpa using h.journal.length
  rw [StateDB.revertToSnapshot] at ht ⊢
  rw [hrevisions]
  split at ht
  · cases ht
  · next revision hrevision =>
    split at ht
    · cases ht
    · next hid =>
      rw [if_neg hid]
      split at ht
      · cases ht
      · next u hu =>
        cases ht
        obtain ⟨v, hv, rfl⟩ := map_eq_some_iff.1 hu
        have hsplit : ∀ (es : List JournalEntry) (n : Nat), es.reverse = (es.drop n).reverse ++ (es.take n).reverse := by
          intro es n
          rw [← reverse_append, take_append_drop]
        have hsim := h
        rw [Sim, hsplit s.journal.entries revision.journalIndex, hsplit r.journal.entries revision.journalIndex] at hsim
        obtain ⟨v', hv', hsim'⟩ := hsim.undoAll (by simp [hlen]) hv
        have hr : r.revertJournal b revision.journalIndex =
            some { v' with journal := { v'.journal with entries := r.journal.entries.take revision.journalIndex } } :=
          map_eq_some_iff.2 ⟨v', hv', rfl⟩
        rw [hr]
        refine ⟨_, rfl, hsim'.objects, hsim'.pool, hsim'.flagged, hsim'.journal, ?_⟩
        conv_lhs => rw [hsim'.rest]

end Sim

end TurboOctopus.State
