import TurboOctopus.State.Undo
/-!
# Every write can be undone

`Undoable` leads from a state to one after some writes: their entries lead back to a state
that reads like the first one. Reads change caches only. They may write to the shared pool,
but not to the map of an account whose old object is in the journal: `Safe` excludes the
states where that happens.
-/
namespace TurboOctopus.State

open Lib TurboOctopus.Types Function List StateDB AccessList

/-- A state that writes to a shared pool has a snapshot layer. -/
def Backend.Safe (b : Backend) : Prop := b.writeOnSharedStorage = true → b.storagePool = true → b.snap.isSome

/-- The slots of an address are there, and there is one. -/
def AccessList.WellFormed (l : AccessList) : Prop :=
  ∀ addr idx, l.addresses addr = some idx →
    idx = -1 ∨ ∃ i slotmap, idx = Int.ofNat i ∧ l.slots[i]? = some slotmap ∧ slotmap ≠ ∅

structure Inv (b : Backend) (s : StateDB) : Prop where
  flagged : ∀ addr o d, .resetObject addr o d ∈ s.journal.entries → b.snap.isSome → s.snapDestructs addr = true
  created : ∀ addr, .createObject addr ∈ s.journal.entries → StateDB.readAccount b addr = none
  access : s.accessList = none → ∀ e ∈ s.journal.entries, e.isAccess = false
  wellFormed : ∀ l, s.accessList = some l → l.WellFormed

/-- The states read alike, so the invariant of one is that of the other. -/
lemma Inv.of_same {b : Backend} {s t : StateDB} (h : Inv b s) (hsame : Same b s.journal.entries s t)
    (hentries : t.journal.entries = s.journal.entries) : Inv b t where
  flagged addr o d hmem hsnap := by
    rw [hentries] at hmem
    rw [hsame.snapDestructs]
    exact h.flagged addr o d hmem hsnap
  created addr hmem := h.created addr (hentries ▸ hmem)
  access hnone e he := by
    rw [hentries] at he
    rcases hsame.accessList with heq | ⟨-, hnew, -⟩
    · exact h.access (heq ▸ hnone) e he
    · rw [hnew] at hnone
      cases hnone
  wellFormed l hl := by
    rcases hsame.accessList with heq | ⟨-, hnew, -⟩
    · exact h.wellFormed l (heq ▸ hl)
    · rw [hnew, Option.some.injEq] at hl
      subst hl
      intro addr idx hidx
      cases hidx

lemma Inv.refl {b : Backend} {s : StateDB} (h : Inv b s) : Same b s.journal.entries s s where
  view _ := rfl
  snapDestructs := rfl
  shared _ _ _ _ := rfl
  created := h.created
  refund := rfl
  logs := rfl
  logSize := rfl
  preimages := rfl
  accessList := .inl rfl
  dirties _ _ := rfl

structure Undoable (b : Backend) (s s' : StateDB) : Prop where
  inv : Inv b s'
  validRevisions : s'.validRevisions = s.validRevisions
  nextRevisionId : s'.nextRevisionId = s.nextRevisionId
  restores : ∃ new, s'.journal.entries = s.journal.entries ++ new ∧
    Restores (StateDB.undo b) (Same b) s.journal.entries new s s'

section Undoable
variable {b : Backend} {s s' s'' t : StateDB} {addr : Address} {e : JournalEntry} {o : StateObject}

lemma Undoable.trans (h : Undoable b s s') (h' : Undoable b s' s'') : Undoable b s s'' where
  inv := h'.inv
  validRevisions := h'.validRevisions.trans h.validRevisions
  nextRevisionId := h'.nextRevisionId.trans h.nextRevisionId
  restores := by
    obtain ⟨new, hnew, hrestores⟩ := h.restores
    obtain ⟨new', hnew', hrestores'⟩ := h'.restores
    rw [hnew] at hnew' hrestores'
    exact ⟨new ++ new', by rw [hnew', append_assoc], hrestores.append (undoing b) hrestores'⟩

lemma Undoable.refl (h : Inv b s) : Undoable b s s :=
  ⟨h, rfl, rfl, [], by simp, s, rfl, h.refl⟩

/-! ## Caches -/

lemma undoable_unseen (h : Inv b s) (objects : Address → Option StateObject) (shared : Address → Storage)
    (hview : ∀ addr, view b { s with stateObjects := objects, shared := shared } addr = s.view b addr)
    (hshared : ∀ addr o d, .resetObject addr o d ∈ s.journal.entries → shared addr = s.shared addr) :
    Undoable b s { s with stateObjects := objects, shared := shared } := by
  have hsame : Same b s.journal.entries s { s with stateObjects := objects, shared := shared } :=
    { h.refl with view := hview, shared := hshared }
  exact ⟨h.of_same hsame rfl, rfl, rfl, [], by simp, _, rfl, hsame⟩

lemma undoable_getStateObject (h : Inv b s) (addr : Address) : Undoable b s (s.getStateObject b addr).2 := by
  obtain ⟨objects, heq, hview⟩ := getStateObject_view (b := b) s addr
  rw [heq]
  exact undoable_unseen h objects s.shared hview fun _ _ _ _ => rfl

lemma getStateObject_spec (h : Inv b s) (addr : Address) :
    ∃ u, s.getStateObject b addr = (live (s.find b addr), u) ∧ Undoable b s u ∧ u.find b addr = s.find b addr := by
  obtain ⟨hfst, hsnd⟩ := getStateObject_eq (b := b) s addr
  refine ⟨(s.getStateObject b addr).2, by rw [← hfst], undoable_getStateObject h addr, ?_⟩
  rcases hsnd with heq | ⟨o, ho, heq⟩
  · rw [heq]
  · rw [heq, find_setStateObject, if_pos rfl, ho]

lemma undoable_setStateObject (h : Inv b s) (ho : s.find b addr = some o) {o' : StateObject}
    (hview : o'.view b addr (s.snapDestructs addr) (s.shared addr) = o.view b addr (s.snapDestructs addr) (s.shared addr)) :
    Undoable b s (s.setStateObject addr o') := by
  refine undoable_unseen h _ s.shared (fun addr' => ?_) fun _ _ _ _ => rfl
  refine (view_setStateObject s addr addr' o').trans ?_
  split
  · next haddr => rw [haddr, hview, view, ho]; rfl
  · rfl

lemma undoable_readSlot (hsafe : b.Safe) (h : Inv b s) (ho : s.find b addr = some o) {r : Hash × StateObject × Storage}
    (hr : Cached b addr (s.snapDestructs addr) o (s.shared addr) r.2.1 r.2.2) : Undoable b s (s.readSlot addr r).2 := by
  refine undoable_unseen h _ _ (fun addr' => ?_) fun addr' o' d hmem => ?_
  · by_cases haddr : addr' = addr
    · subst haddr
      simp only [view, ho, Option.map_some]
      rw [← hr.view]
      simp [find, setStateObject]
    · simp [view, find, setStateObject, haddr]
  · by_cases haddr : addr' = addr
    · subst haddr
      rw [update_self]
      -- the old object is in the journal, so the account counts as destructed
      refine hr.shared fun hwrite hpool => ?_
      have hsnap := hsafe hwrite hpool
      exact ⟨hsnap, h.flagged addr' o' d hmem hsnap⟩
    · rw [update_of_ne haddr]

/-! ## One entry -/

lemma count_count (dirties : Address → Int) (account : Option Address) :
    Journal.count (Journal.count dirties 1 account) (-1) account = dirties := by
  cases account with
  | none => rfl
  | some addr =>
    funext addr'
    by_cases haddr : addr' = addr
    · subst haddr
      simp only [Journal.count, update_self]
      omega
    · simp [Journal.count, haddr]

/-- The entry leads back. The dirty accounts are counted up and down. -/
lemma undoable_entry (hinv : Inv b s') (hrev : s'.validRevisions = s.validRevisions)
    (hnext : s'.nextRevisionId = s.nextRevisionId) (hjournal : s'.journal = s.journal.append e)
    (hrevert : e.revert b s' = some t) (ht : t.journal = s'.journal)
    (hsame : Same b s.journal.entries s { t with journal := s.journal }) : Undoable b s s' := by
  refine ⟨hinv, hrev, hnext, [e], by rw [hjournal]; rfl, { t with journal := ⟨s'.journal.entries, s.journal.dirties⟩ }, ?_,
    { hsame with dirties := fun _ _ => rfl }⟩
  rw [reverse_singleton, undoAll, undo, hrevert, Option.map_some, ht, hjournal, Journal.append, count_count]
  rfl

/-- An entry that the invariant does not speak of. -/
def JournalEntry.isPlain : JournalEntry → Bool
  | createObject _ => false
  | resetObject _ _ _ => false
  | accessListAddAccount _ => false
  | accessListAddSlot _ _ => false
  | _ => true

/-- An entry is added, and what it needs holds. -/
lemma Inv.push (h : Inv b s) (hentries : s'.journal.entries = s.journal.entries ++ [e])
    (hdestructs : ∀ addr, s.snapDestructs addr = true → s'.snapDestructs addr = true)
    (hreset : ∀ addr o d, .resetObject addr o d = e → b.snap.isSome → s'.snapDestructs addr = true)
    (hcreate : ∀ addr, .createObject addr = e → readAccount b addr = none)
    (haccess : s'.accessList = none → s.accessList = none ∧ e.isAccess = false)
    (hwell : ∀ l, s'.accessList = some l → l.WellFormed) : Inv b s' where
  flagged addr o d hmem hsnap := by
    rw [hentries, mem_append, mem_singleton] at hmem
    exact hmem.elim (fun hmem => hdestructs addr (h.flagged addr o d hmem hsnap)) fun he => hreset addr o d he hsnap
  created addr hmem := by
    rw [hentries, mem_append, mem_singleton] at hmem
    exact hmem.elim (h.created addr) (hcreate addr)
  access hnone e' hmem := by
    rw [hentries, mem_append, mem_singleton] at hmem
    obtain ⟨hnone, he⟩ := haccess hnone
    rcases hmem with hmem | rfl
    · exact h.access hnone e' hmem
    · exact he
  wellFormed := hwell

lemma Inv.append (h : Inv b s) (hentries : s'.journal.entries = s.journal.entries ++ [e]) (he : e.isPlain = true)
    (hdestructs : s'.snapDestructs = s.snapDestructs) (haccess : s'.accessList = s.accessList) : Inv b s' := by
  refine h.push hentries (fun _ hd => hdestructs ▸ hd) ?_ ?_ (fun hnone => ⟨haccess ▸ hnone, ?_⟩) fun l hl =>
    h.wellFormed l (haccess ▸ hl)
  · rintro _ _ _ rfl
    cases he
  · rintro _ rfl
    cases he
  · cases e <;> first | rfl | cases he

/-- A write of a live object, whose entry puts back what is seen. -/
lemma undoable_modify (h : Inv b s) (ho : live (s.find b addr) = some o) (f f' : StateObject → StateObject)
    (he : e.isPlain = true) (hlive : (f o).deleted = false)
    (hrevert : ∀ u o', live (u.find b addr) = some o' → e.revert b u = some (u.setStateObject addr (f' o')))
    (hview : (f' (f o)).view b addr (s.snapDestructs addr) (s.shared addr) =
      o.view b addr (s.snapDestructs addr) (s.shared addr)) :
    Undoable b s ((s.append e).setStateObject addr (f o)) := by
  have hfind : live (((s.append e).setStateObject addr (f o)).find b addr) = some (f o) := by
    rw [find_setStateObject, if_pos rfl, live, Option.filter, hlive]
    rfl
  refine undoable_entry (h.append rfl he rfl rfl) rfl rfl rfl (hrevert _ _ hfind) rfl ?_
  have hobjects : { ((s.append e).setStateObject addr (f o)).setStateObject addr (f' (f o)) with journal := s.journal } =
      s.setStateObject addr (f' (f o)) := by
    simp [setStateObject, append]
  rw [hobjects]
  refine { h.refl with view := fun addr' => (view_setStateObject s addr addr' _).trans ?_ }
  split
  · next haddr =>
    rw [haddr, hview, view, (live_eq_some ho).1]
    rfl
  · rfl

lemma revert_modify {f' : StateObject → StateObject} (hrevert : ∀ u : StateDB, e.revert b u = u.modifyObject b addr f') (u : StateDB)
    (o' : StateObject) (ho' : live (u.find b addr) = some o') : e.revert b u = some (u.setStateObject addr (f' o')) := by
  rw [hrevert, modifyObject_eq, ho']
  rfl

lemma undoable_objectSetBalance (h : Inv b s) (ho : live (s.find b addr) = some o) (amount : Int) :
    Undoable b s (s.objectSetBalance addr o amount) :=
  undoable_modify h ho (·.setBalance amount) (·.setBalance o.data.balance) rfl (live_eq_some ho).2
    (revert_modify fun _ => rfl) rfl

lemma undoable_setNonce (h : Inv b s) (ho : live (s.find b addr) = some o) (nonce : UInt64) :
    Undoable b s ((s.append (.nonce addr o.data.nonce)).setStateObject addr (o.setNonce nonce)) :=
  undoable_modify h ho (·.setNonce nonce) (·.setNonce o.data.nonce) rfl (live_eq_some ho).2
    (revert_modify fun _ => rfl) rfl

/-- The code of the entry is the one that was read. -/
lemma undoable_setCode (h : Inv b s) (ho : live (s.find b addr) = some o) (codeHash : Hash) (code : Option (List UInt8)) :
    Undoable b s ((s.append (.code addr (o.getCode b addr).1 o.data.codeHash)).setStateObject addr (o.setCode codeHash code)) := by
  refine undoable_modify h ho (·.setCode codeHash code) (·.setCode o.data.codeHash (o.getCode b addr).1) rfl
    (live_eq_some ho).2 (revert_modify fun _ => rfl) ?_
  have hcode : codeView b addr o.data.codeHash (o.getCode b addr).1 = codeView b addr o.data.codeHash o.code := by
    rw [getCode_fst, codeView, codeView]
    cases o.code with
    | some code => rfl
    | none => split <;> simp
  rw [view_setCode, view_setCode, hcode, view_eq]

lemma undoable_setState (h : Inv b s) (ho : live (s.find b addr) = some o) (key value : Hash) {prev : Hash}
    (hprev : (o.view b addr (s.snapDestructs addr) (s.shared addr)).state key = prev) :
    Undoable b s ((s.append (.storage addr key prev)).setStateObject addr (o.setState key value)) := by
  refine undoable_modify h ho (·.setState key value) (·.setState key prev) rfl
    (live_eq_some ho).2 (revert_modify fun _ => rfl) ?_
  rw [view_setState, view_setState]
  simp [← hprev]

lemma undoable_suicide (h : Inv b s) (ho : live (s.find b addr) = some o) :
    Undoable b s ((s.append (.suicide addr o.suicided o.data.balance)).setStateObject addr
      { o.setBalance 0 with suicided := true }) := by
  refine undoable_modify h ho (fun o => { o.setBalance 0 with suicided := true })
    (fun o' => { o'.setBalance o.data.balance with suicided := o.suicided }) rfl (live_eq_some ho).2
    (fun u o' ho' => ?_) rfl
  rw [revert_suicide, ho']

/-! ## Objects that are created -/

lemma getDeletedStateObject_find (h : Inv b s) (addr : Address) :
    ∃ u, s.getDeletedStateObject b addr = (s.find b addr, u) ∧ Undoable b s u ∧ u.find b addr = s.find b addr := by
  obtain ⟨hfst, hsnd⟩ := getDeletedStateObject_eq (b := b) s addr
  refine ⟨(s.getDeletedStateObject b addr).2, by rw [← hfst], ?_⟩
  rcases hsnd with heq | ⟨o, ho, heq⟩
  · rw [heq]
    exact ⟨.refl h, rfl⟩
  · rw [heq]
    exact ⟨undoable_setStateObject h ho rfl, by rw [find_setStateObject, if_pos rfl, ho]⟩

lemma undoable_create (h : Inv b s) (hfind : s.find b addr = none) (o : StateObject) :
    Undoable b s ((s.append (.createObject addr)).setStateObject addr o) := by
  obtain ⟨hobject, hread⟩ : s.stateObjects addr = none ∧ readAccount b addr = none := by
    simpa [find] using hfind
  have hinv : Inv b ((s.append (.createObject addr)).setStateObject addr o) := by
    refine h.push rfl (fun _ => id) ?_ ?_ (fun hnone => ⟨hnone, rfl⟩) h.wellFormed
    · rintro _ _ _ ⟨⟩
    · rintro _ ⟨⟩
      exact hread
  refine undoable_entry hinv rfl rfl rfl rfl rfl ?_
  have hobjects : update (update s.stateObjects addr (some o)) addr none = s.stateObjects := by
    rw [update_idem, ← hobject, update_eq_self]
  refine { h.refl with view := fun addr' => ?_ }
  simp only [view, find, setStateObject, append, hobjects]

/-- The old object is kept in the entry, and with a layer the account counts as destructed. -/
lemma Inv.reset (h : Inv b s) (addr : Address) (prev o : StateObject) (d : Bool) {destructs : Address → Bool}
    (hflag : b.snap.isSome → destructs addr = true) (hdestructs : ∀ addr', s.snapDestructs addr' = true → destructs addr' = true) :
    Inv b (({ s with snapDestructs := destructs }.append (.resetObject addr prev d)).setStateObject addr o) := by
  refine h.push rfl hdestructs ?_ ?_ (fun hnone => ⟨hnone, rfl⟩) h.wellFormed
  · rintro _ _ _ ⟨⟩
    exact hflag
  · rintro _ ⟨⟩

variable {l : AccessList} {prev : StateObject} {slot : Hash}

lemma revert_reset_kept {d : Bool} (h : ¬ (d = false ∧ b.snap.isSome)) (u : StateDB) :
    (JournalEntry.resetObject addr prev d).revert b u = some (u.setStateObject addr prev) := by
  rw [JournalEntry.revert, if_neg h]

lemma undoable_reset (h : Inv b s) (hfind : s.find b addr = some prev) (o : StateObject) :
    Undoable b s (((if b.snap.isSome then { s with snapDestructs := update s.snapDestructs addr true } else s).append
      (.resetObject addr prev (b.snap.isSome && s.snapDestructs addr))).setStateObject addr o) := by
  have hback : Same b s.journal.entries s (s.setStateObject addr prev) :=
    { h.refl with
      view := fun addr' => by
        rw [view_setStateObject]
        split
        · next haddr =>
          rw [haddr, view, hfind]
          rfl
        · rfl }
  by_cases hsnap : b.snap.isSome = true
  · rw [if_pos hsnap, hsnap, Bool.true_and]
    have hinv := h.reset addr prev o (s.snapDestructs addr) (fun _ => update_self addr true s.snapDestructs)
      fun addr' hd => by
        by_cases haddr : addr' = addr
        · rw [haddr, update_self]
        · rwa [update_of_ne haddr]
    cases hd : s.snapDestructs addr with
    | false =>
      rw [hd] at hinv
      refine undoable_entry hinv rfl rfl rfl (if_pos ⟨rfl, hsnap⟩) rfl ?_
      simp only [setStateObject, append, update_idem] at hback ⊢
      rw [← hd, update_eq_self]
      exact hback
    | true =>
      rw [hd] at hinv
      refine undoable_entry hinv rfl rfl rfl (revert_reset_kept (by simp) _) rfl ?_
      simp only [setStateObject, append, update_idem] at hback ⊢
      rw [← hd, update_eq_self]
      exact hback
  · have hinv := h.reset addr prev o false (fun hs => absurd hs hsnap) fun _ => id
    rw [if_neg hsnap, Bool.eq_false_iff.2 hsnap, Bool.false_and]
    refine undoable_entry hinv rfl rfl rfl (revert_reset_kept (fun hs => hsnap hs.2) _) rfl ?_
    simp only [setStateObject, append, update_idem] at hback ⊢
    exact hback

/-- The new object is in place, and an object that was there can be put back. -/
lemma undoable_createObject (h : Inv b s) (addr : Address) : Undoable b s (s.createObject b addr).2.2 ∧
      (s.createObject b addr).2.2.find b addr = some (s.createObject b addr).1 ∧ (s.createObject b addr).1.deleted =
      false := by
  obtain ⟨u, hget, hu, hfind⟩ := getDeletedStateObject_find h addr
  rw [createObject, hget]
  cases hs : s.find b addr with
  | none =>
    refine ⟨hu.trans (undoable_create hu.inv (hfind.trans hs) _), ?_, rfl⟩
    rw [find_setStateObject, if_pos rfl]
  | some prev =>
    refine ⟨hu.trans (undoable_reset hu.inv (hfind.trans hs) _), ?_, rfl⟩
    rw [find_setStateObject, if_pos rfl]

lemma undoable_createAccount (h : Inv b s) (addr : Address) : Undoable b s (s.createAccount b addr) := by
  obtain ⟨u, hget, hu, hfind⟩ := getDeletedStateObject_find h addr
  rw [createAccount, createObject, hget]
  cases hs : s.find b addr with
  | none => exact hu.trans (undoable_create hu.inv (hfind.trans hs) _)
  | some prev =>
    dsimp only
    split
    · -- the balance is carried over to the new object, without an entry
      next prev' _ =>
      have hreset := undoable_reset hu.inv (hfind.trans hs) ((newObject b.freshAccount).setBalance prev'.data.balance)
      have hset : ∀ (v : StateDB) (x y : StateObject), (v.setStateObject addr x).setStateObject addr y = v.setStateObject addr y :=
        fun v x y => by simp [setStateObject]
      rw [hset]
      exact hu.trans hreset
    · exact hu.trans (undoable_reset hu.inv (hfind.trans hs) _)

lemma undoable_getOrNewStateObject (h : Inv b s) (addr : Address) : Undoable b s (s.getOrNewStateObject b addr).2 ∧
      live ((s.getOrNewStateObject b addr).2.find b addr) = some (s.getOrNewStateObject b addr).1 := by
  obtain ⟨u, hget, hload, hfind⟩ := getStateObject_spec h addr
  rw [getOrNewStateObject, hget]
  cases ho : live (s.find b addr) with
  | none =>
    obtain ⟨hcreate, hnew, hlive⟩ := undoable_createObject hload.inv addr
    refine ⟨hload.trans hcreate, ?_⟩
    rw [hnew, live, Option.filter, hlive]
    rfl
  | some o => exact ⟨hload, by rw [hfind, ho]⟩

lemma undoable_touch (h : Inv b s) (addr : Address) : Undoable b s (s.touch addr) := by
  have happend : Undoable b s (s.append (.touch addr)) :=
    undoable_entry (h.append rfl rfl rfl rfl) rfl rfl rfl rfl rfl h.refl
  rw [touch]
  by_cases haddr : addr = ripemd
  · -- counted twice, and only here
    rw [if_pos haddr]
    have hinv := happend.inv
    refine happend.trans ⟨{ hinv with }, rfl, rfl, [], by simp, _, rfl, ?_⟩
    refine { hinv.refl with dirties := fun addr' hne => ?_ }
    rw [haddr]
    exact update_of_ne hne ..
  · rw [if_neg haddr]
    exact happend

/-! ## Other values -/

lemma undoable_refund (h : Inv b s) (refund : UInt64) :
    Undoable b s { s.append (.refund s.refund) with refund := refund } :=
  undoable_entry (e := .refund s.refund) (h.append rfl rfl rfl rfl) rfl rfl rfl rfl rfl { h.refl with }

lemma undoable_addPreimage (h : Inv b s) (hash : Hash) (preimage : List UInt8) :
    Undoable b s (s.addPreimage hash preimage) := by
  rw [addPreimage]
  cases hnone : s.preimages hash with
  | some _ => exact .refl h
  | none =>
    refine undoable_entry (e := .addPreimage hash) (h.append rfl rfl rfl rfl) rfl rfl rfl rfl rfl
      { h.refl with preimages := ?_ }
    rw [update_idem, ← hnone, update_eq_self]

lemma undoable_addLog (h : Inv b s) (log : Log) : Undoable b s (s.addLog log) := by
  have hrevert : (JournalEntry.addLog s.thash).revert b (s.addLog log) = some (s.append (.addLog s.thash)) := by
    rw [JournalEntry.revert, addLog]
    simp [append]
  exact undoable_entry (h.append rfl rfl rfl rfl) rfl rfl rfl hrevert rfl { h.refl with }

/-! ## The access list -/

lemma AccessList.new_wellFormed : new.WellFormed := by
  intro addr idx hidx
  cases hidx

lemma Inv.accessList (h : Inv b s) : (s.accessList.getD .new).WellFormed := by
  cases hl : s.accessList with
  | none => exact new_wellFormed
  | some l => exact h.wellFormed l hl

/-- The list is made before it is written to. -/
lemma same_accessList (h : Inv b s) : Same b s.journal.entries s { s with accessList := some (s.accessList.getD .new) } := by
  refine { h.refl with accessList := ?_ }
  cases hl : s.accessList with
  | none => exact .inr ⟨rfl, rfl, h.access hl⟩
  | some l => exact .inl rfl

/-- An addition whose entry takes it away. -/
lemma undoable_access (h : Inv b s) (hl : l.WellFormed) (he : e.isAccess = true)
    (hrevert : ∀ u : StateDB, u.accessList = some l →
      e.revert b u = some { u with accessList := some (s.accessList.getD .new) }) :
    Undoable b s ({ s with accessList := some l }.append e) := by
  have hinv : Inv b ({ s with accessList := some l }.append e) := by
    refine h.push rfl (fun _ => id) ?_ ?_ nofun fun l' hl' => Option.some.inj hl' ▸ hl
    · rintro _ _ _ rfl
      cases he
    · rintro _ rfl
      cases he
  exact undoable_entry hinv rfl rfl rfl (hrevert _ rfl) rfl (same_accessList h)

lemma undoable_accessList (h : Inv b s) : Undoable b s { s with accessList := some (s.accessList.getD .new) } :=
  ⟨h.of_same (same_accessList h) rfl, rfl, rfl, [], by simp, _, rfl, same_accessList h⟩

lemma undoable_addAccount (h : Inv b s) (hnone : (s.accessList.getD .new).addresses addr = none) :
    Undoable b s ({ s with accessList := some { s.accessList.getD .new with
      addresses := update (s.accessList.getD .new).addresses addr (some (-1)) } }.append (.accessListAddAccount addr)) := by
  refine undoable_access h (fun addr' idx hidx => ?_) rfl fun u hu => ?_
  · by_cases haddr : addr' = addr
    · subst haddr
      simp only [update_self, Option.some.injEq] at hidx
      exact .inl hidx.symm
    · simp only [update_of_ne haddr] at hidx
      exact h.accessList addr' idx hidx
  · rw [JournalEntry.revert, hu]
    simp only [Option.map_some, deleteAddress, update_idem]
    rw [← hnone, update_eq_self]

lemma undoable_addAddressToAccessList (h : Inv b s) (addr : Address) : Undoable b s (s.addAddressToAccessList addr) := by
  rw [addAddressToAccessList, addAddress]
  cases hidx : (s.accessList.getD .new).addresses addr with
  | some _ => exact undoable_accessList h
  | none => exact undoable_addAccount h hidx

/-- The map of the last address that got one. -/
lemma deleteSlot_newSlots (hidx : l.addresses addr = some (-1)) (slot : Hash) :
    (l.newSlots addr slot).deleteSlot addr slot = some l := by
  have hback : update (update l.addresses addr (some (l.slots.length : Int))) addr (some (-1)) = l.addresses := by
    rw [update_idem, ← hidx, update_eq_self]
  simp [deleteSlot, newSlots, hback]

lemma AccessList.WellFormed.newSlots (h : l.WellFormed) (addr : Address) (slot : Hash) :
    (l.newSlots addr slot).WellFormed := by
  intro addr' idx hidx
  by_cases haddr : addr' = addr
  · subst haddr
    simp only [AccessList.newSlots, update_self, Option.some.injEq] at hidx
    exact .inr ⟨l.slots.length, {slot}, hidx.symm, by simp [AccessList.newSlots], by simp⟩
  · simp only [AccessList.newSlots, update_of_ne haddr] at hidx
    rcases h addr' idx hidx with hno | ⟨i, slotmap, hi, hslots, hne⟩
    · exact .inl hno
    · refine .inr ⟨i, slotmap, hi, ?_, hne⟩
      rw [AccessList.newSlots, List.getElem?_append_left (List.getElem?_eq_some_iff.1 hslots).1]
      exact hslots

lemma deleteSlot_insert {i : Nat} {slotmap : Finset Hash} (hidx : l.addresses addr = some (i : Int))
    (hslots : l.slots[i]? = some slotmap) (hne : slotmap ≠ ∅) (hslot : slot ∉ slotmap) :
    deleteSlot { l with slots := l.slots.modify i (insert slot ·) } addr slot = some l := by
  obtain ⟨hlt, hget⟩ := List.getElem?_eq_some_iff.1 hslots
  have hset : (l.slots.modify i (insert slot ·)).set i slotmap = l.slots := by
    apply ext_getElem?
    intro j
    by_cases hj : i = j
    · subst hj
      simp [hlt, hget]
    · simp [hj]
  rw [deleteSlot, hidx]
  simp [hlt, hget, Finset.erase_eq_of_notMem hslot, hne, hset]

lemma AccessList.WellFormed.modify (h : l.WellFormed) (i : Nat) (slot : Hash) :
    AccessList.WellFormed { l with slots := l.slots.modify i (insert slot ·) } := by
  intro addr idx hidx
  rcases h addr idx hidx with hno | ⟨j, slotmap, hj, hslots, hne⟩
  · exact .inl hno
  · by_cases hij : i = j
    · subst hij
      exact .inr ⟨i, insert slot slotmap, hj, by simp [hslots], Finset.insert_ne_empty slot slotmap⟩
    · exact .inr ⟨j, slotmap, hj, by simp [hij, hslots], hne⟩

lemma revert_addSlot {l' : AccessList} (hdelete : l.deleteSlot addr slot = some l') (u : StateDB)
    (hu : u.accessList = some l) :
    (JournalEntry.accessListAddSlot addr slot).revert b u = some { u with accessList := some l' } := by
  rw [JournalEntry.revert, hu]
  dsimp only
  rw [hdelete]
  rfl

lemma undoable_newSlots (h : Inv b s) (hidx : (s.accessList.getD .new).addresses addr = some (-1)) (slot : Hash) :
    Undoable b s ({ s with accessList := some ((s.accessList.getD .new).newSlots addr slot) }.append
      (.accessListAddSlot addr slot)) :=
  undoable_access h (h.accessList.newSlots addr slot) rfl (revert_addSlot (deleteSlot_newSlots hidx slot))

lemma undoable_addSlotToAccessList (h : Inv b s) (addr : Address) (slot : Hash) :
    Undoable b s (s.addSlotToAccessList addr slot) := by
  rw [addSlotToAccessList, addSlot]
  cases hidx : (s.accessList.getD .new).addresses addr with
  | none =>
    -- the address first, and then its first slot
    have haccount := undoable_addAccount h hidx
    refine haccount.trans ?_
    have hslots := undoable_newSlots (s := _) haccount.inv (update_self addr _ _) slot
    simpa [append, newSlots] using hslots
  | some idx =>
    dsimp only
    by_cases hno : idx = -1
    · rw [if_pos hno]
      exact undoable_newSlots h (by rw [hidx, hno]) slot
    · rw [if_neg hno]
      split
      · exact undoable_accessList h
      · next hslot =>
        obtain hno' | ⟨i, slotmap, rfl, hslots, hne⟩ := h.accessList addr idx hidx
        · exact absurd hno' hno
        · have hmem : slot ∉ slotmap := by simpa [getD_eq_getElem?_getD, hslots] using hslot
          exact undoable_access h (h.accessList.modify i slot) rfl
            (revert_addSlot (deleteSlot_insert hidx hslots hne hmem))

/-! ## Every operation -/

lemma undoable_setCodeOp (h : Inv b s) (addr : Address) (code : Option (List UInt8)) :
    Undoable b s (s.setCode b addr code) := by
  obtain ⟨hnew, ho⟩ := undoable_getOrNewStateObject h addr
  rw [setCode]
  rcases hget : s.getOrNewStateObject b addr with ⟨o, u⟩
  rw [hget] at hnew ho
  -- the code is loaded before it is replaced
  have hload := undoable_setStateObject hnew.inv (live_eq_some ho).1 (view_getCode o (u.snapDestructs addr) (u.shared addr))
  have hdata : (o.getCode b addr).2.data = o.data ∧ (o.getCode b addr).2.deleted = o.deleted ∧
      ((o.getCode b addr).2.getCode b addr).1 = (o.getCode b addr).1 := by
    have hview : (o.getCode b addr).2.view b addr false (fun _ => none) = o.view b addr false fun _ => none :=
      view_getCode o false _
    refine ⟨?_, congrArg ObjectView.deleted hview, congrArg ObjectView.code hview⟩
    rw [StateObject.getCode]
    split
    · rfl
    · dsimp only
      split <;> rfl
  have ho' : live ((u.setStateObject addr (o.getCode b addr).2).find b addr) = some (o.getCode b addr).2 := by
    rw [find_setStateObject, if_pos rfl, live, Option.filter, hdata.2.1, (live_eq_some ho).2]
    rfl
  have hset := undoable_setCode hload.inv ho' (b.crypto.keccak256 (code.getD [])) code
  rw [hdata.2.2] at hset
  exact hnew.trans (hload.trans hset)

lemma undoable_setStateOp (hsafe : b.Safe) (h : Inv b s) (addr : Address) (key value : Hash) :
    Undoable b s (s.setState b addr key value) := by
  obtain ⟨hnew, ho⟩ := undoable_getOrNewStateObject h addr
  rw [setState]
  rcases hget : s.getOrNewStateObject b addr with ⟨o, u⟩
  rw [hget] at hnew ho
  dsimp only at hnew ho ⊢
  have hcached : Cached b addr (u.snapDestructs addr) o (u.shared addr) _ _ := getState_cached o _ _ key
  have hread := undoable_readSlot hsafe hnew.inv (live_eq_some ho).1 hcached
  split
  · exact hnew.trans hread
  · refine hnew.trans (hread.trans (undoable_setState hread.inv ?_ key value ?_))
    · have hdeleted := hcached.deleted.trans (live_eq_some ho).2
      simp [readSlot, find, setStateObject, live, Option.filter, hdeleted]
    · have hview := congrArg (fun v => ObjectView.state v key) hcached.view
      simp only [readSlot, setStateObject, update_self]
      exact hview

lemma undoable_getCode (h : Inv b s) (addr : Address) : Undoable b s (s.getCode b addr).2 := by
  obtain ⟨u, hget, hload, hfind⟩ := getStateObject_spec h addr
  rw [getCode, hget]
  cases ho : live (s.find b addr) with
  | none => exact hload
  | some o => exact hload.trans (undoable_setStateObject hload.inv (hfind.trans (live_eq_some ho).1) (view_getCode o _ _))

lemma undoable_readSlots (hsafe : b.Safe) (h : Inv b s) (addr : Address) (key : Hash) :
    Undoable b s (s.getState b addr key).2 ∧ Undoable b s (s.getCommittedState b addr key).2 := by
  obtain ⟨u, hget, hload, hfind⟩ := getStateObject_spec h addr
  rw [getState, getCommittedState, hget]
  cases ho : live (s.find b addr) with
  | none => exact ⟨hload, hload⟩
  | some o =>
    have hfound := hfind.trans (live_eq_some ho).1
    exact ⟨hload.trans (undoable_readSlot hsafe hload.inv hfound (getState_cached o _ _ key)),
      hload.trans (undoable_readSlot hsafe hload.inv hfound (getCommittedState_spec o _ _ key).2)⟩

lemma undoable_suicideOp (h : Inv b s) (addr : Address) : Undoable b s (s.suicide b addr) := by
  obtain ⟨u, hget, hload, hfind⟩ := getStateObject_spec h addr
  rw [suicide, hget]
  cases ho : live (s.find b addr) with
  | none => exact hload
  | some o => exact hload.trans (undoable_suicide hload.inv (by rw [hfind, ho]))

/-- A write of the balance after the object is there. -/
lemma undoable_withObject (h : Inv b s) (addr : Address) {f : StateObject → StateDB → StateDB}
    (hf : ∀ o u, Inv b u → live (u.find b addr) = some o → Undoable b u (f o u)) :
    Undoable b s (f (s.getOrNewStateObject b addr).1 (s.getOrNewStateObject b addr).2) := by
  obtain ⟨hnew, ho⟩ := undoable_getOrNewStateObject h addr
  exact hnew.trans (hf _ _ hnew.inv ho)

/-- The operations other than snapshots and reverts. -/
def Op.isState : Op → Bool
  | .snapshot => false
  | .revertToSnapshot _ => false
  | _ => true

lemma Op.undoable (hsafe : b.Safe) (h : Inv b s) {op : Op} (hop : op.isState = true) (hs : op.apply b s = .ok s') :
    Undoable b s s' := by
  cases op
  case snapshot => cases hop
  case revertToSnapshot revid => cases hop
  case subRefund gas =>
    rw [Op.apply, StateDB.subRefund] at hs
    split at hs
    · cases hs
    · cases hs
      exact undoable_refund h _
  all_goals cases hs
  case addRefund gas => exact undoable_refund h _
  case getObject addr => exact undoable_getStateObject h addr
  case getCode addr => exact undoable_getCode h addr
  case getState addr key => exact (undoable_readSlots hsafe h addr key).1
  case getCommittedState addr key => exact (undoable_readSlots hsafe h addr key).2
  case createAccount addr => exact undoable_createAccount h addr
  case addBalance addr amount =>
    refine undoable_withObject (f := fun o u => if amount = 0 then if o.empty b then u.touch addr else u
      else u.objectSetBalance addr o (o.data.balance + amount)) h addr fun o u hu ho => ?_
    split
    · split
      · exact undoable_touch hu addr
      · exact .refl hu
    · exact undoable_objectSetBalance hu ho _
  case subBalance addr amount =>
    refine undoable_withObject (f := fun o u => if amount = 0 then u
      else u.objectSetBalance addr o (o.data.balance - amount)) h addr fun o u hu ho => ?_
    split
    · exact .refl hu
    · exact undoable_objectSetBalance hu ho _
  case setBalance addr amount =>
    exact undoable_withObject (f := fun o u => u.objectSetBalance addr o amount) h addr fun o u hu ho =>
      undoable_objectSetBalance hu ho amount
  case setNonce addr nonce =>
    exact undoable_withObject (f := fun o u => (u.append (.nonce addr o.data.nonce)).setStateObject addr (o.setNonce nonce)) h
      addr fun o u hu ho => undoable_setNonce hu ho nonce
  case setCode addr code => exact undoable_setCodeOp h addr code
  case setState addr key value => exact undoable_setStateOp hsafe h addr key value
  case suicide addr => exact undoable_suicideOp h addr
  case addLog log => exact undoable_addLog h log
  case addPreimage hash preimage => exact undoable_addPreimage h hash preimage
  case addAddressToAccessList addr => exact undoable_addAddressToAccessList h addr
  case addSlotToAccessList addr slot => exact undoable_addSlotToAccessList h addr slot

end Undoable

end TurboOctopus.State
