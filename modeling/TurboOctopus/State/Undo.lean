import TurboOctopus.State.StateDB
/-!
# Undoing the journal

`Same` relates the states that read alike, now and after any entries of the journal are
undone: caches may differ, but not the pool of an account whose old object is in the journal.
-/
namespace TurboOctopus.State

open Lib TurboOctopus.Types Option JournalEntry

namespace StateDB

variable (b : Backend)

/-- The object that a read of the account gets, loaded or not. -/
def find (s : StateDB) (addr : Address) : Option StateObject :=
  s.stateObjects addr <|> (readAccount b addr).map newObject

/-- What reads of an account answer. -/
def view (s : StateDB) (addr : Address) : Option ObjectView :=
  (s.find b addr).map (·.view b addr (s.snapDestructs addr) (s.shared addr))

end StateDB

def JournalEntry.isAccess : JournalEntry → Bool
  | accessListAddAccount _ => true
  | accessListAddSlot _ _ => true
  | _ => false

structure Same (b : Backend) (log : List JournalEntry) (s s' : StateDB) : Prop where
  view : ∀ addr, s'.view b addr = s.view b addr
  snapDestructs : s'.snapDestructs = s.snapDestructs
  shared : ∀ addr o d, .resetObject addr o d ∈ log → s'.shared addr = s.shared addr
  created : ∀ addr, .createObject addr ∈ log → StateDB.readAccount b addr = none
  refund : s'.refund = s.refund
  logs : s'.logs = s.logs
  logSize : s'.logSize = s.logSize
  preimages : s'.preimages = s.preimages
  accessList : s'.accessList = s.accessList ∨
    s.accessList = none ∧ s'.accessList = some .new ∧ ∀ e ∈ log, e.isAccess = false
  dirties : ∀ addr, addr ≠ ripemd → s'.journal.dirties addr = s.journal.dirties addr

section Same
variable {b : Backend} {log : List JournalEntry} {s s' s'' t : StateDB} {addr : Address} {e : JournalEntry}

lemma Same.trans (h : Same b log s s') (h' : Same b log s' s'') : Same b log s s'' where
  view addr := (h'.view addr).trans (h.view addr)
  snapDestructs := h'.snapDestructs.trans h.snapDestructs
  shared addr o d hmem := (h'.shared addr o d hmem).trans (h.shared addr o d hmem)
  created := h.created
  refund := h'.refund.trans h.refund
  logs := h'.logs.trans h.logs
  logSize := h'.logSize.trans h.logSize
  preimages := h'.preimages.trans h.preimages
  accessList := by
    rcases h.accessList with heq | ⟨hnone, hnew, hlog⟩
    · rcases h'.accessList with heq' | ⟨hnone', hnew', hlog'⟩
      · exact .inl (heq'.trans heq)
      · exact .inr ⟨heq ▸ hnone', hnew', hlog'⟩
    · rcases h'.accessList with heq' | ⟨hnone', -⟩
      · exact .inr ⟨hnone, heq'.trans hnew, hlog⟩
      · rw [hnew] at hnone'
        cases hnone'
  dirties addr hne := (h'.dirties addr hne).trans (h.dirties addr hne)

lemma Same.mono (h : Same b (log ++ [e]) s s') : Same b log s s' :=
  { h with
    shared := fun addr o d hmem => h.shared addr o d (List.mem_append_left _ hmem)
    created := fun addr hmem => h.created addr (List.mem_append_left _ hmem)
    accessList := h.accessList.imp_right fun ⟨hnone, hnew, hlog⟩ =>
      ⟨hnone, hnew, fun e he => hlog e (List.mem_append_left _ he)⟩ }

/-! ## Objects -/

lemma find_setStateObject (s : StateDB) (addr addr' : Address) (o : StateObject) :
    (s.setStateObject addr o).find b addr' = if addr' = addr then some o else s.find b addr' := by
  by_cases h : addr' = addr
  · subst h
    simp [StateDB.find, StateDB.setStateObject]
  · simp [StateDB.find, StateDB.setStateObject, h]

/-- Loading an object is not seen. -/
lemma getDeletedStateObject_eq (s : StateDB) (addr : Address) :
    (s.getDeletedStateObject b addr).1 = s.find b addr ∧
      ((s.getDeletedStateObject b addr).2 = s ∨
        ∃ o, s.find b addr = some o ∧ (s.getDeletedStateObject b addr).2 = s.setStateObject addr o) := by
  rw [StateDB.getDeletedStateObject, StateDB.find]
  cases s.stateObjects addr with
  | some o => exact ⟨rfl, .inl rfl⟩
  | none =>
    cases StateDB.readAccount b addr with
    | none => exact ⟨rfl, .inl rfl⟩
    | some data => exact ⟨rfl, .inr ⟨_, rfl, rfl⟩⟩

/-- An object that is not deleted. -/
def live (o : Option StateObject) : Option StateObject := o.filter fun o => !o.deleted

lemma getStateObject_eq (s : StateDB) (addr : Address) :
    (s.getStateObject b addr).1 = live (s.find b addr) ∧
      ((s.getStateObject b addr).2 = s ∨
        ∃ o, s.find b addr = some o ∧ (s.getStateObject b addr).2 = s.setStateObject addr o) := by
  obtain ⟨hfst, hsnd⟩ := getDeletedStateObject_eq (b := b) s addr
  rw [StateDB.getStateObject]
  rw [← hfst] at hsnd ⊢
  rcases hget : s.getDeletedStateObject b addr with ⟨o, t⟩
  rw [hget] at hsnd
  cases o with
  | none => exact ⟨rfl, hsnd⟩
  | some o =>
    refine ⟨?_, hsnd⟩
    cases hdeleted : o.deleted <;> simp [live, hdeleted, Option.filter]

/-- A state with one object replaced by another that is seen in the same way. -/
lemma view_setStateObject (s : StateDB) (addr addr' : Address) (o : StateObject) :
    (s.setStateObject addr o).view b addr' =
      if addr' = addr then some (o.view b addr (s.snapDestructs addr) (s.shared addr)) else s.view b addr' := by
  by_cases h : addr' = addr
  · subst h
    rw [StateDB.view, find_setStateObject, if_pos rfl, if_pos rfl]
    rfl
  · rw [StateDB.view, find_setStateObject, if_neg h, if_neg h]
    rfl

/-- What a change of an object is to those who look at it. -/
def Visible (b : Backend) (addr : Address) (f : StateObject → StateObject) (g : ObjectView → ObjectView) : Prop :=
  ∀ destructed shared o, (f o).view b addr destructed shared = g (o.view b addr destructed shared)

variable {f : StateObject → StateObject} {g : ObjectView → ObjectView} {o o' : StateObject}

lemma Visible.congr (hf : Visible b addr f g) {d d' : Bool} {p p' : Storage}
    (h : o'.view b addr d' p' = o.view b addr d p) : (f o').view b addr d' p' = (f o).view b addr d p := by
  rw [hf, hf, h]

lemma map_live {α : Type} (s : StateDB) (addr : Address) (f : ObjectView → α) :
    ((live (s.find b addr)).map fun o => f (o.view b addr (s.snapDestructs addr) (s.shared addr))) =
      ((s.view b addr).filter fun v => !v.deleted).map f := by
  rw [StateDB.view]
  cases s.find b addr with
  | none => rfl
  | some o =>
    have hview : (o.view b addr (s.snapDestructs addr) (s.shared addr)).deleted = o.deleted := rfl
    cases hdeleted : o.deleted <;> simp [live, Option.filter, hview, hdeleted]

lemma live_isSome_view (s : StateDB) (addr : Address) :
    (live (s.find b addr)).isSome = ((s.view b addr).filter fun v => !v.deleted).isSome := by
  simpa using congrArg Option.isSome (map_live (b := b) s addr id)

lemma live_eq_some {o : Option StateObject} {x : StateObject} (h : live o = some x) : o = some x ∧ x.deleted = false := by
  cases o with
  | none => cases h
  | some y =>
    cases hdeleted : y.deleted with
    | true => simp [live, Option.filter, hdeleted] at h
    | false =>
      simp only [live, Option.filter, hdeleted, Bool.not_false, if_true, Option.some.injEq] at h
      exact ⟨by rw [h], h ▸ hdeleted⟩

/-- The state after a live object is changed, if there is one. -/
lemma modifyObject_eq (s : StateDB) (addr : Address) (f : StateObject → StateObject) :
    s.modifyObject b addr f = (live (s.find b addr)).map fun o => s.setStateObject addr (f o) := by
  obtain ⟨hfst, hsnd⟩ := getStateObject_eq (b := b) s addr
  rw [StateDB.modifyObject, ← hfst]
  rcases hget : s.getStateObject b addr with ⟨o, u⟩
  rw [hget] at hsnd
  cases o with
  | none => rfl
  | some o =>
    rcases hsnd with hu | ⟨o', -, hu⟩
    · rw [show u = s from hu]
      rfl
    · rw [show u = s.setStateObject addr o' from hu]
      simp [StateDB.setStateObject]

lemma same_setStateObject (h : Same b log s s')
    (hview : o'.view b addr (s'.snapDestructs addr) (s'.shared addr) = o.view b addr (s.snapDestructs addr) (s.shared addr)) :
    Same b log (s.setStateObject addr o) (s'.setStateObject addr o') :=
  { h with
    view := fun addr' => by
      rw [view_setStateObject, view_setStateObject, hview, h.view] }

/-- The objects may be others if they are seen in the same way. -/
lemma Same.withObjects (h : Same b log s s') {objects objects' : Address → Option StateObject}
    (hview : ∀ addr, StateDB.view b { s with stateObjects := objects } addr = s.view b addr)
    (hview' : ∀ addr, StateDB.view b { s' with stateObjects := objects' } addr = s'.view b addr) :
    Same b log { s with stateObjects := objects } { s' with stateObjects := objects' } :=
  { h with view := fun addr => by rw [hview, hview', h.view] }

/-- Loading an object is not seen. -/
lemma getStateObject_view (s : StateDB) (addr : Address) :
    ∃ objects, (s.getStateObject b addr).2 = { s with stateObjects := objects } ∧
      ∀ addr', StateDB.view b { s with stateObjects := objects } addr' = s.view b addr' := by
  rcases (getStateObject_eq (b := b) s addr).2 with heq | ⟨o, ho, heq⟩
  · exact ⟨s.stateObjects, heq, fun _ => rfl⟩
  · refine ⟨_, heq, fun addr' => ?_⟩
    refine (view_setStateObject s addr addr' o).trans ?_
    split
    · next h =>
      rw [h, StateDB.view, ho]
      rfl
    · rfl

/-- Both states have a live object, or none has. -/
lemma Same.live (h : Same b log s s') (ho : live (s.find b addr) = some o) :
    ∃ o', State.live (s'.find b addr) = some o' ∧
      o'.view b addr (s'.snapDestructs addr) (s'.shared addr) = o.view b addr (s.snapDestructs addr) (s.shared addr) := by
  have hsome : (State.live (s'.find b addr)).isSome := by
    rw [live_isSome_view, h.view, ← live_isSome_view, ho]
    rfl
  obtain ⟨o', ho'⟩ := isSome_iff_exists.1 hsome
  refine ⟨o', ho', ?_⟩
  have hview := h.view addr
  rw [StateDB.view, StateDB.view, (live_eq_some ho).1, (live_eq_some ho').1] at hview
  exact Option.some.inj hview

lemma Same.modifyObject (h : Same b log s s') (hf : Visible b addr f g) (ht : s.modifyObject b addr f = some t) :
    ∃ t', s'.modifyObject b addr f = some t' ∧ Same b log t t' := by
  rw [modifyObject_eq] at ht
  obtain ⟨o, ho, rfl⟩ := map_eq_some_iff.1 ht
  obtain ⟨o', ho', hview⟩ := h.live ho
  refine ⟨s'.setStateObject addr (f o'), by rw [modifyObject_eq, ho']; rfl, same_setStateObject h ?_⟩
  exact hf.congr hview

lemma visible_setBalance (amount : Int) :
    Visible b addr (·.setBalance amount) fun v => { v with balance := amount } := fun d p o => view_setBalance o d p amount

lemma visible_setNonce (nonce : UInt64) :
    Visible b addr (·.setNonce nonce) fun v => { v with nonce := nonce } := fun d p o => view_setNonce o d p nonce

lemma visible_setState (key value : Hash) :
    Visible b addr (·.setState key value) fun v => { v with state := Function.update v.state key value } :=
  fun d p o => view_setState o d p key value

lemma visible_setCode (codeHash : Hash) (code : Option (List UInt8)) :
    Visible b addr (·.setCode codeHash code) fun v =>
      { v with codeHash := codeHash, code := codeView b addr codeHash code } := fun d p o => view_setCode o d p codeHash code

lemma visible_suicide (amount : Int) (flag : Bool) :
    Visible b addr (fun o => { o.setBalance amount with suicided := flag }) fun v =>
      { v with balance := amount, suicided := flag } := fun d p o => by
  rw [view_eq, view_eq]
  rfl

/-! ## Undoing an entry -/

lemma Same.setDirties (h : Same b log s s') (change : Int) (account : Option Address) :
    Same b log { s with journal := { s.journal with dirties := Journal.count s.journal.dirties change account } }
      { s' with journal := { s'.journal with dirties := Journal.count s'.journal.dirties change account } } :=
  { h with
    dirties := fun addr hne => by
      cases account with
      | none => exact h.dirties addr hne
      | some account =>
        by_cases hacc : addr = account
        · subst hacc
          simp [Journal.count, h.dirties addr hne]
        · simp [Journal.count, hacc, h.dirties addr hne] }

lemma revert_suicide (s : StateDB) (account : Address) (prev : Bool) (prevbalance : Int) :
    (suicide account prev prevbalance).revert b s =
      match live (s.find b account) with
      | none => some (s.getStateObject b account).2
      | some o => some (s.setStateObject account { o.setBalance prevbalance with suicided := prev }) := by
  obtain ⟨hfst, hsnd⟩ := getStateObject_eq (b := b) s account
  rw [revert, ← hfst]
  rcases hget : s.getStateObject b account with ⟨o, u⟩
  rw [hget] at hsnd
  cases o with
  | none => rfl
  | some o =>
    rcases hsnd with hu | ⟨o', -, hu⟩
    · rw [show u = s from hu]
    · rw [show u = s.setStateObject account o' from hu]
      simp [StateDB.setStateObject]

lemma Same.revert (h : Same b (log ++ [e]) s s') (ht : e.revert b s = some t) :
    ∃ t', e.revert b s' = some t' ∧ Same b log t t' := by
  have hmem : e ∈ log ++ [e] := by simp
  have hlist : e.isAccess = true → s'.accessList = s.accessList := by
    intro he
    rcases h.accessList with heq | ⟨-, -, hlog⟩
    · exact heq
    · exact absurd he (Bool.eq_false_iff.1 (hlog _ hmem))
  cases e with
  | balance account prev => exact h.mono.modifyObject (visible_setBalance prev) ht
  | nonce account prev => exact h.mono.modifyObject (visible_setNonce prev) ht
  | storage account key prevalue => exact h.mono.modifyObject (visible_setState key prevalue) ht
  | code account prevcode prevhash => exact h.mono.modifyObject (visible_setCode prevhash prevcode) ht
  | touch account =>
    cases ht
    exact ⟨s', rfl, h.mono⟩
  | refund prev =>
    cases ht
    exact ⟨_, rfl, { h.mono with refund := rfl }⟩
  | addPreimage hash =>
    cases ht
    exact ⟨_, rfl, { h.mono with preimages := by rw [h.preimages] }⟩
  | addLog txhash =>
    rw [revert] at ht ⊢
    rw [h.logs, h.logSize]
    split at ht
    · cases ht
    · next hne =>
      cases ht
      rw [if_neg hne]
      exact ⟨_, rfl, { h.mono with logs := rfl, logSize := rfl }⟩
  | createObject account =>
    cases ht
    refine ⟨_, rfl, { h.mono with view := fun addr => ?_ }⟩
    by_cases haddr : addr = account
    · subst haddr
      simp [StateDB.view, StateDB.find, h.created addr hmem]
    · have hview := h.view addr
      simpa [StateDB.view, StateDB.find, haddr] using hview
  | resetObject account prev prevdestruct =>
    have hset : Same b log (s.setStateObject account prev) (s'.setStateObject account prev) :=
      same_setStateObject h.mono (by rw [h.snapDestructs, h.shared _ _ _ hmem])
    rw [revert] at ht ⊢
    split at ht
    · next hclear =>
      cases ht
      rw [if_pos hclear]
      refine ⟨_, rfl, { hset with view := fun addr => ?_, snapDestructs := ?_ }⟩
      · by_cases haddr : addr = account
        · subst haddr
          have hshared := h.shared _ _ _ hmem
          simp [StateDB.view, StateDB.find, StateDB.setStateObject, hshared]
        · have hview := h.view addr
          simpa [StateDB.view, StateDB.find, StateDB.setStateObject, haddr] using hview
      · simp [StateDB.setStateObject, h.snapDestructs]
    · next hclear =>
      cases ht
      rw [if_neg hclear]
      exact ⟨_, rfl, hset⟩
  | suicide account prev prevbalance =>
    rw [revert_suicide] at ht ⊢
    cases ho : State.live (s.find b account) with
    | none =>
      -- nobody has a live object, and nothing happens
      have ho' : State.live (s'.find b account) = none := by
        rw [← not_isSome_iff_eq_none, live_isSome_view, h.view, ← live_isSome_view, ho]
        simp
      rw [ho] at ht
      rw [ho']
      obtain ⟨objects, heq, hview⟩ := getStateObject_view (b := b) s account
      obtain ⟨objects', heq', hview'⟩ := getStateObject_view (b := b) s' account
      cases ht
      refine ⟨_, rfl, ?_⟩
      rw [heq, heq']
      exact h.mono.withObjects hview hview'
    | some o =>
      obtain ⟨o', ho', hview⟩ := h.live ho
      rw [ho] at ht
      rw [ho']
      cases ht
      refine ⟨_, rfl, same_setStateObject h.mono ?_⟩
      exact (visible_suicide prevbalance prev).congr hview
  | accessListAddAccount address =>
    cases ht
    exact ⟨_, rfl, { h.mono with accessList := .inl (by rw [hlist rfl]) }⟩
  | accessListAddSlot address slot =>
    rw [revert] at ht ⊢
    rw [hlist rfl]
    cases hl : s.accessList with
    | none =>
      rw [hl] at ht
      cases ht
      exact ⟨s', rfl, h.mono⟩
    | some l =>
      rw [hl] at ht
      obtain ⟨l', hl', rfl⟩ := map_eq_some_iff.1 ht
      refine ⟨{ s' with accessList := some l' }, ?_, { h.mono with accessList := .inl rfl }⟩
      dsimp only
      rw [hl']
      rfl

/-- Undoing keeps states that read alike together. -/
lemma undoing (b : Backend) : Undoing (StateDB.undo b) (Same b) where
  trans := Same.trans
  step {log e s s' t} h ht := by
    obtain ⟨u, hu, rfl⟩ := map_eq_some_iff.1 ht
    obtain ⟨u', hu', hsame⟩ := h.revert hu
    refine ⟨_, ?_, hsame.setDirties (-1) e.dirtied⟩
    rw [StateDB.undo, hu']
    rfl

end Same

end TurboOctopus.State
