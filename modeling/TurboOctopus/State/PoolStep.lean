import TurboOctopus.State.PoolSim
/-!
# Operations beside a state without the pool

Every operation, the end of a transaction and a copy keep `Sim`, as long as no account is
created where the root has one with storage.
-/
namespace TurboOctopus.State

open Lib TurboOctopus.Types Function List StateObject

section Sim
variable {b : Backend} {log log' : List JournalEntry} {s r : StateDB} {addr : Address} {o o' : StateObject}
  {e : JournalEntry}

/-! ## New objects -/

lemma getDeletedStateObject_journal (s : StateDB) (addr : Address) :
    (s.getDeletedStateObject b addr).2.journal = s.journal := by
  rw [StateDB.getDeletedStateObject]
  split
  · rfl
  · split <;> rfl

lemma getDeletedStateObject_none (h : (s.getDeletedStateObject b addr).1 = none) : StateDB.readAccount b addr = none := by
  rw [StateDB.getDeletedStateObject] at h
  split at h
  · cases h
  · split at h
    · assumption
    · cases h

/-- The marks of a replaced account are undone with its entry. -/
lemma undoFlags_mark (flags : Address → Bool) (addr : Address) (prev : StateObject) :
    undoFlags b (if b.snap.isSome then update flags addr true else flags)
      (.resetObject addr prev (b.snap.isSome && flags addr)) = flags := by
  rw [undoFlags]
  cases hsnap : b.snap.isSome with
  | false => simp
  | true =>
    cases hflag : flags addr with
    | true => simpa using hflag
    | false => simpa using hflag

/-- A replaced account has no storage at the root. -/
lemma Sim.createObject (hsound : b.Sound) (h : Sim b s r) (hbarren : Barren b addr) :
    Sim b (s.createObject b addr).2.2 (r.createObject b addr).2.2 ∧
      (s.createObject b addr).1 = newObject b.freshAccount ∧ (r.createObject b addr).1 = newObject b.freshAccount ∧
      ObjSim b addr ((s.createObject b addr).2.2.snapDestructs addr) (newObject b.freshAccount) (newObject b.freshAccount) ∧
      (r.createObject b addr).2.1.map (·.data.balance) = (s.createObject b addr).2.1.map (·.data.balance) := by
  have hfresh : ∀ d, (b.snap.isSome → d = true ∨ StateDB.readAccount b addr = none) →
      ObjSim b addr d (newObject b.freshAccount) (newObject b.freshAccount) := fun d hd =>
    ⟨rfl, rfl, rfl, fun _ => rfl, fun _ => settled_fresh hsound hbarren hd⟩
  obtain ⟨hsim, hs, hr, hflags⟩ := SimWith.getDeletedStateObject h addr
  have hnone : (s.getDeletedStateObject b addr).1 = none → StateDB.readAccount b addr = none := getDeletedStateObject_none
  have hobj := hsim.objects addr
  rw [← hs, ← hr] at hobj
  rw [StateDB.createObject, StateDB.createObject]
  rcases hgs : s.getDeletedStateObject b addr with ⟨os, us⟩
  rcases hgr : r.getDeletedStateObject b addr with ⟨or, ur⟩
  have hentries : us.journal.entries = s.journal.entries ∧ ur.journal.entries = r.journal.entries := by
    have hus := getDeletedStateObject_journal (b := b) s addr
    have hur := getDeletedStateObject_journal (b := b) r addr
    rw [hgs] at hus
    rw [hgr] at hur
    exact ⟨congrArg Journal.entries hus, congrArg Journal.entries hur⟩
  rw [hgs] at hsim hobj hnone hs
  rw [hgr] at hsim hobj hr
  dsimp only at hsim hobj hnone hs hr
  rw [← hentries.1, ← hentries.2] at hsim
  cases hobj with
  | none =>
    have hsim' : Sim b ((us.append (.createObject addr)).setStateObject addr (newObject b.freshAccount))
        ((ur.append (.createObject addr)).setStateObject addr (newObject b.freshAccount)) := by
      have happend : Sim b (us.append (.createObject addr)) (ur.append (.createObject addr)) := by
        refine { hsim with journal := ?_, rest := ?_ }
        · simp only [StateDB.append, Journal.append, reverse_append, reverse_singleton, singleton_append]
          exact ⟨⟨rfl, hbarren⟩, hsim.journal⟩
        · conv_lhs => rw [hsim.rest]
          rfl
      exact SimWith.set happend (hfresh _ fun _ => .inr (hnone rfl))
    exact ⟨hsim', rfl, rfl, hfresh _ fun _ => .inr (hnone rfl), rfl⟩
  | @some prev prev' hprev =>
    have hmark : ∀ u : StateDB, (if b.snap.isSome then
          { u with snapDestructs := update u.snapDestructs addr true } else u) =
        { u with snapDestructs := if b.snap.isSome then update u.snapDestructs addr true else u.snapDestructs } := by
      intro u
      split <;> rfl
    have hflag : b.snap.isSome → (if b.snap.isSome then update us.snapDestructs addr true
        else us.snapDestructs) addr = true := by
      intro hsnap
      rw [if_pos hsnap, update_self]
    have hother : ∀ addr', addr' ≠ addr → (if b.snap.isSome then update us.snapDestructs addr true
        else us.snapDestructs) addr' = us.snapDestructs addr' := by
      intro addr' haddr
      split
      · rw [update_of_ne haddr]
      · rfl
    dsimp only
    rw [hmark, hmark, hsim.snapDestructs]
    refine ⟨⟨fun addr' => ?_, hsim.pool, fun addr' hflag' => ?_, ?_, ?_⟩, rfl, rfl,
      hfresh _ fun hsnap => .inl (hflag hsnap), ?_⟩
    · by_cases haddr : addr' = addr
      · subst haddr
        simp only [StateDB.setStateObject, update_self]
        exact .some (hfresh _ fun hsnap => .inl (hflag hsnap))
      · simp only [StateDB.setStateObject, StateDB.append, update_of_ne haddr, hother addr' haddr]
        exact hsim.objects addr'
    · by_cases haddr : addr' = addr
      · subst haddr
        exact .inl hbarren
      · simp only [StateDB.setStateObject, StateDB.append, update_of_ne haddr, hother addr' haddr] at hflag' ⊢
        exact hsim.flagged addr' hflag'
    · have hundo := undoFlags_mark (b := b) us.snapDestructs addr prev
      simp only [StateDB.setStateObject, StateDB.append, Journal.append, reverse_append, reverse_singleton,
        singleton_append]
      refine ⟨⟨hbarren, prev', rfl, ?_⟩, ?_⟩
      · rw [hundo]
        exact hprev
      · rw [hundo]
        exact hsim.journal
    · conv_lhs => rw [hsim.rest]
      rfl
    · rw [hprev.deleted]
      cases hdeleted : prev.deleted with
      | true => rfl
      | false => exact congrArg (fun data => some (StateAccount.balance data)) hprev.data

lemma getStateObject_journal (s : StateDB) (addr : Address) : (s.getStateObject b addr).2.journal = s.journal := by
  obtain ⟨objects, heq, -⟩ := getStateObject_view (b := b) s addr
  rw [heq]

lemma Sim.getStateObject (h : Sim b s r) (addr : Address) :
    Sim b (s.getStateObject b addr).2 (r.getStateObject b addr).2 ∧
      ((s.getStateObject b addr).1 = none ∧ (r.getStateObject b addr).1 = none ∨
        ∃ o o', (s.getStateObject b addr).1 = some o ∧ (r.getStateObject b addr).1 = some o' ∧ o.deleted = false ∧
          ObjSim b addr ((s.getStateObject b addr).2.snapDestructs addr) o o') := by
  obtain ⟨hsim, hflags, hget⟩ := SimWith.getStateObject h addr
  rw [hflags]
  refine ⟨?_, hget⟩
  rw [Sim, getStateObject_journal, getStateObject_journal]
  exact hsim

lemma Sim.getStateObject_cases (h : Sim b s r) (addr : Address) :
    ∃ us ur, Sim b us ur ∧ (s.getStateObject b addr = (none, us) ∧ r.getStateObject b addr = (none, ur) ∨
      ∃ o o', s.getStateObject b addr = (some o, us) ∧ r.getStateObject b addr = (some o', ur) ∧ o.deleted = false ∧
        ObjSim b addr (us.snapDestructs addr) o o') := by
  obtain ⟨hsim, hget⟩ := h.getStateObject addr
  refine ⟨_, _, hsim, hget.imp ?_ ?_⟩
  · exact fun ⟨hs, hr⟩ => ⟨Prod.ext hs rfl, Prod.ext hr rfl⟩
  · exact fun ⟨o, o', hs, hr, hlive, hobj⟩ => ⟨o, o', Prod.ext hs rfl, Prod.ext hr rfl, hlive, hobj⟩

/-- The object of a write. -/
lemma Sim.getOrNewStateObject (hsound : b.Sound) (h : Sim b s r)
    (hcreate : (s.getStateObject b addr).1 = none → Barren b addr) :
    Sim b (s.getOrNewStateObject b addr).2 (r.getOrNewStateObject b addr).2 ∧
      (s.getOrNewStateObject b addr).1.deleted = false ∧
      ObjSim b addr ((s.getOrNewStateObject b addr).2.snapDestructs addr) (s.getOrNewStateObject b addr).1
        (r.getOrNewStateObject b addr).1 := by
  rw [StateDB.getOrNewStateObject, StateDB.getOrNewStateObject]
  obtain ⟨us, ur, hsim, ⟨hs, hr⟩ | ⟨o, o', hs, hr, hlive, hobj⟩⟩ := h.getStateObject_cases addr <;> rw [hs, hr]
  · rw [hs] at hcreate
    obtain ⟨hsim', hnew, hnew', hobj, -⟩ := hsim.createObject hsound (hcreate rfl)
    refine ⟨hsim', ?_, ?_⟩
    · dsimp only
      rw [hnew]
      rfl
    · dsimp only
      rw [hnew, hnew']
      exact hobj
  · exact ⟨hsim, hlive, hobj⟩

lemma Sim.createAccount (hsound : b.Sound) (h : Sim b s r) (hbarren : Barren b addr) :
    Sim b (s.createAccount b addr) (r.createAccount b addr) := by
  obtain ⟨hsim, hnew, hnew', hobj, hprev⟩ := h.createObject hsound hbarren
  rw [StateDB.createAccount, StateDB.createAccount]
  rcases hs : s.createObject b addr with ⟨ns, ps, us⟩
  rcases hr : r.createObject b addr with ⟨nr, pr, ur⟩
  rw [hs] at hsim hnew hobj hprev
  rw [hr] at hsim hnew' hprev
  subst hnew hnew'
  cases ps with
  | none =>
    cases pr with
    | none => exact hsim
    | some p' => cases hprev
  | some p =>
    cases pr with
    | none => cases hprev
    | some p' =>
      have hbalance : p'.data.balance = p.data.balance := Option.some.inj hprev
      dsimp only
      rw [hbalance]
      exact SimWith.set hsim (hobj.map (write_setBalance _))

lemma Sim.withObject (hsound : b.Sound) (h : Sim b s r) (hcreate : (s.getStateObject b addr).1 = none → Barren b addr)
    {f : StateObject → StateDB → StateDB}
    (hf : ∀ o o' u v, Sim b u v → o.deleted = false → ObjSim b addr (u.snapDestructs addr) o o' → Sim b (f o u) (f o' v)) :
    Sim b (f (s.getOrNewStateObject b addr).1 (s.getOrNewStateObject b addr).2)
      (f (r.getOrNewStateObject b addr).1 (r.getOrNewStateObject b addr).2) := by
  obtain ⟨hsim, hlive, hobj⟩ := h.getOrNewStateObject hsound hcreate
  exact hf _ _ _ _ hsim hlive hobj

lemma Sim.write (h : Sim b s r) (hobj : ObjSim b addr (s.snapDestructs addr) o o') (he : e.isCommon = true)
    {f : StateObject → StateObject} (hf : Write b addr f) :
    Sim b ((s.append e).setStateObject addr (f o)) ((r.append e).setStateObject addr (f o')) :=
  SimWith.set (h.append he) (hobj.map hf)

lemma Sim.objectSetBalance (h : Sim b s r) (hobj : ObjSim b addr (s.snapDestructs addr) o o') (amount : Int) :
    Sim b (s.objectSetBalance addr o amount) (r.objectSetBalance addr o' amount) := by
  rw [StateDB.objectSetBalance, StateDB.objectSetBalance, hobj.data]
  exact h.write hobj rfl (write_setBalance amount)

lemma Sim.touch (h : Sim b s r) (addr : Address) : Sim b (s.touch addr) (r.touch addr) := by
  have hsim := h.append (e := .touch addr) rfl
  rw [StateDB.touch, StateDB.touch]
  split
  · refine { hsim with rest := ?_ }
    conv_lhs => rw [hsim.rest]
  · exact hsim

lemma SimWith.readSlot (h : SimWith b log log' s r) (hlive : o.deleted = false)
    (hobj : ObjSim b addr (s.snapDestructs addr) o o') {write : Bool} {x x' : Hash × StateObject × Storage}
    (hx : Cached (b.sharing write) addr (s.snapDestructs addr) o (s.shared addr) x.2.1 x.2.2)
    (hsettled : Settled b addr (s.snapDestructs addr) x.2.1 ∧ PoolOf b addr x.2.2)
    (hx' : Cached b.plain addr (r.snapDestructs addr) o' (r.shared addr) x'.2.1 x'.2.2) :
    SimWith b log log' (s.readSlot addr x).2 (r.readSlot addr x').2 ∧
      ObjSim b addr (s.snapDestructs addr) x.2.1 x'.2.1 := by
  have hobj' : ObjSim b addr (s.snapDestructs addr) x.2.1 x'.2.1 := by
    refine ⟨by rw [hx.data, hx'.data, hobj.data], by rw [hx.suicided, hx'.suicided, hobj.suicided],
      by rw [hx.deleted, hx'.deleted, hobj.deleted], fun _ => ?_, fun _ => hsettled.1⟩
    rw [hx.shows (hobj.settled hlive) (h.pool addr) hsettled.1 hsettled.2, ← hobj.shows hlive,
      ← view_plain x'.2.1 x'.2.2, ← view_plain o' (r.shared addr), ← h.snapDestructs]
    exact hx'.view
  have hset := h.set hobj'
  refine ⟨{ hset with pool := fun addr' => ?_, rest := ?_ }, hobj'⟩
  · by_cases haddr : addr' = addr
    · subst haddr
      simp only [StateDB.readSlot, update_self]
      exact hsettled.2
    · simp only [StateDB.readSlot, update_of_ne haddr]
      exact h.pool addr'
  · conv_lhs => rw [StateDB.readSlot, hset.rest]
    rfl

lemma SimWith.view_eq (h : SimWith b log log' s r) (hlive : o.deleted = false)
    (hobj : ObjSim b addr (s.snapDestructs addr) o o') (write : Bool) :
    o.view (b.sharing write) addr (s.snapDestructs addr) (s.shared addr) =
      o'.view b.plain addr (r.snapDestructs addr) (r.shared addr) := by
  rw [(hobj.settled hlive).view_sharing (h.pool addr) write, view_plain, h.snapDestructs, hobj.shows hlive]

lemma Sim.readSlots (h : Sim b s r) (write : Bool) (addr : Address) (key : Hash) :
    ((s.getState (b.sharing write) addr key).1 = (r.getState b.plain addr key).1 ∧
      (s.getCommittedState (b.sharing write) addr key).1 = (r.getCommittedState b.plain addr key).1) ∧
    Sim b (s.getState (b.sharing write) addr key).2 (r.getState b.plain addr key).2 ∧
      Sim b (s.getCommittedState (b.sharing write) addr key).2 (r.getCommittedState b.plain addr key).2 := by
  have hs : s.getStateObject (b.sharing write) addr = s.getStateObject b addr := rfl
  have hr : r.getStateObject b.plain addr = r.getStateObject b addr := rfl
  rw [StateDB.getState, StateDB.getState, StateDB.getCommittedState, StateDB.getCommittedState, hs, hr]
  obtain ⟨us, ur, hsim, ⟨hgs, hgr⟩ | ⟨o, o', hgs, hgr, hlive, hobj⟩⟩ := h.getStateObject_cases addr <;> rw [hgs, hgr]
  · exact ⟨⟨rfl, rfl⟩, hsim, hsim⟩
  · have hview := SimWith.view_eq hsim hlive hobj write
    have hsettled := hobj.settled hlive
    refine ⟨⟨congrArg (fun v => ObjectView.state v key) hview, congrArg (fun v => ObjectView.committed v key) hview⟩, ?_, ?_⟩
    · exact (SimWith.readSlot hsim hlive hobj (getState_cached o _ _ key) (hsettled.getState (hsim.pool addr) write key)
        (getState_cached o' _ _ key)).1
    · exact (SimWith.readSlot hsim hlive hobj (getCommittedState_spec o _ _ key).2
        (hsettled.getCommittedState (hsim.pool addr) write key) (getCommittedState_spec o' _ _ key).2).1

lemma Settled.getCode {d : Bool} (h : Settled b addr d o) : Settled b addr d (o.getCode b addr).2 := by
  rw [StateObject.getCode]
  split
  · exact h
  · split
    · exact h
    · exact h

lemma ObjSim.getCode {d : Bool} (h : ObjSim b addr d o o') : ObjSim b addr d (o.getCode b addr).2 (o'.getCode b addr).2 := by
  have hkept : ∀ o : StateObject, (o.getCode b addr).2.data = o.data ∧ (o.getCode b addr).2.suicided = o.suicided ∧
      (o.getCode b addr).2.deleted = o.deleted := by
    intro o
    rw [StateObject.getCode]
    split
    · exact ⟨rfl, rfl, rfl⟩
    · split <;> exact ⟨rfl, rfl, rfl⟩
  have hshows : ∀ o : StateObject, (o.getCode b addr).2.shows b addr d = o.shows b addr d := fun o =>
    view_getCode (b := b.plain) o d _
  refine ⟨by rw [(hkept o').1, (hkept o).1, h.data], by rw [(hkept o').2.1, (hkept o).2.1, h.suicided],
    by rw [(hkept o').2.2, (hkept o).2.2, h.deleted], fun hlive => ?_, fun hlive => ?_⟩
  · rw [hshows, hshows]
    exact h.shows ((hkept o).2.2 ▸ hlive)
  · exact (h.settled ((hkept o).2.2 ▸ hlive)).getCode

namespace Sim

section
variable (h : Sim b s r)
include h

lemma getCode (addr : Address) : Sim b (s.getCode b addr).2 (r.getCode b addr).2 := by
  rw [StateDB.getCode, StateDB.getCode]
  obtain ⟨us, ur, hsim, ⟨hgs, hgr⟩ | ⟨o, o', hgs, hgr, -, hobj⟩⟩ := h.getStateObject_cases addr <;> rw [hgs, hgr]
  · exact hsim
  · exact SimWith.set hsim hobj.getCode

lemma suicide (addr : Address) : Sim b (s.suicide b addr) (r.suicide b addr) := by
  rw [StateDB.suicide, StateDB.suicide]
  obtain ⟨us, ur, hsim, ⟨hgs, hgr⟩ | ⟨o, o', hgs, hgr, hlive, hobj⟩⟩ := h.getStateObject_cases addr <;> rw [hgs, hgr]
  · exact hsim
  · dsimp only
    rw [hobj.suicided, hobj.data]
    exact write hsim hobj rfl (write_suicide 0 true)

lemma frame {s' r' : StateDB} (hobjects : s'.stateObjects = s.stateObjects)
    (hdirty : s'.stateObjectsDirty = s.stateObjectsDirty) (hflags : s'.snapDestructs = s.snapDestructs)
    (hshared : s'.shared = s.shared) (hentries : s'.journal.entries = s.journal.entries)
    (hobjects' : r'.stateObjects = r.stateObjects) (hentries' : r'.journal.entries = r.journal.entries)
    (hrest : r' = { s' with
      stateObjects := r'.stateObjects, shared := r'.shared, journal := { s'.journal with entries := r'.journal.entries } }) :
    Sim b s' r' where
  objects := by rw [hobjects, hobjects', hflags]; exact h.objects
  pool := by rw [hshared]; exact h.pool
  flagged := by rw [hflags, hobjects, hdirty]; exact h.flagged
  journal := by rw [hflags, hentries, hentries']; exact h.journal
  rest := hrest

lemma explicit : ∃ objects shared entries, r =
    { s with stateObjects := objects, shared := shared, journal := { s.journal with entries := entries } } :=
  ⟨_, _, _, h.rest⟩

lemma setRefund (refund : UInt64) :
    Sim b { s.append (.refund s.refund) with refund := refund } { r.append (.refund r.refund) with refund := refund } := by
  obtain ⟨objects, shared, entries, rfl⟩ := h.explicit
  exact (h.append (e := .refund s.refund) rfl).frame rfl rfl rfl rfl rfl rfl rfl rfl

lemma addLog (l : Log) : Sim b (s.addLog l) (r.addLog l) := by
  obtain ⟨objects, shared, entries, rfl⟩ := h.explicit
  exact (h.append (e := .addLog s.thash) rfl).frame rfl rfl rfl rfl rfl rfl rfl rfl

lemma addPreimage (hash : Hash) (preimage : List UInt8) :
    Sim b (s.addPreimage hash preimage) (r.addPreimage hash preimage) := by
  obtain ⟨objects, shared, entries, rfl⟩ := h.explicit
  rw [StateDB.addPreimage, StateDB.addPreimage]
  cases s.preimages hash with
  | some _ => exact h
  | none => exact (h.append (e := .addPreimage hash) rfl).frame rfl rfl rfl rfl rfl rfl rfl rfl

lemma setAccessList (l : Option AccessList) :
    Sim b { s with accessList := l } { r with accessList := l } := by
  obtain ⟨objects, shared, entries, rfl⟩ := h.explicit
  exact h.frame rfl rfl rfl rfl rfl rfl rfl rfl

lemma addAddressToAccessList (addr : Address) :
    Sim b (s.addAddressToAccessList addr) (r.addAddressToAccessList addr) := by
  have haccess : r.accessList = s.accessList := by rw [h.rest]
  rw [StateDB.addAddressToAccessList, StateDB.addAddressToAccessList, haccess]
  rcases (s.accessList.getD .new).addAddress addr with ⟨added, l⟩
  have hset := h.setAccessList (some l)
  dsimp only
  split
  · exact hset.append rfl
  · exact hset

lemma addSlotToAccessList (addr : Address) (slot : Hash) :
    Sim b (s.addSlotToAccessList addr slot) (r.addSlotToAccessList addr slot) := by
  have haccess : r.accessList = s.accessList := by rw [h.rest]
  rw [StateDB.addSlotToAccessList, StateDB.addSlotToAccessList, haccess]
  rcases (s.accessList.getD .new).addSlot addr slot with ⟨⟨addrMod, slotMod⟩, l⟩
  have hset := h.setAccessList (some l)
  cases addrMod with
  | false =>
    cases slotMod with
    | false => exact hset
    | true => exact hset.append rfl
  | true =>
    have hadd := hset.append (e := .accessListAddAccount addr) rfl
    cases slotMod with
    | false => exact hadd
    | true => exact hadd.append rfl

lemma snapshot : Sim b s.snapshot.2 r.snapshot.2 := by
  have hlen : r.journal.entries.length = s.journal.entries.length := by simpa using h.journal.length.symm
  refine h.frame rfl rfl rfl rfl rfl rfl rfl ?_
  rw [StateDB.snapshot, StateDB.snapshot, hlen]
  conv_lhs => rw [h.rest]

end

lemma setCode (hsound : b.Sound) (h : Sim b s r) (hcreate : (s.getStateObject b addr).1 = none → Barren b addr)
    (code : Option (List UInt8)) : Sim b (s.setCode b addr code) (r.setCode b addr code) := by
  refine withObject (f := fun o u => (((u.setStateObject addr (o.getCode b addr).2).append
    (.code addr (o.getCode b addr).1 (o.getCode b addr).2.data.codeHash)).setStateObject addr
      ((o.getCode b addr).2.setCode (b.crypto.keccak256 (code.getD [])) code))) hsound h hcreate
    fun o o' u v hsim hlive hobj => ?_
  have hobj' := hobj.getCode
  have hcode : (o'.getCode b addr).1 = (o.getCode b addr).1 := congrArg ObjectView.code (hobj.shows hlive)
  rw [hcode, hobj'.data]
  exact write (SimWith.set hsim hobj') hobj' rfl (write_setCode _ code)

lemma setState (hsound : b.Sound) (h : Sim b s r) (hcreate : (s.getStateObject b addr).1 = none → Barren b addr)
    (write : Bool) (key value : Hash) :
    Sim b (s.setState (b.sharing write) addr key value) (r.setState b.plain addr key value) := by
  obtain ⟨hsim, hlive, hobj⟩ := h.getOrNewStateObject hsound hcreate
  have hs : s.getOrNewStateObject (b.sharing write) addr = s.getOrNewStateObject b addr := rfl
  have hr : r.getOrNewStateObject b.plain addr = r.getOrNewStateObject b addr := rfl
  rw [StateDB.setState, StateDB.setState, hs, hr]
  rcases hgs : s.getOrNewStateObject b addr with ⟨o, u⟩
  rcases hgr : r.getOrNewStateObject b addr with ⟨o', v⟩
  rw [hgs] at hsim hlive hobj
  rw [hgr] at hsim hobj
  dsimp only at hsim hlive hobj ⊢
  have hsettled := (hobj.settled hlive).getState (hsim.pool addr) write key
  obtain ⟨hread, hobj'⟩ := SimWith.readSlot hsim hlive hobj (getState_cached o _ _ key) hsettled (getState_cached o' _ _ key)
  have hvalue := congrArg (fun w => ObjectView.state w key) (SimWith.view_eq hsim hlive hobj write)
  have hvalue : (o'.getState b.plain addr (v.snapDestructs addr) (v.shared addr) key).1 =
      (o.getState (b.sharing write) addr (u.snapDestructs addr) (u.shared addr) key).1 := hvalue.symm
  have hread : Sim b (u.readSlot addr _).2 (v.readSlot addr _).2 := hread
  rw [hvalue]
  split
  · exact hread
  · exact hread.write hobj' rfl (write_setState key value)

end Sim

/-! ## Between transactions -/

lemma visible_finalise : Visible b addr finalise fun v => { v with committed := v.state } := by
  intro d shared o
  have hcommitted : ∀ key, o.finalise.committed b addr d shared key =
      (o.dirtyStorage key).getD (o.committed b addr d shared key) := by
    intro key
    simp only [committed, finalise]
    cases o.dirtyStorage key <;> rfl
  rw [view_eq, view_eq, funext hcommitted]
  rfl

lemma write_finalise : Write b addr finalise where
  visible := ⟨_, visible_finalise⟩
  data := id
  suicided := id
  deleted _ := rfl
  settled := id

lemma ObjSim.dies {d : Bool} (h : ObjSim b addr d o o') (deleteEmptyObjects : Bool) :
    o'.dies b deleteEmptyObjects = o.dies b deleteEmptyObjects := by
  rw [StateObject.dies, StateObject.dies, h.suicided, h.empty]

lemma SimWith.clearJournalAndRefund (h : SimWith b [] [] s r)
    (hlen : s.journal.entries.length = r.journal.entries.length) : Sim b s.clearJournalAndRefund r.clearJournalAndRefund := by
  rw [StateDB.clearJournalAndRefund, StateDB.clearJournalAndRefund]
  by_cases hs : s.journal.entries = []
  · have hr : r.journal.entries = [] := length_eq_zero_iff.1 (by rw [← hlen, hs]; rfl)
    rw [if_pos hs, if_pos hr]
    refine { h with journal := ?_, rest := ?_ }
    · dsimp only
      rw [hs, hr]
      trivial
    · conv_lhs => rw [h.rest]
  · have hr : r.journal.entries ≠ [] := by
      intro hr
      rw [hr] at hlen
      exact hs (length_eq_zero_iff.1 hlen)
    rw [if_neg hs, if_neg hr]
    refine { h with journal := trivial, rest := ?_ }
    conv_lhs => rw [h.rest]

lemma Sim.finalise (h : Sim b s r) (deleteEmptyObjects : Bool) :
    Sim b (s.finalise b deleteEmptyObjects) (r.finalise b deleteEmptyObjects) := by
  have hdirties : r.journal.dirties = s.journal.dirties := by rw [h.rest]
  have hflags : r.snapDestructs = s.snapDestructs := SimWith.snapDestructs h
  have hdirty : r.stateObjectsDirty = s.stateObjectsDirty := by rw [h.rest]
  -- what `Finalise` asks of the objects
  have hasked : ∀ addr, (r.stateObjects addr).any (·.dies b deleteEmptyObjects) =
      (s.stateObjects addr).any (·.dies b deleteEmptyObjects) ∧
      (r.stateObjects addr).isSome = (s.stateObjects addr).isSome := by
    intro addr
    rcases SimWith.object h addr with ⟨hs, hr⟩ | ⟨o, o', hs, hr, hobj⟩
    · rw [hs, hr]
      exact ⟨rfl, rfl⟩
    · rw [hs, hr]
      exact ⟨hobj.dies deleteEmptyObjects, rfl⟩
  rw [StateDB.finalise, StateDB.finalise]
  refine SimWith.clearJournalAndRefund ⟨fun addr => ?_, h.pool, fun addr hflag => ?_, trivial, ?_⟩
    (by simpa using h.journal.length)
  · dsimp only
    rw [hdirties]
    by_cases hzero : s.journal.dirties addr = 0
    · rw [if_pos hzero, if_pos hzero]
      simpa [hzero] using h.objects addr
    · rw [if_neg hzero, if_neg hzero]
      rcases SimWith.object h addr with ⟨hs, hr⟩ | ⟨o, o', hs, hr, hobj⟩
      · rw [hs, hr]
        exact .none
      · rw [hs, hr, Option.map_some, Option.map_some]
        refine .some ?_
        rw [hobj.dies]
        cases hdead : o.dies b deleteEmptyObjects with
        | true =>
          rw [if_pos rfl, if_pos rfl]
          exact ⟨hobj.data, hobj.suicided, rfl, fun hlive => Bool.noConfusion hlive, fun hlive => Bool.noConfusion hlive⟩
        | false =>
          simp only [Option.any_some, hdead, Bool.and_false, Bool.or_false]
          exact hobj.map write_finalise
  · dsimp only at hflag ⊢
    by_cases hold : s.snapDestructs addr = true
    · refine (h.flagged addr hold).imp_right fun ⟨hpresent, hmarked⟩ => ⟨?_, by rw [hmarked]; rfl⟩
      split
      · exact hpresent
      · simpa using hpresent
    · -- a new mark is that of a dirty object
      rw [Bool.not_eq_true] at hold
      rw [hold, Bool.false_or, Bool.and_eq_true, Bool.and_eq_true, decide_eq_true_eq] at hflag
      obtain ⟨⟨-, hzero⟩, hdead⟩ := hflag
      rw [if_neg hzero]
      cases hs : s.stateObjects addr with
      | none =>
        rw [hs] at hdead
        cases hdead
      | some o => exact .inr ⟨rfl, by simp [hzero]⟩
  · simp only [hflags, hdirties, hdirty, (hasked _).1, (hasked _).2]
    conv_lhs => rw [h.rest]

/-- A copy of a state, beside itself without the pool. -/
lemma Sim.copy (h : Sim b s r) : Sim b s.copy s.copy where
  objects addr := by
    dsimp only [StateDB.copy]
    split
    · rcases SimWith.object h addr with ⟨hs, -⟩ | ⟨o, o', hs, -, hobj⟩
      · rw [hs]
        exact .none
      · rw [hs]
        exact .some ⟨rfl, rfl, rfl, fun _ => rfl, hobj.settled⟩
    · exact .none
  pool := h.pool
  flagged addr hflag := by
    refine (h.flagged addr hflag).imp_right fun ⟨hpresent, hmarked⟩ => ⟨?_, ?_⟩
    · dsimp only [StateDB.copy]
      rw [if_pos (.inr hmarked)]
      exact hpresent
    · dsimp only [StateDB.copy]
      rw [hmarked]
      rfl
  journal := trivial
  rest := rfl

lemma Sim.prepare (h : Sim b s r) (thash : Hash) (ti : Nat) : Sim b (s.prepare thash ti) (r.prepare thash ti) := by
  obtain ⟨objects, shared, entries, rfl⟩ := h.explicit
  exact h.frame rfl rfl rfl rfl rfl rfl rfl rfl

/-- Another state has written to the pool. -/
lemma Sim.setPool (h : Sim b s r) {shared : Address → Storage} (hpool : ∀ addr, PoolOf b addr (shared addr)) :
    Sim b { s with shared := shared } r :=
  { h with pool := hpool }

end Sim

/-- The accounts that an operation creates, in a state before it. -/
def Op.Creates (b : Backend) (s : StateDB) (addr : Address) : Op → Prop
  | .createAccount addr' => addr' = addr
  | .addBalance addr' _ => addr' = addr ∧ (s.getStateObject b addr).1 = none
  | .subBalance addr' _ => addr' = addr ∧ (s.getStateObject b addr).1 = none
  | .setBalance addr' _ => addr' = addr ∧ (s.getStateObject b addr).1 = none
  | .setNonce addr' _ => addr' = addr ∧ (s.getStateObject b addr).1 = none
  | .setCode addr' _ => addr' = addr ∧ (s.getStateObject b addr).1 = none
  | .setState addr' _ _ => addr' = addr ∧ (s.getStateObject b addr).1 = none
  | _ => False

lemma Sim.apply {b : Backend} {s r s' : StateDB} {write : Bool} (hsound : b.Sound) (h : Sim b s r) {op : Op}
    (hkeep : ∀ addr, op.Creates b s addr → Barren b addr) (hs : op.apply (b.sharing write) s = .ok s') :
    ∃ r', op.apply b.plain r = .ok r' ∧ Sim b s' r' := by
  cases op
  case subRefund gas =>
    have hrefund : r.refund = s.refund := by rw [h.rest]
    have hsim := h.setRefund (s.refund - gas)
    rw [Op.apply, StateDB.subRefund] at hs ⊢
    rw [hrefund] at hsim ⊢
    split at hs
    · cases hs
    · next hle =>
      cases hs
      exact ⟨_, if_neg hle, hsim⟩
  case revertToSnapshot revid => exact h.revertToSnapshot hs
  -- the others do not fail
  all_goals
    cases hs
    refine ⟨_, rfl, ?_⟩
  case getObject addr => exact (h.getStateObject addr).1
  case getState addr key => exact (h.readSlots write addr key).2.1
  case createAccount addr => exact h.createAccount hsound (hkeep addr rfl)
  case addBalance addr amount =>
    refine Sim.withObject (f := fun o u => if amount = 0 then if o.empty b then u.touch addr else u
      else u.objectSetBalance addr o (o.data.balance + amount)) hsound h (fun hnone => hkeep addr ⟨rfl, hnone⟩)
      fun o o' u v hsim hlive hobj => ?_
    rw [hobj.empty, hobj.data]
    split
    · split
      · exact hsim.touch addr
      · exact hsim
    · exact hsim.objectSetBalance hobj _
  case subBalance addr amount =>
    refine Sim.withObject (f := fun o u => if amount = 0 then u
      else u.objectSetBalance addr o (o.data.balance - amount)) hsound h (fun hnone => hkeep addr ⟨rfl, hnone⟩)
      fun o o' u v hsim hlive hobj => ?_
    rw [hobj.data]
    split
    · exact hsim
    · exact hsim.objectSetBalance hobj _
  case setBalance addr amount =>
    exact Sim.withObject (f := fun o u => u.objectSetBalance addr o amount) hsound h
      (fun hnone => hkeep addr ⟨rfl, hnone⟩) fun o o' u v hsim hlive hobj => hsim.objectSetBalance hobj amount
  case setNonce addr nonce =>
    refine Sim.withObject
      (f := fun o u => (u.append (.nonce addr o.data.nonce)).setStateObject addr (o.setNonce nonce)) hsound h
      (fun hnone => hkeep addr ⟨rfl, hnone⟩) fun o o' u v hsim hlive hobj => ?_
    rw [hobj.data]
    exact hsim.write hobj rfl (write_setNonce nonce)
  case setCode addr code => exact h.setCode hsound (fun hnone => hkeep addr ⟨rfl, hnone⟩) code
  case setState addr key value => exact h.setState hsound (fun hnone => hkeep addr ⟨rfl, hnone⟩) write key value
  case getCode addr => exact h.getCode addr
  case getCommittedState addr key => exact (h.readSlots write addr key).2.2
  case suicide addr => exact h.suicide addr
  case addRefund gas =>
    have hrefund : r.refund = s.refund := by rw [h.rest]
    have hsim := h.setRefund (s.refund + gas)
    rw [StateDB.addRefund, StateDB.addRefund]
    rw [hrefund] at hsim ⊢
    exact hsim
  case addLog l => exact h.addLog l
  case addPreimage hash preimage => exact h.addPreimage hash preimage
  case addAddressToAccessList addr => exact h.addAddressToAccessList addr
  case addSlotToAccessList addr slot => exact h.addSlotToAccessList addr slot
  case snapshot => exact h.snapshot

end TurboOctopus.State
