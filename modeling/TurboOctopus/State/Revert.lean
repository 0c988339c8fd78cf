import TurboOctopus.State.Undoable
/-!
# Reverting to a snapshot

Along a run, every valid revision keeps its state: the journal entries since then lead back
to a state that reads like it. A revert takes the entries away, and the earlier revisions
keep theirs.
-/
namespace TurboOctopus.State

open Lib TurboOctopus.Types List Option StateDB

/-- The journal of `s` leads back to `s₀`. -/
def Keeps (b : Backend) (s₀ s : StateDB) : Prop :=
  ∃ new, s.journal.entries = s₀.journal.entries ++ new ∧ Restores (StateDB.undo b) (Same b) s₀.journal.entries new s₀ s

/-- A state in the middle of a run. -/
structure Running (b : Backend) (s : StateDB) : Prop where
  inv : Inv b s
  sorted : s.validRevisions.Pairwise fun r r' => r.id < r'.id ∧ r.journalIndex ≤ r'.journalIndex
  next : ∀ r ∈ s.validRevisions, r.id < s.nextRevisionId ∧ r.journalIndex ≤ s.journal.entries.length
  kept : ∀ r ∈ s.validRevisions, ∃ s₀, Inv b s₀ ∧ s₀.journal.entries.length = r.journalIndex ∧ Keeps b s₀ s

section Running
variable {b : Backend} {s s' s₀ t : StateDB}

lemma Keeps.undoable (h : Keeps b s₀ s) (hs : Undoable b s s') : Keeps b s₀ s' := by
  obtain ⟨new, hnew, hrestores⟩ := h
  obtain ⟨new', hnew', hrestores'⟩ := hs.restores
  rw [hnew] at hnew' hrestores'
  exact ⟨new ++ new', by rw [hnew', append_assoc], hrestores.append (undoing b) hrestores'⟩

lemma Keeps.refl (h : Inv b s) : Keeps b s s := ⟨[], by simp, s, rfl, h.refl⟩

lemma Running.undoable (h : Running b s) (hs : Undoable b s s') : Running b s' where
  inv := hs.inv
  sorted := by
    rw [hs.validRevisions]
    exact h.sorted
  next r hr := by
    rw [hs.validRevisions] at hr
    obtain ⟨new, hnew, -⟩ := hs.restores
    rw [hs.nextRevisionId, hnew, length_append]
    have := h.next r hr
    omega
  kept r hr := by
    rw [hs.validRevisions] at hr
    obtain ⟨s₀, hinv, hlen, hkeeps⟩ := h.kept r hr
    exact ⟨s₀, hinv, hlen, hkeeps.undoable hs⟩

/-- The numbers of the snapshots are not seen. -/
lemma snapshot_keeps (h : Inv b s) (revisions : List Revision) (next : Nat) :
    Inv b { s with validRevisions := revisions, nextRevisionId := next } ∧
      ∀ s₀, Keeps b s₀ s → Keeps b s₀ { s with validRevisions := revisions, nextRevisionId := next } := by
  have hsame : Same b s.journal.entries s { s with validRevisions := revisions, nextRevisionId := next } := { h.refl with }
  exact ⟨h.of_same hsame rfl, fun s₀ ⟨new, hnew, hrestores⟩ =>
    ⟨new, hnew, hrestores.related (undoing b) (hnew ▸ hsame)⟩⟩

lemma Running.snapshot (h : Running b s) : Running b s.snapshot.2 := by
  obtain ⟨hinv, hkeeps⟩ := snapshot_keeps h.inv
    (s.validRevisions ++ [⟨s.nextRevisionId, s.journal.entries.length⟩]) (s.nextRevisionId + 1)
  refine ⟨hinv, ?_, forall_mem_append.2 ⟨fun r hr => ?_, ?_⟩, forall_mem_append.2 ⟨fun r hr => ?_, ?_⟩⟩
  · exact pairwise_append.2 ⟨h.sorted, pairwise_singleton _ _, fun r hr => forall_mem_singleton.2 (h.next r hr)⟩
  · have hnext := h.next r hr
    exact ⟨Nat.lt_succ_of_lt hnext.1, hnext.2⟩
  · exact forall_mem_singleton.2 ⟨Nat.lt_succ_self _, le_rfl⟩
  · obtain ⟨s₀, hinv₀, hlen, hkeep⟩ := h.kept r hr
    exact ⟨s₀, hinv₀, hlen, hkeeps s₀ hkeep⟩
  · exact forall_mem_singleton.2 ⟨s, h.inv, rfl, hkeeps s (.refl h.inv)⟩

/-- Back to a state that is kept. What was kept before it is still kept. -/
lemma Keeps.revertJournal (hinv : Inv b s₀) (h : Keeps b s₀ s) (revisions : List Revision) :
    ∃ t, s.revertJournal b s₀.journal.entries.length = some t ∧ Same b s₀.journal.entries s₀ t ∧ t.journal.entries =
      s₀.journal.entries ∧ Inv b { t with validRevisions := revisions } ∧ ∀ s₁, Keeps b s₁ s →
      s₁.journal.entries.length ≤ s₀.journal.entries.length → Keeps b s₁ { t with validRevisions := revisions } := by
  obtain ⟨new, hnew, u, hu, hsame⟩ := h
  have hu' : StateDB.revertJournal b s s₀.journal.entries.length =
      some { u with journal := { u.journal with entries := s₀.journal.entries } } := by
    rw [StateDB.revertJournal, hnew, drop_left, take_left, hu]
    rfl
  refine ⟨_, hu', { hsame with }, rfl, hinv.of_same { hsame with } rfl, fun s₁ ⟨new₁, hnew₁, hrestores⟩ hlen => ?_⟩
  -- the entries since `s₁` are those up to `s₀` and the new ones
  obtain ⟨mid, hmid⟩ : ∃ mid, s₀.journal.entries = s₁.journal.entries ++ mid := by
    rw [hnew] at hnew₁
    have hbegins : s₁.journal.entries <+: s₀.journal.entries ++ new := by
      rw [hnew₁]
      exact prefix_append _ _
    obtain ⟨mid, hmid⟩ := prefix_of_prefix_length_le hbegins (prefix_append _ _) hlen
    exact ⟨mid, hmid.symm⟩
  have hsplit : new₁ = mid ++ new := by
    rw [hnew, hmid, append_assoc] at hnew₁
    exact (append_cancel_left hnew₁).symm
  rw [hsplit] at hrestores
  obtain ⟨u', hu', hmid'⟩ := hrestores.older
  cases hu.symm.trans hu'
  refine ⟨mid, hmid, ?_⟩
  have hlog : Same b (s₁.journal.entries ++ mid) u
      { u with journal := { u.journal with entries := s₀.journal.entries }, validRevisions := revisions } :=
    { view := fun _ => rfl
      snapDestructs := rfl
      shared := fun _ _ _ _ => rfl
      created := hmid ▸ hsame.created
      refund := rfl
      logs := rfl
      logSize := rfl
      preimages := rfl
      accessList := .inl rfl
      dirties := fun _ _ => rfl }
  exact hmid'.related (undoing b) hlog

lemma getStateObject_nextRevisionId (s : StateDB) (addr : Address) :
    (s.getStateObject b addr).2.nextRevisionId = s.nextRevisionId := by
  obtain ⟨objects, heq, -⟩ := getStateObject_view (b := b) s addr
  rw [heq]

lemma revert_nextRevisionId {e : JournalEntry} (h : e.revert b s = some t) : t.nextRevisionId = s.nextRevisionId := by
  have hmodify : ∀ addr f, s.modifyObject b addr f = some t → t.nextRevisionId = s.nextRevisionId := by
    intro addr f hm
    rw [modifyObject_eq] at hm
    obtain ⟨o, -, rfl⟩ := map_eq_some_iff.1 hm
    rfl
  cases e with
  | createObject | refund | addPreimage | touch | accessListAddAccount => cases h; rfl
  | resetObject account prev prevdestruct =>
    rw [JournalEntry.revert] at h
    split at h
    · cases h; rfl
    · cases h; rfl
  | suicide account prev prevbalance =>
    rw [revert_suicide] at h
    split at h
    · cases h
      exact getStateObject_nextRevisionId s account
    · cases h; rfl
  | balance | nonce | storage | code => exact hmodify _ _ h
  | addLog txhash =>
    rw [JournalEntry.revert] at h
    split at h
    · cases h
    · cases h; rfl
  | accessListAddSlot address slot =>
    rw [JournalEntry.revert] at h
    split at h
    · cases h; rfl
    · obtain ⟨l, -, rfl⟩ := map_eq_some_iff.1 h
      rfl

lemma undoAll_nextRevisionId {es : List JournalEntry} (h : undoAll (undo b) es s = some t) :
    t.nextRevisionId = s.nextRevisionId := by
  induction es generalizing s with
  | nil => cases h; rfl
  | cons e es ih =>
    obtain ⟨u, hu, h⟩ := bind_eq_some_iff.1 h
    obtain ⟨v, hv, rfl⟩ := map_eq_some_iff.1 hu
    have hrevert : v.nextRevisionId = s.nextRevisionId := revert_nextRevisionId hv
    exact (ih h).trans hrevert

variable {r : Revision}

/-- The revisions around one of them, in their order. -/
lemma Running.split (h : Running b s) (hr : r ∈ s.validRevisions) :
    ∃ before after, s.validRevisions = before ++ r :: after ∧
      (∀ r' ∈ before, r'.id < r.id ∧ r'.journalIndex ≤ r.journalIndex) ∧ ∀ r' ∈ after, r.id < r'.id := by
  obtain ⟨before, after, hsplit⟩ := append_of_mem hr
  have hsorted := h.sorted
  rw [hsplit] at hsorted
  obtain ⟨-, hafter, hbefore⟩ := pairwise_append.1 hsorted
  exact ⟨before, after, hsplit, fun r' hr' => hbefore r' hr' r mem_cons_self,
    fun r' hr' => (rel_of_pairwise_cons hafter hr').1⟩

lemma findIdx_revision {before after : List Revision} (hbefore : ∀ r' ∈ before, r'.id < r.id) :
    (before ++ r :: after).findIdx (fun r' => r'.id ≥ r.id) = before.length := by
  have hnone : ¬ before.findIdx (fun r' => decide (r'.id ≥ r.id)) < before.length := by
    rw [findIdx_lt_length]
    rintro ⟨r', hr', hid⟩
    exact absurd (hbefore r' hr') (not_lt.2 (of_decide_eq_true hid))
  rw [findIdx_append, if_neg hnone, findIdx_cons]
  simp

/-- A revert to a valid revision does not panic, and leads to what it keeps. -/
lemma Running.revertToSnapshot (h : Running b s) (hr : r ∈ s.validRevisions) (hinv : Inv b s₀)
    (hlen : s₀.journal.entries.length = r.journalIndex) (hkeeps : Keeps b s₀ s) : ∃ t, s.revertToSnapshot b r.id =
      .ok t ∧ Running b t ∧ Same b s₀.journal.entries s₀ t ∧ ∀ r' ∈ s.validRevisions, r'.id < r.id →
      r' ∈ t.validRevisions ∧ ∀ s₁, s₁.journal.entries.length = r'.journalIndex → Keeps b s₁ s → Keeps b s₁ t := by
  obtain ⟨before, after, hsplit, hbefore, hafter⟩ := h.split hr
  obtain ⟨t, ht, hsame, hentries, hinv', hkept⟩ := hkeeps.revertJournal hinv before
  rw [hlen] at ht hkept
  have hnext : t.nextRevisionId = s.nextRevisionId := by
    obtain ⟨u, hu, rfl⟩ := map_eq_some_iff.1 ht
    have hundo : u.nextRevisionId = s.nextRevisionId := undoAll_nextRevisionId hu
    exact hundo
  have hmem : ∀ r' ∈ before, r' ∈ s.validRevisions := by
    intro r' hr'
    rw [hsplit]
    exact mem_append_left _ hr'
  refine ⟨{ t with validRevisions := before }, ?_, ⟨hinv', ?_, fun r' hr' => ?_, fun r' hr' => ?_⟩, { hsame with },
    fun r' hr' hid => ?_⟩
  · rw [StateDB.revertToSnapshot, hsplit, findIdx_revision fun r' hr' => (hbefore r' hr').1]
    simp [ht]
  · have hsorted := h.sorted
    rw [hsplit] at hsorted
    exact (pairwise_append.1 hsorted).1
  · rw [hnext, hentries, hlen]
    exact ⟨(h.next r' (hmem r' hr')).1, (hbefore r' hr').2⟩
  · obtain ⟨s₁, hinv₁, hlen₁, hkeeps₁⟩ := h.kept r' (hmem r' hr')
    exact ⟨s₁, hinv₁, hlen₁, hkept s₁ hkeeps₁ (hlen₁ ▸ (hbefore r' hr').2)⟩
  · have hr'' : r' ∈ before := by
      rw [hsplit] at hr'
      rcases mem_append.1 hr' with hr' | hr'
      · exact hr'
      · rcases mem_cons.1 hr' with rfl | hr'
        · exact absurd hid (lt_irrefl _)
        · exact absurd hid (hafter r' hr').asymm
    exact ⟨hr'', fun s₁ hlen₁ hkeeps₁ => hkept s₁ hkeeps₁ (hlen₁ ▸ (hbefore r' hr'').2)⟩

/-- A revision that is not valid is reported. -/
lemma revertToSnapshot_unknown (b : Backend) (s : StateDB) (revid : Nat) :
    (∃ r ∈ s.validRevisions, r.id = revid) ∨ s.revertToSnapshot b revid = .error .unknownRevision := by
  rw [revertToSnapshot]
  split
  · exact .inr rfl
  · next r hr =>
    split
    · exact .inr rfl
    · next hid => exact .inl ⟨r, mem_of_getElem? hr, not_not.1 hid⟩

/-! ## Runs -/

lemma Running.apply (hsafe : b.Safe) (h : Running b s) (op : Op) :
    op.apply b s ≠ .error .revert ∧ ∀ s', op.apply b s = .ok s' → Running b s' := by
  by_cases hop : op.isState = true
  · refine ⟨?_, fun s' hs => h.undoable (op.undoable hsafe h.inv hop hs)⟩
    cases op with
    | subRefund gas =>
      rw [Op.apply, subRefund]
      split <;> simp
    | revertToSnapshot revid => cases hop
    | _ => simp [Op.apply]
  · cases op with
    | snapshot =>
      refine ⟨by simp [Op.apply], fun s' hs => ?_⟩
      cases hs
      exact h.snapshot
    | revertToSnapshot revid =>
      rw [Op.apply]
      rcases revertToSnapshot_unknown b s revid with ⟨r, hr, rfl⟩ | hunknown
      · obtain ⟨s₀, hinv, hlen, hkeeps⟩ := h.kept r hr
        obtain ⟨t, ht, hrunning, -⟩ := h.revertToSnapshot hr hinv hlen hkeeps
        rw [ht]
        refine ⟨by simp, fun s' hs => ?_⟩
        cases hs
        exact hrunning
      · rw [hunknown]
        exact ⟨by simp, fun s' hs => by cases hs⟩
    | _ => exact absurd rfl hop

lemma run_cons {op : Op} {ops : List Op} (hs : s.run b (op :: ops) = .ok s') :
    ∃ u, op.apply b s = .ok u ∧ u.run b ops = .ok s' := by
  rw [run, foldlM_cons] at hs
  cases hu : op.apply b s with
  | error e => rw [hu] at hs; cases hs
  | ok u => exact ⟨u, rfl, by rw [hu] at hs; exact hs⟩

lemma Running.run (hsafe : b.Safe) (h : Running b s) (ops : List Op) :
    s.run b ops ≠ .error .revert ∧ ∀ s', s.run b ops = .ok s' → Running b s' := by
  induction ops generalizing s with
  | nil =>
    refine ⟨by simp [run, pure, Except.pure], fun s' hs => ?_⟩
    cases hs
    exact h
  | cons op ops ih =>
    obtain ⟨hpanic, hnext⟩ := h.apply hsafe op
    rw [run, foldlM_cons]
    cases hu : op.apply b s with
    | error e =>
      rw [hu] at hpanic
      exact ⟨hpanic, fun s' hs => by cases hs⟩
    | ok u => exact ih (hnext u hu)

/-- A snapshot is kept until a revert to it, or to an earlier one. -/
lemma Running.run_keeps (hsafe : b.Safe) (h : Running b s) (hr : r ∈ s.validRevisions)
    (hlen : s₀.journal.entries.length = r.journalIndex) (hkeeps : Keeps b s₀ s) {ops : List Op}
    (hops : ∀ revid ≤ r.id, .revertToSnapshot revid ∉ ops) (hs : s.run b ops = .ok s') :
    r ∈ s'.validRevisions ∧ Keeps b s₀ s' := by
  induction ops generalizing s with
  | nil =>
    cases hs
    exact ⟨hr, hkeeps⟩
  | cons op ops ih =>
    obtain ⟨u, hu, hs⟩ := run_cons hs
    suffices hstep : r ∈ u.validRevisions ∧ Keeps b s₀ u from
      ih ((h.apply hsafe op).2 u hu) hstep.1 hstep.2
        (fun revid hle hmem => hops revid hle (mem_cons_of_mem _ hmem)) hs
    by_cases hop : op.isState = true
    · have hundoable := op.undoable hsafe h.inv hop hu
      rw [hundoable.validRevisions]
      exact ⟨hr, hkeeps.undoable hundoable⟩
    · cases op with
      | snapshot =>
        cases hu
        exact ⟨mem_append_left _ hr, (snapshot_keeps h.inv _ _).2 s₀ hkeeps⟩
      | revertToSnapshot revid =>
        have hlater : r.id < revid := by
          by_contra hle
          exact hops revid (not_lt.1 hle) mem_cons_self
        rw [Op.apply] at hu
        rcases revertToSnapshot_unknown b s revid with ⟨r', hr', rfl⟩ | hunknown
        · obtain ⟨s₁, hinv₁, hlen₁, hkeeps₁⟩ := h.kept r' hr'
          obtain ⟨t, ht, -, -, hearlier⟩ := h.revertToSnapshot hr' hinv₁ hlen₁ hkeeps₁
          cases hu.symm.trans ht
          obtain ⟨hmem, hkeep⟩ := hearlier r hr hlater
          exact ⟨hmem, hkeep s₀ hlen hkeeps⟩
        · rw [hunknown] at hu
          cases hu
      | _ => exact absurd rfl hop

end Running

/-! ## What is observed -/

/-- Everything that the callers of a state see of it. -/
structure Observation where
  exist : Address → Bool
  empty : Address → Bool
  balance : Address → Int
  nonce : Address → UInt64
  code : Address → Option (List UInt8)
  codeHash : Address → Hash
  state : Address → Hash → Hash
  committedState : Address → Hash → Hash
  suicided : Address → Bool
  refund : UInt64
  /-- With their indices. -/
  logs : Hash → List Log
  logSize : Nat
  addressInAccessList : Address → Bool
  slotInAccessList : Address → Hash → Bool × Bool
  /-- What `Finalise` goes through, without the precompile at address 3. -/
  dirty : Address → Bool
  snapDestructs : Address → Bool

def StateDB.observe (b : Backend) (s : StateDB) : Observation where
  exist := s.exist b
  empty := s.empty b
  balance := s.getBalance b
  nonce := s.getNonce b
  code := fun addr => (s.getCode b addr).1
  codeHash := s.getCodeHash b
  state := fun addr key => (s.getState b addr key).1
  committedState := fun addr key => (s.getCommittedState b addr key).1
  suicided := s.hasSuicided b
  refund := s.refund
  logs := s.logs
  logSize := s.logSize
  addressInAccessList := s.addressInAccessList
  slotInAccessList := s.slotInAccessList
  dirty := fun addr => decide (addr ≠ ripemd ∧ s.journal.dirties addr ≠ 0)
  snapDestructs := s.snapDestructs

section Observe
variable {b : Backend} {s s' : StateDB} {log : List JournalEntry}

/-- What a live account shows. -/
def StateDB.seen (b : Backend) (s : StateDB) (addr : Address) : Option ObjectView :=
  (s.view b addr).filter fun v => !v.deleted

/-- A read of a field of the object. -/
lemma map_getStateObject {α : Type} (s : StateDB) (addr : Address) (f : ObjectView → α) :
    ((s.getStateObject b addr).1.map fun o => f (o.view b addr (s.snapDestructs addr) (s.shared addr))) =
      (s.seen b addr).map f := by
  rw [(getStateObject_eq s addr).1, map_live, seen]

lemma getCode_seen (s : StateDB) (addr : Address) : (s.getCode b addr).1 = ((s.seen b addr).map (·.code)).getD none := by
  rw [← map_getStateObject, getCode]
  rcases s.getStateObject b addr with ⟨_ | o, u⟩ <;> rfl

lemma slots_seen (s : StateDB) (addr : Address) (key : Hash) :
    (s.getState b addr key).1 = ((s.seen b addr).map fun v => v.state key).getD 0 ∧
      (s.getCommittedState b addr key).1 = ((s.seen b addr).map fun v => v.committed key).getD 0 := by
  obtain ⟨objects, heq, -⟩ := getStateObject_view (b := b) s addr
  rw [← map_getStateObject, ← map_getStateObject, getState, getCommittedState]
  rcases hget : s.getStateObject b addr with ⟨_ | o, u⟩
  · exact ⟨rfl, rfl⟩
  · rw [hget] at heq
    dsimp only at heq
    rw [heq]
    exact ⟨rfl, rfl⟩

/-- The part of an observation that reads accounts. -/
lemma observe_eq (s : StateDB) : s.observe b =
    { s.observe b with
      exist := fun addr => ((s.seen b addr).map fun _ => ()).isSome
      empty := fun addr => ((s.seen b addr).map fun v =>
        decide (v.nonce = 0 ∧ v.balance = 0 ∧ v.codeHash = b.emptyCodeHash)).getD true
      balance := fun addr => ((s.seen b addr).map (·.balance)).getD 0
      nonce := fun addr => ((s.seen b addr).map (·.nonce)).getD 0
      code := fun addr => ((s.seen b addr).map (·.code)).getD none
      codeHash := fun addr => ((s.seen b addr).map (·.codeHash)).getD 0
      state := fun addr key => ((s.seen b addr).map fun v => v.state key).getD 0
      committedState := fun addr key => ((s.seen b addr).map fun v => v.committed key).getD 0
      suicided := fun addr => ((s.seen b addr).map (·.suicided)).getD false } := by
  simp only [← getCode_seen, ← (slots_seen _ _ _).1, ← (slots_seen _ _ _).2]
  simp only [← map_getStateObject, Option.isSome_map]
  rfl

lemma Same.observe (h : Same b log s s') : s'.observe b = s.observe b := by
  have hseen : ∀ addr, s'.seen b addr = s.seen b addr := by
    intro addr
    rw [seen, seen, h.view]
  have haddress : s'.addressInAccessList = s.addressInAccessList := by
    funext addr
    rcases h.accessList with heq | ⟨hnone, hnew, -⟩
    · rw [addressInAccessList, heq]
      rfl
    · rw [addressInAccessList, addressInAccessList, hnone, hnew]
      rfl
  have hslot : s'.slotInAccessList = s.slotInAccessList := by
    funext addr slot
    rcases h.accessList with heq | ⟨hnone, hnew, -⟩
    · rw [slotInAccessList, heq]
      rfl
    · rw [slotInAccessList, slotInAccessList, hnone, hnew]
      rfl
  have hdirty : (s'.observe b).dirty = (s.observe b).dirty := by
    funext addr
    by_cases haddr : addr = ripemd
    · simp [StateDB.observe, haddr]
    · simp [StateDB.observe, h.dirties addr haddr]
  rw [observe_eq, observe_eq s]
  simp only [hseen, hdirty]
  simp only [StateDB.observe, haddress, hslot, h.refund, h.logs, h.logSize, h.snapDestructs]

end Observe

/-! ## Reverts -/

/-- Between two transactions, with whatever objects are loaded, pending or deleted. -/
structure Clean (s : StateDB) : Prop where
  entries : s.journal.entries = []
  validRevisions : s.validRevisions = []
  accessList : ∀ l, s.accessList = some l → l.WellFormed

lemma Clean.running {b : Backend} {s : StateDB} (h : Clean s) : Running b s where
  inv := by
    refine ⟨?_, ?_, ?_, h.accessList⟩ <;> simp [h.entries]
  sorted := by simp [h.validRevisions]
  next := by simp [h.validRevisions]
  kept := by simp [h.validRevisions]

/-- The account 7 with the value 5 in its slot 0. -/
def poolBackend (snap : Option Snap) : Backend where
  crypto := ⟨fun _ => 0, fun _ _ => none⟩
  snap := snap
  trieAccount := fun addr => if addr = 7 then some ⟨1, 0, 1, 0⟩ else none
  openStorageTrie := fun _ root key => some (if root = 1 ∧ key = 0 then 5 else 0)
  contractCode := fun _ _ => none
  storagePool := true
  writeOnSharedStorage := true

/-- A layer with the same account. -/
def poolSnap : Snap where
  account := fun addr => some (if addr = 7 then some ⟨1, 0, 1, 0⟩ else none)
  storage := fun addr key => some (if addr = 7 ∧ key = 0 then 5 else 0)

/-- A state that was just opened. -/
def opened : StateDB where
  snapDestructs := fun _ => false
  stateObjects := fun _ => none
  stateObjectsDirty := fun _ => false
  shared := fun _ _ => none
  refund := 0
  thash := 0
  txIndex := 0
  logs := fun _ => []
  logSize := 0
  preimages := fun _ => none
  accessList := none
  journal := ⟨[], fun _ => 0⟩
  validRevisions := []
  nextRevisionId := 0

lemma opened_clean : Clean opened := ⟨rfl, rfl, nofun⟩

/-- The pool is kept by address only. Without a snapshot layer, an object that replaces
another writes its zeros there, and the object that the revert brings back reads them. -/
theorem revert_reads_pool :
    (opened.getState (poolBackend none) 7 0).1 = 5 ∧
      ((opened.run (poolBackend none) [.snapshot, .createAccount 7, .getState 7 0, .revertToSnapshot 0]).toOption.map
        fun t => (t.getState (poolBackend none) 7 0).1) = some 0 := by
  decide +kernel

/-- Whatever is done after a snapshot, with snapshots and reverts of its own, a revert to it
does not panic and shows everything as it was. -/
theorem revertToSnapshot_restores {b : Backend} (hsafe : b.Safe) {s₀ s : StateDB} (hclean : Clean s₀) {earlier ops : List Op}
    (hs : s₀.run b earlier = .ok s) (hops : ∀ revid ≤ s.snapshot.1, .revertToSnapshot revid ∉ ops) :
    s.snapshot.2.run b ops ≠ .error .revert ∧
      ∀ s', s.snapshot.2.run b ops = .ok s' →
        ∃ t, s'.revertToSnapshot b s.snapshot.1 = .ok t ∧ t.observe b = s.observe b := by
  have hrunning := (hclean.running.run hsafe earlier).2 s hs
  obtain ⟨hpanic, hrun⟩ := hrunning.snapshot.run hsafe ops
  refine ⟨hpanic, fun s' hs' => ?_⟩
  have hkeeps : Keeps b s s.snapshot.2 := (snapshot_keeps hrunning.inv _ _).2 s (.refl hrunning.inv)
  have hmem : (⟨s.snapshot.1, s.journal.entries.length⟩ : Revision) ∈ s.snapshot.2.validRevisions :=
    mem_append_right _ mem_cons_self
  obtain ⟨hmem', hkeeps'⟩ := hrunning.snapshot.run_keeps hsafe hmem rfl hkeeps hops hs'
  obtain ⟨t, ht, -, hsame, -⟩ := (hrun s' hs').revertToSnapshot hmem' hrunning.inv rfl hkeeps'
  exact ⟨t, ht, hsame.observe⟩

/-- Account 7 is replaced, and a write to its new slot is reverted first. -/
theorem revertToSnapshot_restores_replaced :
    ∃ s' t, opened.snapshot.2.run (poolBackend (some poolSnap))
        [.createAccount 7, .getState 7 0, .snapshot, .setState 7 0 9, .revertToSnapshot 1] = .ok s' ∧
      s'.revertToSnapshot (poolBackend (some poolSnap)) 0 = .ok t ∧
      t.observe (poolBackend (some poolSnap)) = opened.observe (poolBackend (some poolSnap)) := by
  have hlater : ∀ revid ≤ opened.snapshot.1, Op.revertToSnapshot revid ∉
      [.createAccount 7, .getState 7 0, .snapshot, .setState 7 0 9, .revertToSnapshot 1] := by
    intro revid hle hmem
    simp only [mem_cons, not_mem_nil, reduceCtorEq, Op.revertToSnapshot.injEq, or_false, false_or] at hmem
    subst hmem
    exact absurd hle (by decide)
  have hsafe : (poolBackend (some poolSnap)).Safe := fun _ _ => rfl
  have hstart : opened.run (poolBackend (some poolSnap)) [] = .ok opened := rfl
  have hrun := (revertToSnapshot_restores hsafe opened_clean hstart hlater).2
  have hok : (opened.snapshot.2.run (poolBackend (some poolSnap))
      [.createAccount 7, .getState 7 0, .snapshot, .setState 7 0 9, .revertToSnapshot 1]).isOk = true := by
    decide +kernel
  cases hs : opened.snapshot.2.run (poolBackend (some poolSnap))
      [.createAccount 7, .getState 7 0, .snapshot, .setState 7 0 9, .revertToSnapshot 1] with
  | error e =>
    rw [hs] at hok
    cases hok
  | ok s' =>
    obtain ⟨t, ht, hobserve⟩ := hrun s' hs
    exact ⟨s', t, rfl, ht, hobserve⟩

end TurboOctopus.State
