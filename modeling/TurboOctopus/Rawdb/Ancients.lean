import TurboOctopus.Rawdb.Freezer
import TurboOctopus.Rawdb.Crash
/-!
# A freezer is a numbered sequence

What a freezer holds is a list of items for each kind, numbered from the offset on. Every
operation does to the freezer what it does to the lists (`Op.spec`), and reads answer from the
lists. Two operations do not: `AncientRange` takes its start without the offset, and the
roll-back of a failed write truncates without the offset, and only what was committed.
-/
namespace TurboOctopus.Rawdb

open Lib Lib.Segments List Function TurboOctopus.Rawdb.Append Table

/-- The items of each kind. -/
abbrev Contents (κ : Type) := κ → List (List UInt8)

variable {κ : Type} [DecidableEq κ]

/-- An append counts if its number is the next. -/
def Append.spec (offset : Nat) (c : Contents κ) (a : Append κ) : Contents κ :=
  if a.num = offset + (c a.kind).length then Function.update c a.kind (c a.kind ++ [a.blob]) else c

def WriteOp.spec (offset : Nat) (c : Contents κ) (fn : WriteOp κ) : Contents κ :=
  fn.appends.foldl (Append.spec offset) c

variable {kind : κ}

lemma Append.spec_of_ne {offset : Nat} {c : Contents κ} {a : Append κ} (h : kind ≠ a.kind) :
    a.spec offset c kind = c kind := by
  unfold spec
  split
  · exact update_of_ne h _ _
  · rfl

lemma Append.prefix_spec (offset : Nat) (c : Contents κ) (a : Append κ) (kind : κ) :
    c kind <+: a.spec offset c kind ∧ (a.spec offset c kind).length ≤ (c kind).length + 1 := by
  unfold spec
  split
  · by_cases hk : kind = a.kind
    · subst hk
      rw [update_self]
      exact ⟨prefix_append _ _, by simp⟩
    · rw [update_of_ne hk]
      exact ⟨prefix_refl _, Nat.le_succ _⟩
  · exact ⟨prefix_refl _, Nat.le_succ _⟩

lemma prefix_foldl_spec (offset : Nat) (as : List (Append κ)) (c : Contents κ) (kind : κ) :
    c kind <+: as.foldl (spec offset) c kind ∧
      (as.foldl (spec offset) c kind).length ≤ (c kind).length + as.length := by
  induction as generalizing c with
  | nil => exact ⟨prefix_refl _, Nat.le_refl _⟩
  | cons a as ih =>
    obtain ⟨hpre, hlen⟩ := ih (a.spec offset c)
    obtain ⟨hpre', hlen'⟩ := a.prefix_spec offset c kind
    refine ⟨hpre'.trans hpre, hlen.trans ?_⟩
    rw [length_cons]
    omega

/-! ## Batches -/

/-- Each batch has the items of its kind, the first `n` of them in its table. -/
def Tracks (S : Snappy) (offset maxSize : Nat) (raw : κ → Bool) (n : Nat) (batches : List (κ × TableBatch))
    (c : Contents κ) : Prop :=
  ∀ e ∈ batches, e.2.Has S (c e.1) n ∧ e.2.offset = offset ∧ e.2.t.OfKind maxSize (raw e.1)

variable {S : Snappy} {offset maxSize n : Nat} {raw : κ → Bool} {c : Contents κ}

variable {batches : List (κ × TableBatch)}

lemma keys_appendTo {a : Append κ} {faults : List Fault} {s : Batches κ} (hrun : appendTo S a batches faults = some s) :
    s.1.map (·.1) = batches.map (·.1) := by
  induction batches generalizing s with
  | nil => cases hrun
  | cons e batches ih =>
    rw [appendTo] at hrun
    split at hrun
    · cases hrun
      rfl
    · obtain ⟨s', hrun', rfl⟩ := Option.map_eq_some_iff.1 hrun
      rw [map_cons, map_cons, ih hrun']

lemma Tracks.appendTo {a : Append κ} (hmax : maxSize < 2 ^ 32)
    (hsized : Sized S a.blob) (h : Tracks S offset maxSize raw n batches c) (hkeys : (batches.map (·.1)).Nodup)
    {s : Batches κ} (hrun : appendTo S a batches [] = some s) :
    s.2 = [] ∧ Tracks S offset maxSize raw n s.1 (a.spec offset c) := by
  induction batches generalizing s with
  | nil => cases hrun
  | cons e batches ih =>
    obtain ⟨kind, batch⟩ := e
    obtain ⟨hhas, hoff, hsize⟩ := h (kind, batch) mem_cons_self
    have hrest : Tracks S offset maxSize raw n batches c := fun e he => h e (mem_cons_of_mem _ he)
    rw [map_cons, nodup_cons] at hkeys
    rw [Rawdb.appendTo] at hrun
    by_cases hk : kind = a.kind
    · have hother : ∀ e ∈ batches, a.spec offset c e.1 = c e.1 := by
        intro e he
        have hmem : e.1 ∈ batches.map (·.1) := mem_map_of_mem he
        refine spec_of_ne fun heq => hkeys.1 ?_
        rwa [heq, ← hk] at hmem
      have htail : Tracks S offset maxSize raw n batches (a.spec offset c) := by
        intro e he
        rw [hother e he]
        exact hrest e he
      rw [if_pos hk] at hrun
      by_cases hnum : a.num = offset + (c a.kind).length
      · subst hk
        obtain ⟨batch', happend, hhas', hkeep⟩ := hhas.appendRaw (hsized.stored batch.t) (hsize.maxFileSize ▸ hmax)
        rw [hoff, ← hnum] at happend
        rw [happend] at hrun
        cases hrun
        refine ⟨rfl, forall_mem_cons.2 ⟨⟨?_, hkeep.offset.trans hoff, hkeep.same.ofKind hsize⟩, htail⟩⟩
        rw [spec, if_pos hnum]
        simp only [update_self]
        exact hhas'
      · subst hk
        rw [hhas.appendRaw_refused (by rw [hoff]; exact hnum)] at hrun
        cases hrun
        refine ⟨rfl, ?_⟩
        rw [spec, if_neg hnum]
        exact h
    · rw [if_neg hk, Option.map_eq_some_iff] at hrun
      obtain ⟨s', hrun', rfl⟩ := hrun
      obtain ⟨hfaults, htracks⟩ := ih hrest hkeys.2 hrun'
      refine ⟨hfaults, forall_mem_cons.2 ⟨?_, htracks⟩⟩
      rw [spec_of_ne hk]
      exact ⟨hhas, hoff, hsize⟩

lemma appendTo_isSome (a : Append κ) (batches : List (κ × TableBatch)) (faults : List Fault) :
    (appendTo S a batches faults).isSome = true ↔ a.kind ∈ batches.map (·.1) := by
  induction batches with
  | nil => simp [appendTo]
  | cons e batches ih =>
    obtain ⟨kind, batch⟩ := e
    rw [appendTo]
    by_cases hk : kind = a.kind
    · simp [hk]
    · rw [if_neg hk, Option.isSome_map, ih, map_cons, mem_cons]
      simp [Ne.symm hk]

/-- Whether the appends meet an unknown kind depends on the kinds only. -/
lemma runAppends_known (as : List (Append κ)) (s : Batches κ) :
    ((runAppends S as s).1 = true ↔ ∀ a ∈ as, a.kind ∈ s.1.map (·.1)) ∧
      (runAppends S as s).2.1.map (·.1) = s.1.map (·.1) := by
  induction as generalizing s with
  | nil => simp [runAppends]
  | cons a as ih =>
    have hsome := appendTo_isSome (S := S) a s.1 s.2
    rw [runAppends, forall_mem_cons, ← hsome]
    cases happ : appendTo S a s.1 s.2 with
    | none => simp
    | some s' =>
      have hmap := keys_appendTo happ
      simp only [Option.isSome_some, true_and, ← hmap]
      exact ih s'

lemma Tracks.runAppends {as : List (Append κ)} (hmax : maxSize < 2 ^ 32) (hsized : ∀ a ∈ as, Sized S a.blob)
    (h : Tracks S offset maxSize raw n batches c) (hkeys : (batches.map (·.1)).Nodup) {s : Batches κ}
    (hrun : runAppends S as (batches, []) = (true, s)) :
    s.2 = [] ∧ Tracks S offset maxSize raw n s.1 (as.foldl (spec offset) c) := by
  induction as generalizing batches c with
  | nil =>
    cases hrun
    exact ⟨rfl, h⟩
  | cons a as ih =>
    rw [Rawdb.runAppends] at hrun
    cases happ : Rawdb.appendTo S a batches [] with
    | none =>
      simp only [happ] at hrun
      cases hrun
    | some s' =>
      obtain ⟨batches', faults'⟩ := s'
      obtain ⟨hfaults, htracks⟩ := h.appendTo hmax (hsized a mem_cons_self) hkeys happ
      subst hfaults
      simp only [happ] at hrun
      exact ih (fun a' ha => hsized a' (mem_cons_of_mem a ha)) htracks (keys_appendTo happ ▸ hkeys) hrun

section
omit [DecidableEq κ]

lemma checkItems_ok_iff (hlt : ∀ e ∈ batches, e.2.curItem < maxUint64) {start item : Nat}
    (hstart : start ≤ maxUint64) : checkItems start batches = .ok item ↔ (∀ e ∈ batches, e.2.curItem = item) ∧
      (start < maxUint64 ∨ batches = [] → start = item) := by
  induction batches generalizing start with
  | nil => simp [checkItems]
  | cons e batches ih =>
    obtain ⟨kind, batch⟩ := e
    have hcur := hlt (kind, batch) mem_cons_self
    have hrest := ih (fun e he => hlt e (mem_cons_of_mem _ he)) hcur.le
    rw [checkItems]
    by_cases hbad : start < maxUint64 ∧ batch.curItem ≠ start
    · rw [if_pos hbad]
      simp only [reduceCtorEq, false_iff]
      rintro ⟨hall, hitem⟩
      exact hbad.2 ((hall (kind, batch) mem_cons_self).trans (hitem (.inl hbad.1)).symm)
    · rw [if_neg hbad, hrest]
      constructor
      · rintro ⟨hall, hitem⟩
        have heq := hitem (.inl hcur)
        refine ⟨forall_mem_cons.2 ⟨heq, hall⟩, fun hs => ?_⟩
        rcases hs with hs | hs
        · exact (not_not.1 fun hne => hbad ⟨hs, hne⟩).symm.trans heq
        · cases hs
      · rintro ⟨hall, -⟩
        exact ⟨fun e he => hall e (mem_cons_of_mem _ he), fun _ => hall (kind, batch) mem_cons_self⟩

lemma checkItems_iff (hne : batches ≠ []) (hlt : ∀ e ∈ batches, e.2.curItem < maxUint64) {item : Nat} :
    checkItems maxUint64 batches = .ok item ↔ ∀ e ∈ batches, e.2.curItem = item := by
  rw [checkItems_ok_iff hlt (Nat.le_refl _)]
  exact and_iff_left fun hor => hor.elim (fun hl => absurd hl (Nat.lt_irrefl _)) fun hnil => absurd hnil hne

lemma commitTables_run (batches : List (κ × TableBatch)) :
    ∃ size, commitTables batches [] = .ok size (batches.map fun e => (e.1, e.2.flushed), []) := by
  induction batches with
  | nil => exact ⟨0, rfl⟩
  | cons e batches ih =>
    obtain ⟨kind, batch⟩ := e
    obtain ⟨size, hrun⟩ := ih
    refine ⟨batch.flushed.totalBytes + size, ?_⟩
    rw [commitTables, TableBatch.commit_run]
    simp only [hrun, map_cons]

lemma keys_commitTables (batches : List (κ × TableBatch)) (faults : List Fault) :
    (stateOf (commitTables batches faults)).1.map (·.1) = batches.map (·.1) := by
  induction batches generalizing faults with
  | nil => rfl
  | cons e batches ih =>
    rw [commitTables]
    split
    · rfl
    next faults' _ =>
    have hrest := ih faults'
    split <;> next hrun =>
      rw [hrun] at hrest
      exact congrArg (e.1 :: ·) hrest

end

namespace Freezer

/-! ## The freezer against its lists -/

structure Holds (S : Snappy) (maxSize : Nat) (raw : κ → Bool) (f : Freezer κ) (c : Contents κ) : Prop where
  readonly : f.readonly = false
  nonempty : f.tables ≠ []
  keys : (f.tables.map (·.1)).Nodup
  stores : ∀ e ∈ f.tables, e.2.Stores S (c e.1)
  length : ∀ e ∈ f.tables, f.offset + (c e.1).length = f.frozen
  ofKind : ∀ e ∈ f.tables, e.2.OfKind maxSize (raw e.1)
  frozen : f.frozen < maxUint64

/-- The kinds of a freezer. -/
def kinds (f : Freezer κ) : List κ := f.tables.map (·.1)

variable {f f' : Freezer κ} {fn : WriteOp κ}

section
omit [DecidableEq κ]

lemma Holds.kinds_ne_nil (h : f.Holds S maxSize raw c) : f.kinds ≠ [] := fun hnil =>
  h.nonempty (map_eq_nil_iff.1 hnil)

/-- A freezer holds what each of its tables does. -/
lemma Holds.of_kinds {kinds : List κ} (hkinds : f.kinds = kinds) (hne : kinds ≠ []) (hkeys : kinds.Nodup)
    (hwritable : f.readonly = false) (hlt : f.frozen < maxUint64) (hall : ∀ e ∈ f.tables, e.2.Stores S (c e.1) ∧
      f.offset + (c e.1).length = f.frozen ∧ e.2.OfKind maxSize (raw e.1)) : f.Holds S maxSize raw c := by
  subst hkinds
  exact ⟨hwritable, fun hnil => hne (map_eq_nil_iff.2 hnil), hkeys, fun e he => (hall e he).1,
    fun e he => (hall e he).2.1, fun e he => (hall e he).2.2, hlt⟩

lemma Holds.tracks (h : f.Holds S maxSize raw c) :
    Tracks S f.offset maxSize raw (f.frozen - f.offset) (newBatches f.tables f.offset) c := by
  intro e he
  obtain ⟨⟨kind, t⟩, ht, rfl⟩ := mem_map.1 he
  have hlen : f.frozen - f.offset = (c kind).length := by
    have := h.length _ ht
    simp only at this
    omega
  refine ⟨?_, rfl, h.ofKind _ ht⟩
  rw [hlen]
  exact TableBatch.has_start (h.stores _ ht) f.offset

lemma keys_newBatches (tables : List (κ × Table)) (offset : Nat) :
    (newBatches tables offset).map (·.1) = tables.map (·.1) := by
  simp [newBatches]

lemma keys_tablesOf (batches : List (κ × TableBatch)) : (tablesOf batches).map (·.1) = batches.map (·.1) := by
  simp [tablesOf]

lemma kinds_rollback (f : Freezer κ) (batches : List (κ × TableBatch)) :
    (f.rollback batches).kinds = batches.map (·.1) := by
  simp [Freezer.kinds, Freezer.rollback, tablesOf]

/-- Without an offset, or where nothing was flushed, the roll-back brings every table back to
its items. -/
lemma Holds.rollback (h : f.Holds S maxSize raw c) (hkeys : batches.map (·.1) = f.kinds)
    (hkept : f.offset = 0 ∨ ∀ e ∈ batches, e.2.t.items = f.frozen - f.offset)
    (hhas : ∀ e ∈ batches, ∃ (b : TableBatch) (bs : _), b.t = e.2.t ∧ b.Has S bs (f.frozen - f.offset) ∧
      c e.1 <+: bs ∧ b.t.OfKind maxSize (raw e.1)) : (f.rollback batches).Holds S maxSize raw c := by
  have hlen : ∀ kind ∈ f.kinds, f.offset + (c kind).length = f.frozen := forall_mem_map.2 h.length
  rw [← hkeys] at hlen
  refine .of_kinds ((kinds_rollback f batches).trans hkeys) h.kinds_ne_nil h.keys h.readonly h.frozen fun e he => ?_
  obtain ⟨⟨kind, t⟩, ht, rfl⟩ := mem_map.1 he
  obtain ⟨⟨kind', batch⟩, hb, heq⟩ := mem_map.1 ht
  cases heq
  have hlen : f.offset + (c kind).length = f.frozen := hlen kind (mem_map_of_mem hb)
  have hn : f.frozen - f.offset = (c kind).length := by omega
  obtain ⟨b, bs, hbatch, hhas, hpre, hsize⟩ := hhas _ hb
  obtain ⟨t', hrun, hstores, hkind⟩ := hhas.rollback
  rw [hn, ← prefix_iff_eq_take.1 hpre] at hstores
  have htruncate : truncate f.frozen batch.t = .ok () t' := by
    rw [hbatch] at hrun
    rcases hkept with hzero | hkept
    · rwa [hzero, Nat.sub_zero] at hrun
    · have hitems : batch.t.items = _ := hkept _ hb
      unfold truncate at hrun ⊢
      rw [if_pos (Nat.le_of_eq hitems)] at hrun
      rw [if_pos (by omega), hrun]
  simp only [htruncate, stateOf]
  exact ⟨hstores, hlen, hkind.ofKind hsize⟩

end

/-- What a write needs of its items. -/
structure WriteOp.Allowed (S : Snappy) (f : Freezer κ) (fn : WriteOp κ) : Prop where
  sized : ∀ a ∈ fn.appends, Sized S a.blob
  count : f.frozen + fn.appends.length < maxUint64

/-- The write goes through: every kind is known, the function does not fail, and all tables
end at one number. -/
def WriteOp.Succeeds (f : Freezer κ) (c : Contents κ) (fn : WriteOp κ) : Prop :=
  (∀ a ∈ fn.appends, a.kind ∈ f.kinds) ∧ fn.fails = false ∧
    ∃ item, ∀ kind ∈ f.kinds, f.offset + (fn.spec f.offset c kind).length = item

section
omit [DecidableEq κ]

lemma Holds.writable (h : f.Holds S maxSize raw c) : ¬ f.readonly = true := by
  rw [h.readonly]
  exact Bool.false_ne_true

/-- The tables after a commit of all batches. -/
lemma Holds.commit (h : f.Holds S maxSize raw c) {c' : Contents κ}
    (htracks : Tracks S f.offset maxSize raw (f.frozen - f.offset) batches c') (hkeys : batches.map (·.1) = f.kinds)
    {item : Nat} (hitem : ∀ kind ∈ f.kinds, f.offset + (c' kind).length = item) (hlt : item < maxUint64)
    (hb : ∀ e ∈ batches, e.2.flushed.t.Bounded) :
    ({ f with frozen := item, tables := tablesOf (batches.map fun e => (e.1, e.2.flushed)) } : Freezer κ).Holds
      S maxSize raw c' := by
  have hkeys' : (tablesOf (batches.map fun e => (e.1, e.2.flushed))).map (·.1) = f.kinds := by
    rw [keys_tablesOf, ← hkeys]
    simp
  rw [← hkeys] at hitem
  refine .of_kinds hkeys' h.kinds_ne_nil h.keys h.readonly hlt fun e he => ?_
  obtain ⟨e', he', rfl⟩ := mem_map.1 he
  obtain ⟨e, hmem, rfl⟩ := mem_map.1 he'
  obtain ⟨hhas, -, hsize⟩ := htracks e hmem
  exact ⟨hhas.stores (hb e hmem), hitem e.1 (mem_map_of_mem hmem), (TableBatch.keeps_flushed e.2).same.ofKind hsize⟩

end

section Write
variable (hmax : maxSize < 2 ^ 32) (h : f.Holds S maxSize raw c) (hfn : WriteOp.Allowed S f fn)
include h hfn

lemma Holds.spec_lt (hk : kind ∈ f.kinds) : f.offset + (fn.spec f.offset c kind).length < maxUint64 := by
  obtain ⟨t, ht, rfl⟩ := mem_map.1 hk
  have hlen := h.length t ht
  have hle := (prefix_foldl_spec f.offset fn.appends c t.1).2
  have hcount := hfn.count
  rw [WriteOp.spec]
  omega

/-- The check passes if all lists end at one number. -/
lemma Holds.checked_iff (hkeys : batches.map (·.1) = f.kinds)
    (htracks : Tracks S f.offset maxSize raw (f.frozen - f.offset) batches (fn.spec f.offset c)) (item : Nat) :
    checkItems maxUint64 batches = .ok item ↔ ∀ kind ∈ f.kinds, f.offset + (fn.spec f.offset c kind).length = item := by
  have hcur : ∀ e ∈ batches, e.2.curItem = f.offset + (fn.spec f.offset c e.1).length := by
    intro e he
    obtain ⟨hhas, hoff, -⟩ := htracks e he
    rw [hhas.curItem, hoff]
  have hlt : ∀ e ∈ batches, e.2.curItem < maxUint64 := by
    intro e he
    rw [hcur e he]
    exact h.spec_lt hfn (hkeys ▸ mem_map_of_mem he)
  rw [checkItems_iff (mt (congrArg _) (hkeys ▸ h.kinds_ne_nil)) hlt, ← hkeys, forall_mem_map]
  exact forall₂_congr fun e he => by rw [hcur e he]

include hmax

lemma Holds.appended (hknown : ∀ a ∈ fn.appends, a.kind ∈ f.kinds) :
    ∃ batches, runAppends S fn.appends (newBatches f.tables f.offset, []) = (true, batches, []) ∧
      batches.map (·.1) = f.kinds ∧ Tracks S f.offset maxSize raw (f.frozen - f.offset) batches (fn.spec f.offset c) := by
  have hkeys := keys_newBatches f.tables f.offset
  obtain ⟨hall, hmap⟩ := runAppends_known (S := S) fn.appends (newBatches f.tables f.offset, [])
  rw [hkeys] at hall hmap
  cases hrun : runAppends S fn.appends (newBatches f.tables f.offset, []) with
  | mk b s =>
  obtain ⟨batches, faults⟩ := s
  rw [hrun] at hall hmap
  cases hall.2 hknown
  obtain ⟨rfl, htracks⟩ := h.tracks.runAppends hmax hfn.sized (hkeys ▸ h.keys) hrun
  exact ⟨batches, rfl, hmap, htracks⟩

/-- A write that goes through does to the lists what it should. -/
lemma Holds.modifyAncients :
    (WriteOp.Succeeds f c fn → ∃ size f', Freezer.modifyAncients S fn [] f = .ok size f' ∧ f'.kinds = f.kinds ∧
      f'.offset = f.offset ∧ ((∀ e ∈ f'.tables, e.2.Bounded) → f'.Holds S maxSize raw (fn.spec f.offset c))) ∧
    (¬ WriteOp.Succeeds f c fn → ∃ e f', Freezer.modifyAncients S fn [] f = .error e f') := by
  by_cases hknown : ∀ a ∈ fn.appends, a.kind ∈ f.kinds
  · obtain ⟨batches, hrun, hmap, htracks⟩ := h.appended hmax hfn hknown
    have hcheck := h.checked_iff hfn hmap htracks
    unfold Freezer.modifyAncients
    rw [if_neg h.writable]
    simp only [hrun]
    cases hfails : fn.fails with
    | true =>
      have hnot : ¬ WriteOp.Succeeds f c fn := fun hs => Bool.false_ne_true (hs.2.1.symm.trans hfails)
      simp only [if_true]
      exact ⟨fun hs => absurd hs hnot, fun _ => ⟨_, _, rfl⟩⟩
    | false =>
      simp only [Bool.false_eq_true, if_false]
      cases hitems : checkItems maxUint64 batches with
      | error e =>
        have hnot : ¬ WriteOp.Succeeds f c fn := by
          rintro ⟨-, -, item, hitem⟩
          rw [(hcheck item).2 hitem] at hitems
          cases hitems
        exact ⟨fun hs => absurd hs hnot, fun _ => ⟨_, _, rfl⟩⟩
      | ok item =>
        have hitem := (hcheck item).1 hitems
        obtain ⟨size, hcommit⟩ := commitTables_run batches
        simp only [hcommit]
        refine ⟨fun _ => ⟨_, _, rfl, ?_, rfl, fun hb => ?_⟩, fun hnot => absurd ⟨hknown, hfails, item, hitem⟩ hnot⟩
        · rw [Freezer.kinds, keys_tablesOf, map_map]
          exact hmap
        · obtain ⟨kind, hk⟩ := exists_mem_of_ne_nil _ h.kinds_ne_nil
          refine h.commit htracks hmap hitem (hitem kind hk ▸ h.spec_lt hfn hk) fun e he => hb (e.1, e.2.flushed.t) ?_
          exact mem_map.2 ⟨(e.1, e.2.flushed), mem_map.2 ⟨e, he, rfl⟩, rfl⟩
  · have hpanic := (runAppends_known (S := S) fn.appends (newBatches f.tables f.offset, [])).1.not.2
      (by rwa [keys_newBatches])
    refine ⟨fun hs => absurd hs.1 hknown, fun _ => ?_⟩
    unfold Freezer.modifyAncients
    rw [if_neg h.writable]
    split
    · exact ⟨_, _, rfl⟩
    next hrun =>
    rw [hrun] at hpanic
    exact absurd rfl hpanic

end Write

/-! ## Truncating and opening -/

omit [DecidableEq κ] in
lemma truncateTables_run {tables : List (κ × Table)} (h : ∀ e ∈ tables, e.2.Stores S (c e.1)) (n : Nat) :
    ∃ tables', truncateTables n tables = .ok () tables' ∧ tables'.map (·.1) = tables.map (·.1) ∧
      ∀ e' ∈ tables', ∃ e ∈ tables, e'.1 = e.1 ∧ e'.2.Stores S ((c e.1).take n) ∧ e.2.SameKind e'.2 := by
  induction tables with
  | nil => exact ⟨[], rfl, rfl, nofun⟩
  | cons e tables ih =>
    obtain ⟨kind, t⟩ := e
    obtain ⟨t', hrun, hstores, hkind⟩ := (h (kind, t) mem_cons_self).truncate n
    obtain ⟨tables', hrest, hkeys, hall⟩ := ih fun e he => h e (mem_cons_of_mem _ he)
    refine ⟨(kind, t') :: tables', ?_, by rw [map_cons, map_cons, hkeys],
      forall_mem_cons.2 ⟨⟨(kind, t), mem_cons_self, rfl, hstores, hkind⟩, fun e' he' => ?_⟩⟩
    · rw [truncateTables, hrun]
      simp only [hrest]
    · obtain ⟨e, he, hprops⟩ := hall e' he'
      exact ⟨e, mem_cons_of_mem _ he, hprops⟩

lemma sub64_of_le {a b : Nat} (hle : b ≤ a) (hlt : a < 2 ^ 64) : sub64 a b = a - b := by
  unfold sub64
  omega

omit [DecidableEq κ] in
lemma Holds.truncateAncients (h : f.Holds S maxSize raw c) {items : Nat} (hle : f.offset ≤ items) :
    ∃ f', Freezer.truncateAncients items f = .ok () f' ∧ f'.kinds = f.kinds ∧ f'.offset = f.offset ∧
      f'.Holds S maxSize raw fun kind => (c kind).take (items - f.offset) := by
  unfold Freezer.truncateAncients
  rw [if_neg h.writable]
  by_cases hall : f.frozen ≤ items
  · rw [if_pos hall]
    have htake : ∀ e ∈ f.tables, (c e.1).take (items - f.offset) = c e.1 := by
      intro e he
      have := h.length e he
      exact take_of_length_le (by omega)
    refine ⟨f, rfl, rfl, rfl, { h with stores := fun e he => ?_, length := fun e he => ?_ }⟩
    · rw [htake e he]
      exact h.stores e he
    · rw [htake e he]
      exact h.length e he
  · rw [if_neg hall]
    have hlt : items < 2 ^ 64 := by
      have := h.frozen
      unfold maxUint64 at this
      omega
    obtain ⟨tables', hrun, hkeys, hstores⟩ := truncateTables_run h.stores (items - f.offset)
    rw [sub64_of_le hle hlt, hrun]
    refine ⟨_, rfl, hkeys, rfl, .of_kinds hkeys h.kinds_ne_nil h.keys h.readonly ?_ fun e' he' => ?_⟩
    · have := h.frozen
      simp only
      omega
    · obtain ⟨e, he, hkind, hst, hsame⟩ := hstores e' he'
      rw [hkind]
      refine ⟨hst, ?_, hsame.ofKind (h.ofKind e he)⟩
      have := h.length e he
      rw [length_take]
      simp only
      omega

/-- The files of a freezer that is made new. -/
def newFiles (raw : κ → Bool) (kinds : List κ) : Files κ := kinds.map fun kind => (kind, ⟨[], fun _ => none⟩, raw kind)

omit [DecidableEq κ] in
lemma openTables_run {files : Files κ}
    (h : ∀ e ∈ files, ∃ t, newTable e.2.1 maxSize e.2.2 = .ok t ∧ t.Stores S (c e.1) ∧ t.OfKind maxSize (raw e.1)) :
    ∃ tables, openTables maxSize files = .ok tables ∧ tables.map (·.1) = files.map (·.1) ∧
      ∀ e ∈ tables, e.2.Stores S (c e.1) ∧ e.2.OfKind maxSize (raw e.1) := by
  induction files with
  | nil => exact ⟨[], rfl, rfl, nofun⟩
  | cons e files ih =>
    obtain ⟨kind, disk, disableSnappy⟩ := e
    obtain ⟨t, hrun, hstores, hsize⟩ := h _ mem_cons_self
    obtain ⟨tables, hrest, hkeys, hall⟩ := ih fun e he => h e (mem_cons_of_mem _ he)
    refine ⟨(kind, t) :: tables, ?_, by rw [map_cons, map_cons, hkeys], forall_mem_cons.2 ⟨⟨hstores, hsize⟩, hall⟩⟩
    rw [openTables, hrun, hrest]
    rfl

variable {n : Nat}

section
omit [DecidableEq κ]

lemma minItems_eq {tables : List (κ × Table)} (hne : tables ≠ []) (hn : n < maxUint64)
    (h : ∀ e ∈ tables, e.2.items = n) : minItems tables = n := by
  have hfold : ∀ (l : List (κ × Table)), (∀ e ∈ l, e.2.items = n) →
      l.foldl (fun min e => if e.2.items < min then e.2.items else min) n = n := by
    intro l hl
    induction l with
    | nil => rfl
    | cons e l ih =>
      rw [foldl_cons, hl e mem_cons_self, if_neg (Nat.lt_irrefl n)]
      exact ih fun e he => hl e (mem_cons_of_mem _ he)
  cases tables with
  | nil => exact absurd rfl hne
  | cons e tables =>
    rw [minItems, foldl_cons, h e mem_cons_self, if_pos hn]
    exact hfold tables fun e he => h e (mem_cons_of_mem _ he)

/-- Tables of one length open as they are. -/
lemma newFreezer_run {files : Files κ} {offset m : Nat} (hne : files ≠ []) (hkeys : (files.map (·.1)).Nodup)
    (h : ∀ e ∈ files, ∃ t, newTable e.2.1 maxSize e.2.2 = .ok t ∧ t.Stores S (c e.1) ∧ t.OfKind maxSize (raw e.1))
    (hlen : ∀ e ∈ files, (c e.1).length = m) (hlt : offset + m < maxUint64) : ∃ f, newFreezer offset maxSize files =
      .ok f ∧ f.kinds = files.map (·.1) ∧ f.offset = offset ∧ f.Holds S maxSize raw c := by
  obtain ⟨tables, hopen, hmap, hall⟩ := openTables_run h
  have hlen' : ∀ e ∈ tables, (c e.1).length = m := by
    have hkinds : ∀ kind ∈ files.map (·.1), (c kind).length = m := forall_mem_map.2 hlen
    rw [← hmap] at hkinds
    exact forall_mem_map.1 hkinds
  have hne' : tables ≠ [] := by
    rintro rfl
    exact hne (map_eq_nil_iff.1 hmap.symm)
  have hmin : minItems tables = m := minItems_eq hne' (by omega) fun e he => (hall e he).1.items.trans (hlen' e he)
  obtain ⟨tables', htrunc, hmap', hall'⟩ := truncateTables_run (fun e he => (hall e he).1) m
  have hfrozen : (m + offset) % 2 ^ 64 = offset + m := by
    unfold maxUint64 at hlt
    omega
  have hrun : newFreezer offset maxSize files = .ok ⟨offset + m, offset, false, tables'⟩ := by
    unfold newFreezer
    rw [hopen, ok_bind, hmin, htrunc, ← hfrozen]
  refine ⟨_, hrun, hmap'.trans hmap, rfl,
    .of_kinds (hmap'.trans hmap) (mt map_eq_nil_iff.1 hne) hkeys rfl hlt fun e' he' => ?_⟩
  obtain ⟨e, he, hkind, hst, hsame⟩ := hall' e' he'
  rw [take_of_length_le (Nat.le_of_eq (hlen' e he))] at hst
  rw [hkind]
  exact ⟨hst, congrArg _ (hlen' e he), hsame.ofKind (hall e he).2⟩

lemma Holds.reopen (h : f.Holds S maxSize raw c) : ∃ f', newFreezer f.offset maxSize f.close = .ok f' ∧ f'.kinds =
      f.kinds ∧ f'.offset = f.offset ∧ f'.Holds S maxSize raw c := by
  have hmap : f.close.map (·.1) = f.kinds := by simp [close, kinds]
  have hfiles : ∀ e ∈ f.close, ∃ t ∈ f.tables, e = (t.1, t.2.disk, t.2.noCompression) :=
    forall_mem_map.2 fun t ht => ⟨t, ht, rfl⟩
  obtain ⟨e₀, he₀⟩ := exists_mem_of_ne_nil f.tables h.nonempty
  have hlen₀ := h.length e₀ he₀
  have hfrozen := h.frozen
  have hopen : ∀ e ∈ f.close, ∃ t, newTable e.2.1 maxSize e.2.2 = .ok t ∧ t.Stores S (c e.1) ∧
      t.OfKind maxSize (raw e.1) := by
    intro e he
    obtain ⟨t, ht, rfl⟩ := hfiles e he
    obtain ⟨xs, hxs, heq⟩ := h.stores t ht
    obtain ⟨t', hopen, hholds, hsame⟩ := hxs.reopen
    rw [(h.ofKind t ht).maxFileSize] at hopen
    refine ⟨t', hopen, ⟨xs, hholds, ?_⟩, hsame.ofKind (h.ofKind t ht)⟩
    rw [heq, TableBatch.stored_sameKind hsame]
  have hlen : ∀ e ∈ f.close, (c e.1).length = f.frozen - f.offset := by
    intro e he
    obtain ⟨t, ht, rfl⟩ := hfiles e he
    have := h.length t ht
    simp only
    omega
  have hlt : f.offset + (f.frozen - f.offset) < maxUint64 := by omega
  obtain ⟨f', hrun, hkinds, hoffset, hholds⟩ := newFreezer_run (fun hnil => h.kinds_ne_nil (by rw [← hmap, hnil]; rfl))
    (by rw [hmap]; exact h.keys) hopen hlen hlt
  exact ⟨f', hrun, hkinds.trans hmap, hoffset, hholds⟩

end

omit [DecidableEq κ] in
/-- A new freezer holds nothing. -/
lemma holds_new {kinds : List κ} (hne : kinds ≠ []) (hkeys : kinds.Nodup) (hoffset : offset < maxUint64)
    (hopen : newFreezer offset maxSize (newFiles raw kinds) = .ok f) :
    f.kinds = kinds ∧ f.offset = offset ∧ f.Holds S maxSize raw fun _ => [] := by
  have hmap : (newFiles raw kinds).map (·.1) = kinds := map_map.trans (map_id kinds)
  rw [← hmap] at hkeys
  have htables : ∀ e ∈ newFiles raw kinds, ∃ t, newTable e.2.1 maxSize e.2.2 = .ok t ∧ t.Stores S [] ∧
      t.OfKind maxSize (raw e.1) := by
    refine forall_mem_map.2 fun k _ => ?_
    obtain ⟨t, hrun, hholds, hraw, hsize⟩ := newTable_empty maxSize (raw k)
    exact ⟨t, hrun, ⟨[], hholds, rfl⟩, hsize, hraw⟩
  obtain ⟨f', hrun, hkinds, hprops⟩ := newFreezer_run (c := fun _ => []) (m := 0) (fun hnil => hne (map_eq_nil_iff.1 hnil))
    hkeys htables (fun _ _ => rfl) hoffset
  cases hopen.symm.trans hrun
  exact ⟨hkinds.trans hmap, hprops⟩

/-! ## Histories -/

inductive Op (κ : Type) where
  | modify (fn : WriteOp κ)
  | truncate (items : Nat)
  | reopen

/-- The operation without errors of the disk. -/
def Op.run (S : Snappy) (maxSize : Nat) (f : Freezer κ) : Op κ → Except Err (Freezer κ)
  | .modify fn =>
    match Freezer.modifyAncients S fn [] f with
    | .ok _ f' => .ok f'
    | .error e _ => .error e
  | .truncate items =>
    match Freezer.truncateAncients items f with
    | .ok _ f' => .ok f'
    | .error e _ => .error e
  | .reopen => newFreezer f.offset maxSize f.close

/-- Items are smaller than 4 GiB and block numbers below 2^64 - 1; nothing below the offset is
truncated. -/
def Op.Allowed (S : Snappy) (f : Freezer κ) : Op κ → Prop
  | .modify fn => WriteOp.Allowed S f fn
  | .truncate items => f.offset ≤ items
  | .reopen => True

/-- What the operation does to the lists. -/
def Op.spec (offset : Nat) (c : Contents κ) : Op κ → Contents κ
  | .modify fn => fn.spec offset c
  | .truncate items => fun kind => (c kind).take (items - offset)
  | .reopen => c

/-- Operations that all succeed, with tables that do not run out of file numbers. -/
inductive Runs (S : Snappy) (maxSize : Nat) : List (Op κ) → Freezer κ → Freezer κ → Prop
  | nil {f : Freezer κ} : Runs S maxSize [] f f
  | cons {op : Op κ} {ops : List (Op κ)} {f f₁ g : Freezer κ} : op.Allowed S f → op.run S maxSize f = .ok f₁ →
      (∀ e ∈ f₁.tables, e.2.Bounded) → Runs S maxSize ops f₁ g → Runs S maxSize (op :: ops) f g

/-- Whether the operation goes through depends on the lists only. -/
def Op.Succeeds (f : Freezer κ) (c : Contents κ) : Op κ → Prop
  | .modify fn => WriteOp.Succeeds f c fn
  | _ => True

lemma Holds.run (hmax : maxSize < 2 ^ 32) (h : f.Holds S maxSize raw c) {op : Op κ} (hop : op.Allowed S f) :
    (op.Succeeds f c ↔ ∃ f', op.run S maxSize f = .ok f') ∧ ∀ f', op.run S maxSize f = .ok f' → f'.kinds = f.kinds ∧
      f'.offset = f.offset ∧ ((∀ e ∈ f'.tables, e.2.Bounded) → f'.Holds S maxSize raw (op.spec f.offset c)) := by
  cases op with
  | modify fn =>
    obtain ⟨hyes, hno⟩ := h.modifyAncients hmax hop
    by_cases hs : WriteOp.Succeeds f c fn
    · obtain ⟨size, f', hrun, hprops⟩ := hyes hs
      have hrun' : (Op.modify fn).run S maxSize f = .ok f' := by rw [Op.run, hrun]
      refine ⟨⟨fun _ => ⟨f', hrun'⟩, fun _ => hs⟩, fun f'' hrun'' => ?_⟩
      rw [hrun'] at hrun''
      cases hrun''
      exact hprops
    · obtain ⟨e, f', hrun⟩ := hno hs
      have hrun' : (Op.modify fn).run S maxSize f = .error e := by rw [Op.run, hrun]
      rw [hrun']
      refine ⟨⟨fun hs' => absurd hs' hs, fun hok => ?_⟩, fun _ hok => ?_⟩
      · obtain ⟨_, hok⟩ := hok
        cases hok
      · cases hok
  | truncate items =>
    obtain ⟨f', hrun, hkinds, hoffset, hholds⟩ := h.truncateAncients hop
    have hrun' : (Op.truncate items).run S maxSize f = .ok f' := by rw [Op.run, hrun]
    refine ⟨⟨fun _ => ⟨f', hrun'⟩, fun _ => trivial⟩, fun f'' hrun'' => ?_⟩
    rw [hrun'] at hrun''
    cases hrun''
    exact ⟨hkinds, hoffset, fun _ => hholds⟩
  | reopen =>
    obtain ⟨f', hrun, hkinds, hoffset, hholds⟩ := h.reopen
    refine ⟨⟨fun _ => ⟨f', hrun⟩, fun _ => trivial⟩, fun f'' hrun'' => ?_⟩
    rw [Op.run, hrun] at hrun''
    cases hrun''
    exact ⟨hkinds, hoffset, fun _ => hholds⟩

lemma Runs.holds (hmax : maxSize < 2 ^ 32) {ops : List (Op κ)} {g : Freezer κ} (hruns : Runs S maxSize ops f g)
    (h : f.Holds S maxSize raw c) :
    g.kinds = f.kinds ∧ g.offset = f.offset ∧ g.Holds S maxSize raw (ops.foldl (Op.spec f.offset) c) := by
  induction hruns generalizing c with
  | nil => exact ⟨rfl, rfl, h⟩
  | cons hop hrun hb _ ih =>
    obtain ⟨hkinds, hoffset, hholds⟩ := (h.run hmax hop).2 _ hrun
    obtain ⟨hkinds', hoffset', hholds'⟩ := ih (hholds hb)
    refine ⟨hkinds'.trans hkinds, hoffset'.trans hoffset, ?_⟩
    rw [hoffset] at hholds'
    exact hholds'

/-! ## Reading -/

section
variable (h : f.Holds S maxSize raw c)
include h

lemma Holds.lookup (hk : kind ∈ f.kinds) : ∃ t, (kind, t) ∈ f.tables ∧
      f.tables.lookup kind = some t ∧ t.Stores S (c kind) ∧ f.offset + (c kind).length = f.frozen := by
  obtain ⟨e, he, rfl⟩ := mem_map.1 hk
  have hsome : (f.tables.lookup e.1).isSome := lookup_isSome_iff.2 ⟨e, he, beq_self_eq_true _⟩
  obtain ⟨t, ht⟩ := Option.isSome_iff_exists.1 hsome
  have hmem : (e.1, t) ∈ f.tables := by
    obtain ⟨l₁, l₂, heq, -⟩ := lookup_eq_some_iff.1 ht
    rw [heq]
    exact mem_append_right _ mem_cons_self
  exact ⟨t, hmem, ht, h.stores (e.1, t) hmem, h.length (e.1, t) hmem⟩

lemma Holds.ancients (hk : kind ∈ f.kinds) :
    f.ancients = f.offset + (c kind).length := by
  obtain ⟨t, -, -, -, hlen⟩ := h.lookup hk
  exact hlen.symm

/-- A read answers from the list. -/
lemma Holds.ancient_eq (hk : kind ∈ f.kinds) (n : Nat) : f.ancient S kind n =
      match (c kind)[sub64 n f.offset]? with | some b => .ok b | none => .error .outOfBounds := by
  obtain ⟨t, -, ht, hstores, -⟩ := h.lookup hk
  unfold Freezer.ancient
  rw [ht]
  cases hb : (c kind)[sub64 n f.offset]? with
  | some b => exact hstores.retrieve hb
  | none => exact hstores.retrieve_outOfBounds (getElem?_eq_none_iff.1 hb)

lemma Holds.ancient (hk : kind ∈ f.kinds) (hlo : f.offset ≤ n)
    (hhi : n < f.ancients) : ∃ b, (c kind)[n - f.offset]? = some b ∧ f.ancient S kind n = .ok b := by
  have hlen := h.ancients hk
  have hfrozen : f.ancients < maxUint64 := h.frozen
  have hi : n - f.offset < (c kind).length := by omega
  refine ⟨_, getElem?_eq_getElem hi, ?_⟩
  rw [h.ancient_eq hk, sub64_of_le hlo (by unfold maxUint64 at hfrozen; omega), getElem?_eq_getElem hi]

/-- Numbers below the offset wrap around, beyond the end of the table. -/
lemma Holds.sub64_of_outside (hk : kind ∈ f.kinds) (hn : n < 2 ^ 64)
    (hout : ¬ (f.offset ≤ n ∧ n < f.ancients)) : (c kind).length ≤ sub64 n f.offset := by
  have hlen := h.ancients hk
  have hfrozen : f.ancients < maxUint64 := h.frozen
  unfold maxUint64 at hfrozen
  by_cases hlo : f.offset ≤ n
  · rw [sub64_of_le hlo hn]
    omega
  · unfold sub64
    omega

lemma Holds.hasAncient_iff_mem (hk : kind ∈ f.kinds) (hn : n < 2 ^ 64) :
    f.hasAncient kind n = true ↔ f.offset ≤ n ∧ n < f.ancients := by
  obtain ⟨t, -, ht, hstores, hlen⟩ := h.lookup hk
  have hhas : f.hasAncient kind n = true ↔ sub64 n f.offset < (c kind).length := by
    unfold Freezer.hasAncient
    rw [ht, ← hstores.items]
    exact decide_eq_true_iff
  rw [hhas]
  by_cases hin : f.offset ≤ n ∧ n < f.ancients
  · refine ⟨fun _ => hin, fun _ => ?_⟩
    rw [sub64_of_le hin.1 hn]
    have := hin.2
    unfold Freezer.ancients at this
    omega
  · exact ⟨fun hlt => absurd hlt (Nat.not_lt.2 (h.sub64_of_outside hk hn hin)), fun hin' => absurd hin' hin⟩

lemma Holds.hasAncient_iff (hk : kind ∈ f.kinds) (hn : n < 2 ^ 64) :
    f.hasAncient kind n = true ↔ ∃ b, f.ancient S kind n = .ok b := by
  rw [h.hasAncient_iff_mem hk hn]
  by_cases hin : f.offset ≤ n ∧ n < f.ancients
  · obtain ⟨b, -, hrun⟩ := h.ancient hk hin.1 hin.2
    exact ⟨fun _ => ⟨b, hrun⟩, fun _ => hin⟩
  · refine ⟨fun hin' => absurd hin' hin, fun ⟨b, hrun⟩ => ?_⟩
    rw [h.ancient_eq hk, getElem?_eq_none (h.sub64_of_outside hk hn hin)] at hrun
    cases hrun

end

/-- How many bytes of a file an item takes. -/
def storedSize (S : Snappy) (raw : Bool) (b : List UInt8) : Nat := if raw then b.length else (S.encode b).length

lemma storedSize_eq {t : Table} {raw : Bool} (h : t.OfKind maxSize raw) :
    (fun b => (t.stored S b).length) = storedSize S raw := by
  funext b
  unfold stored storedSize
  rw [h.noCompression]
  split <;> rfl

/-- A range starts at the position of its number, without the offset. -/
lemma Holds.ancientRange (h : f.Holds S maxSize raw c) (hk : kind ∈ f.kinds) {start count maxBytes : Nat}
    (hstart : start < (c kind).length) (hcount : 0 < count) (hlimit : count * sliceHeaderSize ≤ maxAlloc)
    (hmem : maxBytes ≤ maxAlloc) : f.ancientRange S kind start count maxBytes =
      .ok (fitOne List.length maxBytes (fitOne (storedSize S (raw kind)) maxBytes (((c kind).drop start).take count))) := by
  obtain ⟨t, ht', ht, hstores, -⟩ := h.lookup hk
  unfold Freezer.ancientRange
  rw [ht, ← storedSize_eq (h.ofKind _ ht')]
  exact hstores.retrieveItems hstart hcount hlimit hmem

variable {ops : List (Op κ)} {g g' : Freezer κ}

/-- After every history the items of a kind are numbered from the offset on: they are read by
their numbers, `HasAncient` says which there are, and a range is the items from its start on,
counted without the offset, that the limit leaves of what is stored and of what is read. -/
theorem freezer_is_sequence {kinds : List κ} (hmax : maxSize < 2 ^ 32) (hne : kinds ≠ []) (hkeys : kinds.Nodup)
    (hoffset : offset < maxUint64) (hopen : newFreezer offset maxSize (newFiles raw kinds) = .ok f)
    (hruns : Runs S maxSize ops f g) {kind : κ} (hk : kind ∈ kinds) :
    ∃ items, items = ops.foldl (Op.spec offset) (fun _ => []) kind ∧ g.ancients = offset + items.length ∧
      (∀ n, offset ≤ n → n < g.ancients → ∃ b, items[n - offset]? = some b ∧ g.ancient S kind n = .ok b) ∧
      (∀ n < 2 ^ 64, (g.hasAncient kind n = true ↔ offset ≤ n ∧ n < g.ancients) ∧
        (g.hasAncient kind n = true ↔ ∃ b, g.ancient S kind n = .ok b)) ∧
      ∀ start count maxBytes, start < items.length → 0 < count → count * Table.sliceHeaderSize ≤ maxAlloc →
        maxBytes ≤ maxAlloc → g.ancientRange S kind start count maxBytes = .ok (fitOne List.length maxBytes
          (fitOne (storedSize S (raw kind)) maxBytes ((items.drop start).take count))) := by
  obtain ⟨hkinds, hoffset', hholds⟩ := holds_new (S := S) hne hkeys hoffset hopen
  obtain ⟨hkinds', hoffset'', hg⟩ := hruns.holds hmax hholds
  rw [hoffset'] at hoffset'' hg
  have hk' : kind ∈ g.kinds := by
    rw [hkinds', hkinds]
    exact hk
  have hlen := hg.ancients hk'
  rw [hoffset''] at hlen
  refine ⟨_, rfl, hlen, fun n hlo hhi => ?_, fun n hn => ⟨?_, hg.hasAncient_iff hk' hn⟩,
    fun start count maxBytes => hg.ancientRange hk'⟩
  · have hget := hg.ancient hk' (hoffset''.symm ▸ hlo) hhi
    rwa [hoffset''] at hget
  · have hin := hg.hasAncient_iff_mem hk' hn
    rwa [hoffset''] at hin

/-! ## Failed writes -/

/-- Nobody can tell the freezers apart by reading. -/
structure Alike (S : Snappy) (f g : Freezer κ) : Prop where
  items : g.tables.map (fun e => (e.1, e.2.items)) = f.tables.map fun e => (e.1, e.2.items)
  ancients : g.ancients = f.ancients
  ancient : ∀ kind n, g.ancient S kind n = f.ancient S kind n
  hasAncient : ∀ kind n, g.hasAncient kind n = f.hasAncient kind n
  ancientRange : ∀ kind start count maxBytes, start < f.itemAmountInAncient → 0 < count →
    count * Table.sliceHeaderSize ≤ maxAlloc → maxBytes ≤ maxAlloc →
    g.ancientRange S kind start count maxBytes = f.ancientRange S kind start count maxBytes

lemma lookup_of_not_mem_kinds (hk : kind ∉ f.kinds) : f.tables.lookup kind = none := by
  refine lookup_eq_none_iff.2 fun e he => ?_
  rw [bne_iff_ne]
  rintro rfl
  exact hk (mem_map_of_mem he)

lemma Holds.alike (h : f.Holds S maxSize raw c) (h' : f'.Holds S maxSize raw c) (hkinds : f'.kinds = f.kinds)
    (hoffset : f'.offset = f.offset) : Alike S f f' := by
  have hitems : ∀ {f : Freezer κ}, f.Holds S maxSize raw c →
      f.tables.map (fun e => (e.1, e.2.items)) = f.kinds.map fun kind => (kind, (c kind).length) := by
    intro f h
    rw [kinds, map_map]
    refine map_congr_left fun e he => ?_
    exact Prod.ext rfl (h.stores e he).items
  obtain ⟨e, he⟩ := exists_mem_of_ne_nil f.tables h.nonempty
  have hk : e.1 ∈ f.kinds := mem_map_of_mem he
  have hfrozen : f'.ancients = f.ancients := by
    rw [h.ancients hk, h'.ancients (hkinds ▸ hk), hoffset]
  have hunknown : ∀ kind ∉ f.kinds, f.tables.lookup kind = none ∧ f'.tables.lookup kind = none := fun kind hk =>
    ⟨lookup_of_not_mem_kinds hk, lookup_of_not_mem_kinds (hkinds ▸ hk)⟩
  refine ⟨by rw [hitems h, hitems h', hkinds], hfrozen, fun kind n => ?_, fun kind n => ?_,
    fun kind start count maxBytes hstart hcount hlimit hmem => ?_⟩
  all_goals by_cases hk : kind ∈ f.kinds
  · rw [h.ancient_eq hk, h'.ancient_eq (hkinds ▸ hk), hoffset]
  · simp only [Freezer.ancient, hunknown kind hk]
  · obtain ⟨t, -, ht, hstores, -⟩ := h.lookup hk
    obtain ⟨t', -, ht', hstores', -⟩ := h'.lookup (hkinds ▸ hk)
    simp only [Freezer.hasAncient, ht, ht', has, hstores.items, hstores'.items, hoffset]
  · simp only [Freezer.hasAncient, hunknown kind hk]
  · have hlen := h.ancients hk
    have hlt : f.ancients < maxUint64 := h.frozen
    have hstart' : start < (c kind).length := by
      have heq : f.itemAmountInAncient = f.ancients - f.offset :=
        sub64_of_le (by unfold Freezer.ancients at hlen; omega) (by unfold maxUint64 Freezer.ancients at hlt; omega)
      omega
    rw [h.ancientRange hk hstart' hcount hlimit hmem, h'.ancientRange (hkinds ▸ hk) hstart' hcount hlimit hmem]
  · simp only [Freezer.ancientRange, hunknown kind hk]

lemma Alike.allowed (h : Alike S g g') (hoffset : g'.offset = g.offset) {op : Op κ} (hop : op.Allowed S g) :
    op.Allowed S g' := by
  cases op with
  | modify fn =>
    have hfrozen : g'.frozen = g.frozen := h.ancients
    exact ⟨hop.sized, hfrozen.symm ▸ hop.count⟩
  | truncate items =>
    show g'.offset ≤ items
    rw [hoffset]
    exact hop
  | reopen => trivial

lemma Op.succeeds_congr (hkinds : g'.kinds = g.kinds) (hoffset : g'.offset = g.offset) (op : Op κ) :
    op.Succeeds g' c ↔ op.Succeeds g c := by
  cases op with
  | modify fn =>
    unfold Op.Succeeds WriteOp.Succeeds
    rw [hkinds, hoffset]
  | truncate items => exact Iff.rfl
  | reopen => exact Iff.rfl

/-- The batches after the appends, if no write fails. -/
def appended (S : Snappy) (f : Freezer κ) (fn : WriteOp κ) : List (κ × TableBatch) :=
  (runAppends S fn.appends (newBatches f.tables f.offset, [])).2.1

/-- The batches that a failed write is rolled back from. -/
def reached (S : Snappy) (f : Freezer κ) (fn : WriteOp κ) (faults : List Fault) : List (κ × TableBatch) :=
  match runAppends S fn.appends (newBatches f.tables f.offset, faults) with
  | (_, batches, faults) =>
    if fn.fails then batches
    else
      match checkItems maxUint64 batches with
      | .error _ => batches
      | .ok _ => (stateOf (commitTables batches faults)).1

/-- No item has come to its table. -/
def Kept (f : Freezer κ) (batches : List (κ × TableBatch)) : Prop := ∀ e ∈ batches, e.2.t.items = f.frozen - f.offset

/-- Every table is as the appends leave it if no write fails, or is committed. -/
def Whole (S : Snappy) (f : Freezer κ) (fn : WriteOp κ) (faults : List Fault) : Prop :=
  ∀ e ∈ f.reached S fn faults, ∃ b, (e.1, b) ∈ f.appended S fn ∧ (e.2.t = b.t ∨ e.2.t = b.flushed.t)

section
variable {faults : List Fault} {e : Err}

lemma keys_reached (f : Freezer κ) (fn : WriteOp κ) (faults : List Fault) :
    (f.reached S fn faults).map (·.1) = f.kinds := by
  have hmap := (runAppends_known (S := S) fn.appends (newBatches f.tables f.offset, faults)).2
  rw [keys_newBatches] at hmap
  unfold reached
  split
  next hrun =>
  rw [hrun] at hmap
  split
  · exact hmap
  · split
    · exact hmap
    · exact (keys_commitTables _ _).trans hmap

/-- A failed write ends in the roll-back. -/
lemma eq_rollback (hwritable : ¬ f.readonly = true)
    (hfail : Freezer.modifyAncients S fn faults f = .error e f') (hpanic : e ≠ .panic) :
    (∀ a ∈ fn.appends, a.kind ∈ f.kinds) ∧ f' = f.rollback (f.reached S fn faults) := by
  have hknown := (runAppends_known (S := S) fn.appends (newBatches f.tables f.offset, faults)).1
  rw [keys_newBatches] at hknown
  unfold Freezer.modifyAncients at hfail
  rw [if_neg hwritable] at hfail
  unfold reached
  cases hrun : runAppends S fn.appends (newBatches f.tables f.offset, faults) with
  | mk b s =>
  rw [hrun] at hknown
  simp only [hrun] at hfail
  cases b with
  | false =>
    cases hfail
    exact absurd rfl hpanic
  | true =>
  refine ⟨hknown.1 rfl, ?_⟩
  -- the function, the check of the item numbers or the commit fails
  by_cases hfails : fn.fails = true
  · simp only [hfails, if_true] at hfail ⊢
    cases hfail
    rfl
  · simp only [hfails] at hfail ⊢
    cases hcheck : checkItems maxUint64 s.1 with
    | error e =>
      simp only [hcheck] at hfail
      cases hfail
      rfl
    | ok item =>
      simp only [hcheck] at hfail
      cases hcommit : commitTables s.1 s.2 <;> simp only [hcommit] at hfail <;> cases hfail
      rfl

section Holds
variable (hmax : maxSize < 2 ^ 32) (h : f.Holds S maxSize raw c) (hfn : WriteOp.Allowed S f fn)
include hmax h hfn

lemma Holds.has_reached (hknown : ∀ a ∈ fn.appends, a.kind ∈ f.kinds) (hwhole : f.Whole S fn faults) :
    ∀ e ∈ f.reached S fn faults, ∃ (b : TableBatch) (bs : _), b.t = e.2.t ∧ b.Has S bs (f.frozen - f.offset) ∧
      c e.1 <+: bs ∧ b.t.OfKind maxSize (raw e.1) := by
  intro e he
  obtain ⟨batches, hrun, -, htracks⟩ := h.appended hmax hfn hknown
  obtain ⟨b, hb, ht⟩ := hwhole e he
  rw [Freezer.appended, hrun] at hb
  obtain ⟨hhas, -, hsize⟩ := htracks _ hb
  have hpre := (prefix_foldl_spec f.offset fn.appends c e.1).1
  rcases ht with ht | ht
  · exact ⟨b, _, ht.symm, hhas, hpre, hsize⟩
  · exact ⟨b.flushed, _, ht.symm, hhas.flushed, hpre, (TableBatch.keeps_flushed b).same.ofKind hsize⟩

lemma Holds.failed (hfail : Freezer.modifyAncients S fn faults f = .error e f') (hpanic : e ≠ .panic)
    (hwhole : f.Whole S fn faults) (hkept : f.offset = 0 ∨ f.Kept (f.reached S fn faults)) :
    f'.kinds = f.kinds ∧ f'.offset = f.offset ∧ f'.Holds S maxSize raw c := by
  obtain ⟨hknown, rfl⟩ := eq_rollback h.writable hfail hpanic
  have hkeys := keys_reached (S := S) f fn faults
  exact ⟨(kinds_rollback f _).trans hkeys, rfl, h.rollback hkeys hkept (h.has_reached hmax hfn hknown hwhole)⟩

/-- Without errors of the disk, the tables are always whole. -/
lemma Holds.whole (hknown : ∀ a ∈ fn.appends, a.kind ∈ f.kinds) : f.Whole S fn [] := by
  obtain ⟨batches, hrun, -⟩ := h.appended hmax hfn hknown
  obtain ⟨size, hcommit⟩ := commitTables_run batches
  unfold Whole reached Freezer.appended
  simp only [hrun, hcommit]
  split
  · exact fun e he => ⟨e.2, he, .inl rfl⟩
  · split
    · exact fun e he => ⟨e.2, he, .inl rfl⟩
    · exact forall_mem_map.2 fun e he => ⟨e.2, he, .inr rfl⟩

end Holds

omit [DecidableEq κ]

/-- The roll-back takes off at most what is above the number of frozen blocks. -/
lemma le_items_truncate (items : Nat) (t : Table) : min t.items items ≤ (stateOf (truncate items t)).items := by
  unfold truncate
  split
  · exact Nat.min_le_left _ _
  · dsimp only
    split
    · exact Nat.min_le_left _ _
    · exact Nat.min_le_right _ _

/-- With an offset, it leaves an item that has come to its table. -/
lemma Holds.kept_of_items (h : f.Holds S maxSize raw c) (hle : ∀ e ∈ batches, f.frozen - f.offset ≤ e.2.t.items)
    (hitems : (f.rollback batches).tables.map (fun e => (e.1, e.2.items)) = f.tables.map fun e => (e.1, e.2.items)) :
    f.offset = 0 ∨ f.Kept batches := by
  refine or_iff_not_imp_left.2 fun hoffset e he => ?_
  have hmem : (e.1, (stateOf (truncate f.frozen e.2.t)).items) ∈ f.tables.map fun e => (e.1, e.2.items) := by
    rw [← hitems]
    exact mem_map_of_mem (mem_map_of_mem (mem_map_of_mem he))
  obtain ⟨e', he', heq⟩ := mem_map.1 hmem
  have hlen := h.length e' he'
  rw [← (h.stores e' he').items, (Prod.mk.inj heq).2] at hlen
  have hmin := le_items_truncate f.frozen e.2.t
  have hge := hle e he
  omega

end

/-- Histories with failed writes that are undone. -/
inductive Tries (S : Snappy) (maxSize : Nat) (f : Freezer κ) : Freezer κ → Prop
  | nil : Tries S maxSize f f
  | run {op : Op κ} {g g' : Freezer κ} : Tries S maxSize f g → op.Allowed S g → op.run S maxSize g = .ok g' →
      (∀ e ∈ g'.tables, e.2.Bounded) → Tries S maxSize f g'
  | fail {fn : WriteOp κ} {faults : List Fault} {e : Err} {g g' : Freezer κ} : Tries S maxSize f g →
      WriteOp.Allowed S g fn → Freezer.modifyAncients S fn faults g = .error e g' → e ≠ .panic →
      g.Whole S fn faults → (g.offset = 0 ∨ g.Kept (g.reached S fn faults)) → Tries S maxSize f g'

lemma Tries.holds (hmax : maxSize < 2 ^ 32) (htries : Tries S maxSize f g) (h : f.Holds S maxSize raw c) :
    g.offset = f.offset ∧ ∃ c', g.Holds S maxSize raw c' := by
  induction htries with
  | nil => exact ⟨rfl, c, h⟩
  | run _ hop hrun hb ih =>
    obtain ⟨hoffset, c', hg⟩ := ih
    obtain ⟨-, hoffset', hholds⟩ := (hg.run hmax hop).2 _ hrun
    exact ⟨hoffset'.trans hoffset, _, hholds hb⟩
  | fail _ hfn hfail hpanic hwhole hkept ih =>
    obtain ⟨hoffset, c', hg⟩ := ih
    obtain ⟨-, hoffset', hholds⟩ := hg.failed hmax hfn hfail hpanic hwhole hkept
    exact ⟨hoffset'.trans hoffset, c', hholds⟩

/-- A new freezer with one kind, for files of two bytes. -/
def oneKind (offset : Nat) : Freezer Unit :=
  match newFreezer offset 2 (newFiles (fun _ => true) [()]) with
  | .ok f => f
  | .error _ => ⟨0, offset, false, []⟩

/-- Two items of two bytes, from this number on. -/
def twoBlocks (number : Nat) (fails : Bool) : WriteOp Unit := ⟨[⟨(), number, [7, 7]⟩, ⟨(), number + 1, [8, 8]⟩], fails⟩

lemma twoBlocks_allowed (fails : Bool) : WriteOp.Allowed plainSnappy (oneKind 0) (twoBlocks 0 fails) := by
  refine ⟨fun a ha => ?_, Nat.lt_of_le_of_lt (Nat.le_refl 2) (by decide)⟩
  simp only [twoBlocks, mem_cons, not_mem_nil, or_false] at ha
  rcases ha with rfl | rfl <;> exact ⟨by decide, by decide⟩

def twoFrozen : Freezer Unit := stateOf (Freezer.modifyAncients Table.plainSnappy (twoBlocks 0 false) [] (oneKind 0))

lemma twoFrozen_bounded : ∀ e ∈ twoFrozen.tables, e.2.Bounded := by
  have hall : ∀ e ∈ twoFrozen.tables, e.2.headId < 2 ^ 16 ∧ e.2.items < 2 ^ 60 := by decide +kernel
  exact fun e he => ⟨(hall e he).1, (hall e he).2⟩

lemma twoFrozen_runs : Runs plainSnappy 2 [.modify (twoBlocks 0 false)] (oneKind 0) twoFrozen :=
  .cons (twoBlocks_allowed false) rfl twoFrozen_bounded .nil

theorem freezer_is_sequence_two : twoFrozen.ancients = 2 ∧ (∃ b, twoFrozen.ancient Table.plainSnappy () 1 = .ok b) ∧
    twoFrozen.ancientRange Table.plainSnappy () 0 5 4 = .ok [[7, 7], [8, 8]] := by
  have hopen : newFreezer 0 2 (newFiles (fun _ => true) [()]) = .ok (oneKind 0) := rfl
  obtain ⟨items, rfl, hlen, hget, -, hrange⟩ := freezer_is_sequence (by decide) (cons_ne_nil () [])
    (by decide) (by decide) hopen twoFrozen_runs (mem_singleton_self ())
  refine ⟨hlen, ?_, ?_⟩
  · obtain ⟨b, -, hb⟩ := hget 1 (by decide) (by rw [hlen]; decide)
    exact ⟨b, hb⟩
  · exact hrange 0 5 4 (by decide) (by decide) (by decide) (by decide)

/-- With an offset of 1, a range from the first item on cannot be read. -/
theorem range_ignores_offset : ∃ size f, Freezer.modifyAncients Table.plainSnappy (twoBlocks 1 false) [] (oneKind 1) = .ok size f ∧
    f.ancients = 3 ∧ f.ancient Table.plainSnappy () 1 = .ok [7, 7] ∧ f.ancient Table.plainSnappy () 2 = .ok [8, 8] ∧
    f.ancientRange Table.plainSnappy () 1 2 4 = .ok [[8, 8]] ∧
    f.ancientRange Table.plainSnappy () 2 1 4 = .error .outOfBounds :=
  ⟨_, _, rfl, by decide +kernel, by decide +kernel, by decide +kernel, by decide +kernel, by decide +kernel⟩

end Freezer

end TurboOctopus.Rawdb
