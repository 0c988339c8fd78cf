import TurboOctopus.Rawdb.Retrieve
/-!
# Writing to a table

A batch has written some blobs to the table and keeps others in its buffers. Without write
errors, `AppendRaw` adds one blob to the two lists together, whatever it writes and whether it
goes to a new file or not.
-/
namespace TurboOctopus.Rawdb

open Lib Lib.Segments List Table

lemma bytes_mod (filenum offset : Nat) :
    (⟨filenum, offset % 2 ^ 32⟩ : IndexEntry).bytes = (⟨filenum, offset⟩ : IndexEntry).bytes := by
  simp only [IndexEntry.bytes]
  rw [fixedBytes_mod 4 (offset % 2 ^ 32) offset (by omega)]

namespace Table
variable {t : Table} {xs : List (Placed UInt8)}

lemma Lays.advanceHead (h : t.Lays xs) : t.advanceHead.Lays xs := by
  have hnext : t.files (t.headId + 1) = false := by
    by_contra hopen
    exact absurd ((h.files _).1 (by simpa using hopen)) (by omega)
  have hempty : content (t.headId + 1) xs = [] := by
    apply content_eq_nil
    intro x hx
    have := h.file_le x hx
    omega
  unfold Table.advanceHead
  simp only [hnext, Bool.false_eq_true, if_false]
  refine ⟨h.index, fun f hf => ?_, fun f => ?_, h.items, h.itemOffset, h.tailId, ?_, h.ascending, fun x hx => ?_,
    h.offset_lt⟩
  · by_cases hid : f = t.headId + 1
    · subst hid
      refine (setData_self _ _ _).trans ?_
      rw [hempty]
    · refine (setData_ne hid _ _).trans ?_
      simp only at hf
      exact h.data f (by omega)
  · simp only [Function.update_apply]
    by_cases hid : f = t.headId + 1
    · simp [hid]
    · rw [if_neg hid]
      refine (h.files f).trans ?_
      omega
  · simp only [hempty, length_nil]
  · have := h.file_le x hx
    simp only
    omega

lemma advanceHead_sameKind (t : Table) : t.SameKind t.advanceHead := by
  unfold advanceHead
  cases hopen : t.files (t.headId + 1) with
  | true =>
    simp only [hopen, if_true]
    exact ⟨rfl, rfl⟩
  | false =>
    simp only [hopen, Bool.false_eq_true, if_false]
    exact ⟨rfl, rfl⟩

end Table

namespace TableBatch
variable {batch : TableBatch} {xs zs : List (Placed UInt8)} {data : List UInt8}

/-- The table has `xs`, and `zs` are in the buffers. -/
structure Pends (batch : TableBatch) (xs zs : List (Placed UInt8)) : Prop where
  lays : batch.t.Lays xs
  file : ∀ z ∈ zs, z.1 = batch.t.headId
  data : batch.dataBuffer = blobs zs
  index : batch.indexBuffer = (entriesFrom xs zs).flatMap IndexEntry.bytes
  curItem : batch.curItem = batch.offset + (xs.length + zs.length)
  offset_lt : ∀ e ∈ entriesFrom xs zs, e.offset < 2 ^ 32

/-- What a batch keeps: the kind of its table, its offset, and a head that only moves on. -/
structure Keeps (batch batch' : TableBatch) : Prop where
  same : batch.t.SameKind batch'.t
  offset : batch'.offset = batch.offset
  headId : batch.t.headId ≤ batch'.t.headId

lemma Keeps.refl (batch : TableBatch) : batch.Keeps batch := ⟨.refl _, rfl, Nat.le_refl _⟩

lemma Keeps.trans {b b' b'' : TableBatch} (h : b.Keeps b') (h' : b'.Keeps b'') : b.Keeps b'' :=
  ⟨h.same.trans h'.same, h'.offset.trans h.offset, h.headId.trans h'.headId⟩

lemma pends_start {t : Table} (h : t.Lays xs) (offset : Nat) : (start t offset).Pends xs [] where
  lays := h
  file := nofun
  data := rfl
  index := rfl
  curItem := by
    rw [start, h.items]
    exact Nat.add_comm _ _
  offset_lt := nofun

/-- The table after what waits has been written. -/
def flushed (batch : TableBatch) : TableBatch :=
  { batch with
    t := { (batch.t.setData batch.t.headId (some (batch.t.head ++ batch.dataBuffer))).setIndex
          (batch.t.disk.index ++ batch.indexBuffer) with
        headBytes := batch.t.headBytes + batch.dataBuffer.length, items := batch.curItem - batch.offset }
    dataBuffer := []
    indexBuffer := [] }

lemma commit_run (batch : TableBatch) : commit (batch, []) = .ok () (batch.flushed, []) := rfl

lemma Pends.flushed (h : batch.Pends xs zs) : batch.flushed.Pends (xs ++ zs) [] where
  lays := by
    have hhead : content batch.t.headId (xs ++ zs) = content batch.t.headId xs ++ batch.dataBuffer := by
      rw [content_append, content_of_forall h.file, h.data]
    refine ⟨?_, fun f hf => ?_, h.lays.files, ?_, h.lays.itemOffset, h.lays.tailId, ?_, ?_, fun x hx => ?_, fun e he => ?_⟩
    · rw [indexOf, entries_append, flatMap_append, ← h.index]
      exact congrArg (· ++ batch.indexBuffer) h.lays.index
    · by_cases hid : f = batch.t.headId
      · subst hid
        refine (setData_self _ _ _).trans ?_
        rw [h.lays.head, hhead]
      · have hnil : content f zs = [] := by
          apply content_eq_nil
          intro z hz
          rw [h.file z hz]
          exact Ne.symm hid
        refine (setData_ne hid _ _).trans ?_
        rw [h.lays.data f hf, content_append, hnil, append_nil]
    · rw [length_append]
      simp only [TableBatch.flushed, h.curItem]
      omega
    · simp only [TableBatch.flushed, setIndex, setData]
      rw [hhead, length_append, h.lays.headBytes]
    · refine pairwise_append.2 ⟨h.lays.ascending, ?_, fun x hx z hz => ?_⟩
      · refine pairwise_of_forall_mem_list fun y hy z hz => ?_
        rw [h.file y hy, h.file z hz]
      · rw [h.file z hz]
        exact h.lays.file_le x hx
    · rcases mem_append.1 hx with hx | hx
      · exact h.lays.file_le x hx
      · exact Nat.le_of_eq (h.file x hx)
    · rw [entries_append] at he
      exact (mem_append.1 he).elim (h.lays.offset_lt e) (h.offset_lt e)
  file := nofun
  data := rfl
  index := rfl
  curItem := by
    simp only [TableBatch.flushed, h.curItem, length_append, length_nil]
    omega
  offset_lt := nofun

lemma keeps_flushed (batch : TableBatch) : batch.Keeps batch.flushed := ⟨⟨rfl, rfl⟩, rfl, Nat.le_refl _⟩

lemma Pends.buffered (h : batch.Pends xs zs)
    (hstop : batch.t.headBytes + batch.dataBuffer.length + data.length < 2 ^ 32) :
    (batch.buffered data (batch.t.headBytes + batch.dataBuffer.length + data.length)).Pends xs
      (zs ++ [(batch.t.headId, data)]) := by
  have hcontent : (content batch.t.headId (xs ++ zs ++ [(batch.t.headId, data)])).length =
      batch.t.headBytes + batch.dataBuffer.length + data.length := by
    have hrun : content batch.t.headId zs = blobs zs := content_of_forall h.file
    rw [content_append, content_append, hrun, h.data, h.lays.headBytes, content_cons, if_pos rfl]
    simp [Nat.add_assoc]
  have hentries : entriesFrom xs (zs ++ [(batch.t.headId, data)]) = entriesFrom xs zs ++
      [⟨batch.t.headId, batch.t.headBytes + batch.dataBuffer.length + data.length⟩] := by
    rw [← hcontent]
    simp [entriesFrom, topsFrom_append, topsFrom]
  refine ⟨h.lays, forall_mem_append.2 ⟨h.file, forall_mem_singleton.2 rfl⟩, ?_, ?_, ?_, ?_⟩
  · simp [TableBatch.buffered, h.data, blobs]
  · rw [hentries, flatMap_append, ← h.index, flatMap_singleton, ← bytes_mod]
    rfl
  · simp only [TableBatch.buffered, h.curItem, length_append, length_singleton]
    omega
  · rw [hentries]
    exact forall_mem_append.2 ⟨h.offset_lt, forall_mem_singleton.2 hstop⟩

/-- `maybeCommit`. -/
lemma Pends.maybeCommit (h : batch.Pends xs zs) : ∃ batch' xs' zs', maybeCommit (batch, []) = .ok () (batch', []) ∧
      batch'.Pends xs' zs' ∧ xs' ++ zs' = xs ++ zs ∧ xs <+: xs' ∧ batch.Keeps batch' := by
  by_cases hfull : freezerBatchBufferLimit < batch.dataBuffer.length
  · refine ⟨batch.flushed, xs ++ zs, [], ?_, h.flushed, append_nil _, prefix_append _ _, keeps_flushed batch⟩
    rw [TableBatch.maybeCommit, if_pos hfull, commit_run]
  · refine ⟨batch, xs, zs, ?_, h, rfl, prefix_refl _, .refl batch⟩
    rw [TableBatch.maybeCommit, if_neg hfull]

lemma Pends.makeRoom (h : batch.Pends xs zs) (hsize : data.length < 2 ^ 32) (hmax : batch.t.maxFileSize < 2 ^ 32) :
    ∃ batch' xs' zs', makeRoom data.length (batch, []) =
      .ok (batch'.t.headBytes + batch'.dataBuffer.length) (batch', []) ∧ batch'.Pends xs' zs' ∧ xs' ++ zs' = xs ++ zs ∧
      xs <+: xs' ∧ batch.Keeps batch' ∧ batch'.t.headBytes + batch'.dataBuffer.length + data.length < 2 ^ 32 := by
  by_cases hfull : batch.t.maxFileSize < batch.t.headBytes + batch.dataBuffer.length + data.length
  · have hf := h.flushed
    refine ⟨{ batch.flushed with t := batch.flushed.t.advanceHead }, xs ++ zs, [], ?_, ?_, append_nil _,
      prefix_append _ _, ?_, ?_⟩
    · rw [TableBatch.makeRoom]
      simp only [if_pos hfull, commit_run]
      rfl
    · exact ⟨hf.lays.advanceHead, nofun, rfl, rfl, hf.curItem, nofun⟩
    · exact ⟨(keeps_flushed batch).same.trans batch.flushed.t.advanceHead_sameKind, rfl, Nat.le_succ _⟩
    · show 0 + 0 + data.length < 2 ^ 32
      omega
  · refine ⟨batch, xs, zs, ?_, h, rfl, prefix_refl _, .refl batch, by omega⟩
    rw [TableBatch.makeRoom]
    simp only [if_neg hfull]

/-- The item goes to the end of what is written and what waits. -/
lemma Pends.appendItem (h : batch.Pends xs zs) (hsize : data.length < 2 ^ 32) (hmax : batch.t.maxFileSize < 2 ^ 32) :
    ∃ batch' xs' zs' f, appendItem data (batch, []) = .ok () (batch', []) ∧ batch'.Pends xs' zs' ∧
      xs' ++ zs' = xs ++ zs ++ [(f, data)] ∧ xs <+: xs' ∧ batch.Keeps batch' := by
  obtain ⟨b₁, xs₁, zs₁, hroom, h₁, heq₁, hpre₁, hkeep₁, hstop⟩ := h.makeRoom hsize hmax
  obtain ⟨b₂, xs₂, zs₂, hcommit, h₂, heq₂, hpre₂, hkeep₂⟩ := (h₁.buffered hstop).maybeCommit
  refine ⟨b₂, xs₂, zs₂, b₁.t.headId, ?_, h₂, ?_, hpre₁.trans hpre₂, hkeep₁.trans ?_⟩
  · rw [TableBatch.appendItem, run_bind_of_ok hroom]
    exact hcommit
  · rw [heq₂, ← append_assoc, heq₁]
  · exact ⟨hkeep₂.same, hkeep₂.offset, hkeep₂.headId⟩

/-! ## Items -/

/-- The batch has the items `bs`; the first `n` are in the table and can be read back. -/
def Has (S : Snappy) (batch : TableBatch) (bs : List (List UInt8)) (n : Nat) : Prop :=
  ∃ xs zs, batch.Pends xs zs ∧ (xs ++ zs).map (·.2) = bs.map (batch.t.stored S) ∧ n ≤ xs.length ∧ Fits (xs.take n)

variable {S : Snappy} {bs : List (List UInt8)} {n : Nat}

lemma stored_sameKind {t t' : Table} (h : t.SameKind t') : t'.stored S = t.stored S := by
  funext b
  simp only [stored, h.noCompression]

lemma Has.curItem (h : batch.Has S bs n) : batch.curItem = batch.offset + bs.length := by
  obtain ⟨xs, zs, hp, heq, -, -⟩ := h
  rw [hp.curItem, ← length_append, length_of_stored heq]

lemma Has.le_items (h : batch.Has S bs n) : n ≤ batch.t.items := by
  obtain ⟨xs, zs, hp, -, hn, -⟩ := h
  rwa [hp.lays.items]

lemma has_start {t : Table} (h : t.Stores S bs) (offset : Nat) : (start t offset).Has S bs bs.length := by
  obtain ⟨xs, hxs, heq⟩ := h
  refine ⟨xs, [], pends_start hxs.toLays offset, ?_, Nat.le_of_eq (length_of_stored heq).symm, hxs.fits.take _⟩
  rw [append_nil, heq]
  rfl

lemma Has.appendRaw (h : batch.Has S bs n) {blob : List UInt8} (hsize : (batch.t.stored S blob).length < 2 ^ 32)
    (hmax : batch.t.maxFileSize < 2 ^ 32) : ∃ batch', appendRaw S (batch.offset + bs.length) blob (batch, []) =
      .ok () (batch', []) ∧ batch'.Has S (bs ++ [blob]) n ∧ batch.Keeps batch' := by
  have hcur := h.curItem
  obtain ⟨xs, zs, hp, heq, hn, hfits⟩ := h
  obtain ⟨batch', xs', zs', f, hrun, hp', heq', hpre, hkeep⟩ := hp.appendItem hsize hmax
  have htake : xs'.take n = xs.take n := by
    obtain ⟨r, rfl⟩ := hpre
    exact take_append_of_le_length hn
  refine ⟨batch', ?_, ⟨xs', zs', hp', ?_, hn.trans hpre.length_le, htake.symm ▸ hfits⟩, hkeep⟩
  · rw [TableBatch.appendRaw]
    simp only [hcur, ne_eq, not_true_eq_false, if_false]
    exact hrun
  · rw [heq', map_append, heq, stored_sameKind hkeep.same]
    simp

/-- An item with another number is refused. -/
lemma Has.appendRaw_refused (h : batch.Has S bs n) {item : Nat} (hitem : item ≠ batch.offset + bs.length)
    (blob : List UInt8) (faults : List Fault) : TableBatch.appendRaw S item blob (batch, faults) =
      .error (.outOrderInsertion item (batch.offset + bs.length)) (batch, faults) := by
  rw [TableBatch.appendRaw]
  simp only [h.curItem, if_pos hitem]

/-- After a commit everything is in the table, if it fits. -/
lemma Has.stores (h : batch.Has S bs n) (hb : batch.flushed.t.Bounded) : batch.flushed.t.Stores S bs := by
  obtain ⟨xs, zs, hp, heq, -, -⟩ := h
  exact ⟨xs ++ zs, hp.flushed.lays.holds hb, heq⟩

lemma Has.flushed (h : batch.Has S bs n) : batch.flushed.Has S bs n := by
  obtain ⟨xs, zs, hp, heq, hn, hfits⟩ := h
  refine ⟨xs ++ zs, [], hp.flushed, by rwa [append_nil], ?_, by rwa [take_append_of_le_length hn]⟩
  rw [length_append]
  omega

/-- Going back to the items that the table had before. -/
lemma Has.rollback (h : batch.Has S bs n) :
    ∃ t', truncate n batch.t = .ok () t' ∧ t'.Stores S (bs.take n) ∧ batch.t.SameKind t' := by
  obtain ⟨xs, zs, hp, heq, hn, hfits⟩ := h
  obtain ⟨t', hrun, hholds, hkind⟩ := hp.lays.truncate hfits
  refine ⟨t', hrun, ⟨xs.take n, hholds, ?_⟩, hkind⟩
  rw [stored_sameKind hkind, map_take, map_take, ← heq, map_append, take_append_of_le_length]
  rw [length_map]
  exact hn

end TableBatch

namespace Table
variable {t : Table} {S : Snappy} {bs : List (List UInt8)}

lemma Stores.truncate (h : t.Stores S bs) (n : Nat) :
    ∃ t', truncate n t = .ok () t' ∧ t'.Stores S (bs.take n) ∧ t.SameKind t' := by
  obtain ⟨xs, hxs, heq⟩ := h
  obtain ⟨t', hrun, hholds, hkind⟩ := hxs.truncate n
  refine ⟨t', hrun, ⟨xs.take n, hholds, ?_⟩, hkind⟩
  rw [TableBatch.stored_sameKind hkind, map_take, heq, map_take]

end Table

end TurboOctopus.Rawdb
