import TurboOctopus.Rawdb.Repair
import TurboOctopus.Rawdb.Batch
/-!
# Crashes of a table

A table that was made by this code has no tail offset. Whatever was appended to it and cut
off it, it survives a crash that cuts its index and its head, as long as the first index entry
stays whole or goes altogether (`table_survives_crash`). A torn first entry, and a tail offset,
are what the code does not bear.
-/
namespace TurboOctopus.Rawdb

open Lib List

/-- Appends the blobs with their numbers, and commits. -/
def TableBatch.appendAll (S : Snappy) : List (List UInt8) → TableBatch.M Unit
  | [], s => commit s
  | blob :: blobs, s =>
    match appendRaw S s.1.curItem blob s with
    | .error e s => .error e s
    | .ok _ s => appendAll S blobs s

/-- The blob can be stored in either kind of table. -/
structure Sized (S : Snappy) (blob : List UInt8) : Prop where
  raw : blob.length < 2 ^ 32
  encoded : (S.encode blob).length < 2 ^ 32

lemma Sized.stored {S : Snappy} {blob : List UInt8} (h : Sized S blob) (t : Table) :
    (t.stored S blob).length < 2 ^ 32 := by
  unfold Table.stored
  split
  · exact h.raw
  · exact h.encoded

/-- By induction on the blobs, each of which goes to the end. -/
lemma TableBatch.Has.appendAll {S : Snappy} {batch : TableBatch} {bs blobs : List (List UInt8)} {n : Nat}
    (h : batch.Has S bs n) (hmax : batch.t.maxFileSize < 2 ^ 32) (hsized : ∀ b ∈ blobs, Sized S b) :
    ∃ batch', TableBatch.appendAll S blobs (batch, []) = .ok () (batch'.flushed, []) ∧
      batch'.Has S (bs ++ blobs) n ∧ batch.Keeps batch' := by
  induction blobs generalizing batch bs with
  | nil => exact ⟨batch, rfl, by rwa [append_nil], .refl batch⟩
  | cons b blobs ih =>
    obtain ⟨batch₁, hrun, h₁, hkeep₁⟩ := h.appendRaw ((hsized b mem_cons_self).stored batch.t) hmax
    obtain ⟨batch₂, hrest, h₂, hkeep₂⟩ := ih h₁ (hkeep₁.same.maxFileSize ▸ hmax)
      fun c hc => hsized c (mem_cons_of_mem b hc)
    refine ⟨batch₂, ?_, ?_, hkeep₁.trans hkeep₂⟩
    · rw [TableBatch.appendAll]
      simp only [h.curItem, hrun]
      exact hrest
    · rwa [append_assoc, singleton_append] at h₂

namespace Table

/-- The table after a history, and what its items should be. Items are smaller than 4 GiB and
file numbers stay below 65536, which is what an index entry has room for. After a crash the
items are as many of them as the table counts; it leaves the first index entry whole, or no
index at all. -/
inductive History (S : Snappy) (size : Nat) (raw : Bool) : Table → List (List UInt8) → Prop
  | create {t : Table} : newTable ⟨[], fun _ => none⟩ size raw = .ok t → History S size raw t []
  | append {t : Table} {bs blobs : List (List UInt8)} {batch : TableBatch} : History S size raw t bs →
      (∀ b ∈ blobs, Sized S b) → TableBatch.appendAll S blobs (.start t 0, []) = .ok () (batch, []) → batch.t.Bounded →
      History S size raw batch.t (bs ++ blobs)
  | truncate {t t' : Table} {bs : List (List UInt8)} {n : Nat} : History S size raw t bs → n ≤ t.items →
      Table.truncate n t = .ok () t' → History S size raw t' (bs.take n)
  | recover {t t' : Table} {bs : List (List UInt8)} {indexSize headSize : Nat} : History S size raw t bs →
      (indexSize = 0 ∨ indexEntrySize ≤ indexSize) →
      newTable (t.crash indexSize headSize) t.maxFileSize t.noCompression = .ok t' →
      History S size raw t' (bs.take t'.items)

variable {S : Snappy} {size : Nat} {raw : Bool} {t : Table} {bs : List (List UInt8)}

lemma Stores.recover (h : t.Stores S bs) {indexSize : Nat} (hindex : indexSize = 0 ∨ indexEntrySize ≤ indexSize)
    (headSize : Nat) : ∃ t', newTable (t.crash indexSize headSize) t.maxFileSize t.noCompression = .ok t' ∧
      t'.items ≤ bs.length ∧ t'.Stores S (bs.take t'.items) ∧ t.SameKind t' := by
  obtain ⟨xs, hxs, heq⟩ := h
  obtain ⟨k, t', hk, hrun, hholds, hkind⟩ := hxs.recover hindex headSize
  have hitems : t'.items = k := by rw [hholds.items, length_take, Nat.min_eq_left hk]
  refine ⟨t', hrun, by rw [hitems, ← length_of_stored heq]; exact hk, ⟨xs.take k, hholds, ?_⟩, hkind⟩
  rw [hitems, TableBatch.stored_sameKind hkind, map_take, heq, map_take]

/-- One lemma for each step of a history. -/
lemma History.stores (hsize : size < 2 ^ 32) (h : History S size raw t bs) :
    t.Stores S bs ∧ t.maxFileSize = size ∧ t.noCompression = raw := by
  induction h with
  | create hrun =>
    obtain ⟨t', hrun', hholds, hraw, hmax⟩ := newTable_empty size raw
    rw [hrun] at hrun'
    cases hrun'
    exact ⟨⟨[], hholds, rfl⟩, hmax, hraw⟩
  | append _ hsized hrun hb ih =>
    obtain ⟨hstores, hmax, hraw⟩ := ih
    obtain ⟨batch', hrun', hhas, hkeep⟩ := (TableBatch.has_start hstores 0).appendAll (hmax ▸ hsize) hsized
    rw [hrun] at hrun'
    cases hrun'
    have hkind := hkeep.trans (TableBatch.keeps_flushed batch')
    exact ⟨hhas.stores hb, hkind.same.maxFileSize.trans hmax, hkind.same.noCompression.trans hraw⟩
  | truncate _ _ hrun ih =>
    obtain ⟨hstores, hmax, hraw⟩ := ih
    obtain ⟨t'', hrun', hstores', hkind⟩ := hstores.truncate _
    rw [hrun] at hrun'
    cases hrun'
    exact ⟨hstores', hkind.maxFileSize.trans hmax, hkind.noCompression.trans hraw⟩
  | recover _ hindex hrun ih =>
    obtain ⟨hstores, hmax, hraw⟩ := ih
    obtain ⟨t'', hrun', -, hstores', hkind⟩ := hstores.recover hindex _
    rw [hrun] at hrun'
    cases hrun'
    exact ⟨hstores', hkind.maxFileSize.trans hmax, hkind.noCompression.trans hraw⟩

/-- After every history: each item can be read unchanged, truncating keeps exactly the items
below the limit, appending goes on behind them, and the table opens after a crash with a
beginning of its items. -/
theorem table_survives_crash (hsize : size < 2 ^ 32) (h : History S size raw t bs) :
    t.items = bs.length ∧ (∀ i b, bs[i]? = some b → t.retrieve S i = .ok b) ∧
    (∀ n ≤ bs.length, ∃ t', Table.truncate n t = .ok () t' ∧ History S size raw t' (bs.take n)) ∧
    (∀ blobs, (∀ b ∈ blobs, Sized S b) → ∃ batch, TableBatch.appendAll S blobs (.start t 0, []) = .ok () (batch, []) ∧
      (batch.t.Bounded → History S size raw batch.t (bs ++ blobs))) ∧
    ∀ indexSize headSize, indexSize = 0 ∨ indexEntrySize ≤ indexSize →
      ∃ t', newTable (t.crash indexSize headSize) t.maxFileSize t.noCompression = .ok t' ∧ t'.items ≤ bs.length ∧
        History S size raw t' (bs.take t'.items) := by
  obtain ⟨hstores, hmax, -⟩ := h.stores hsize
  refine ⟨hstores.items, fun i b hb => hstores.retrieve hb, fun n hn => ?_, fun blobs hsized => ?_,
    fun indexSize headSize hindex => ?_⟩
  · obtain ⟨t', hrun, -, -⟩ := hstores.truncate n
    exact ⟨t', hrun, .truncate h (hstores.items ▸ hn) hrun⟩
  · obtain ⟨batch, hrun, -, -⟩ := (TableBatch.has_start hstores 0).appendAll (hmax ▸ hsize) hsized
    exact ⟨batch.flushed, hrun, .append h hsized hrun⟩
  · obtain ⟨t', hrun, hle, -, -⟩ := hstores.recover hindex headSize
    exact ⟨t', hrun, hle, .recover h hindex hrun⟩

/-! ## A small table -/

/-- Blocks that are kept as they are. -/
def plainSnappy : Snappy := ⟨id, some, List.length, fun _ => rfl, fun _ => rfl⟩

lemma sized_two : ∀ b ∈ ([[1], [2, 3]] : List (List UInt8)), Sized plainSnappy b := by
  intro b hb
  have hlen : b.length < 2 ^ 32 := by
    simp only [mem_cons, not_mem_nil, or_false] at hb
    rcases hb with rfl | rfl <;> decide
  exact ⟨hlen, hlen⟩

/-- A new table, for files of two bytes. -/
def newSmall : Table :=
  match newTable ⟨[], fun _ => none⟩ 2 true with
  | .ok t => t
  | .error _ => ⟨⟨[], fun _ => none⟩, true, 2, 0, 0, 0, 0, 0, fun _ => false⟩

def twoItems : Table := (stateOf (TableBatch.appendAll plainSnappy [[1], [2, 3]] (.start newSmall 0, []))).1.t

lemma twoItems_history : History plainSnappy 2 true twoItems [[1], [2, 3]] :=
  .append (t := newSmall) (.create rfl) sized_two rfl ⟨by decide, by decide⟩

theorem table_survives_crash_two : ∃ t', newTable (twoItems.crash 13 1) 2 true = .ok t' ∧ t'.items ≤ 2 ∧
    History plainSnappy 2 true t' (([[1], [2, 3]] : List (List UInt8)).take t'.items) := by
  obtain ⟨-, -, -, -, hcrash⟩ := table_survives_crash (by decide) twoItems_history
  exact hcrash 13 1 (.inr (by decide))

/-- A table with the items 2 and 3, two items removed at its tail, and `head` in its only
data file. -/
def tailDisk (head : List UInt8) : Disk :=
  ⟨(⟨0, 2⟩ : IndexEntry).bytes ++ (⟨0, 1⟩ : IndexEntry).bytes ++ (⟨0, 2⟩ : IndexEntry).bytes,
    fun n => if n = 0 then some head else none⟩

/-- A crash that tears the first index entry leaves a table with 2^64 - 1 items, none of them
readable. With a tail offset, truncating to 3 items loses item 2, and a table whose head was
cut off does not open. -/
theorem torn_index_and_tail_offset :
    (History plainSnappy 2 true twoItems [[1], [2, 3]] ∧ ∃ t', newTable (twoItems.crash 3 2) 2 true = .ok t' ∧
      t'.items = 2 ^ 64 - 1 ∧ t'.retrieve plainSnappy 0 = .error .eof) ∧
    (∃ t t', newTable (tailDisk [7, 8]) 2 true = .ok t ∧ t.itemOffset = 2 ∧ t.items = 4 ∧
      t.retrieve plainSnappy 2 = .ok [7] ∧ Table.truncate 3 t = .ok () t' ∧
      t'.retrieve plainSnappy 2 = .error .eof) ∧
    newTable (tailDisk []) 2 true = .error .io := by
  have htorn : returns (newTable (twoItems.crash 3 2) 2 true) (fun t' =>
      decide (t'.items = 2 ^ 64 - 1) && decide (t'.retrieve plainSnappy 0 = .error .eof)) = true := by decide +kernel
  obtain ⟨t', hopen, htest⟩ := of_returns htorn
  simp only [Bool.and_eq_true, decide_eq_true_eq] at htest
  refine ⟨⟨twoItems_history, t', hopen, htest⟩, ⟨_, _, rfl, rfl, by decide, by decide, rfl, by decide⟩, rfl⟩

end Table

end TurboOctopus.Rawdb
