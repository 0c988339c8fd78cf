import TurboOctopus.Rawdb.Layout
/-!
# Opening a table

A disk has the beginning of a list of blobs if its index is that of the beginning, its data
files below the last are whole and the last is a beginning of what it was (`Disk.Has`). From
such a disk `repair` opens a table that holds a beginning, without an error; nothing is lost
if the last file reaches as far as the index says.
-/
namespace TurboOctopus.Rawdb

open Lib Lib.Segments List

/-- The disk has an index of the first `n` blobs, and their data except what was cut off the
end of the last file. -/
structure Disk.Has (d : Disk) (xs : List (Placed UInt8)) (n : Nat) : Prop where
  index : d.index = indexOf (xs.take n)
  data : ∀ f < (topEntry (xs.take n)).filenum, d.data f = some (content f xs)
  last : ∃ c, d.data (topEntry (xs.take n)).filenum = some c ∧ c <+: content (topEntry (xs.take n)).filenum xs

namespace Table
variable {t : Table} {xs : List (Placed UInt8)} {n : Nat}

/-- The size of the file that the last entry is in. -/
def lastSize (t : Table) (xs : List (Placed UInt8)) (n : Nat) : Nat :=
  ((t.disk.data (topEntry (xs.take n)).filenum).getD []).length

lemma topEntry_take_mono (hasc : Ascending xs) (n : Nat) :
    (topEntry (xs.take n)).filenum ≤ (topEntry (xs.take (n + 1))).filenum := by
  refine topEntry_filenum_le fun x hx => le_topEntry (hasc.take (n + 1)) ?_
  exact (take_sublist_take_left (Nat.le_succ n)).subset hx

lemma entryBefore_indexOf (hfits : Fits xs) (buffer : IndexEntry) (hn : n ≤ xs.length) :
    entryBefore (indexOf (xs.take n)) buffer (n + 1) = topEntry (xs.take n) := by
  have hread := (hfits.take n).readAt_top
  rw [length_take, Nat.min_eq_left hn] at hread
  rw [entryBefore, hread]
  rfl

/-- One entry less: the last file is the same, or one that is whole. -/
lemma has_pred (hasc : Ascending xs) (h : t.disk.Has xs (n + 1)) :
    (t.setIndex (indexOf (xs.take n))).disk.Has xs n := by
  have hle := topEntry_take_mono hasc n
  refine ⟨rfl, fun f hf => h.data f (Nat.lt_of_lt_of_le hf hle), ?_⟩
  rcases Nat.lt_or_eq_of_le hle with hlt | heq
  · exact ⟨_, h.data _ hlt, prefix_refl _⟩
  · rw [heq]
    exact h.last

lemma lastSize_openForAppend (t : Table) (xs : List (Placed UInt8)) (n : Nat) :
    (t.openForAppend (topEntry (xs.take n)).filenum).lastSize xs n = t.lastSize xs n := by
  rw [lastSize, lastSize, openForAppend_self]
  rfl

lemma has_openForAppend (h : t.disk.Has xs n) : (t.openForAppend (topEntry (xs.take n)).filenum).disk.Has xs n := by
  obtain ⟨c, hc, hpre⟩ := h.last
  refine ⟨h.index, fun f hf => ?_, ⟨c, ?_, hpre⟩⟩
  · rw [openForAppend_ne (Nat.ne_of_lt hf)]
    exact h.data f hf
  · rw [openForAppend_self, hc]
    rfl

variable {last : IndexEntry} {size : Nat} {t' : Table}

lemma repairLoop_of_lt (h : last.offset < size) (t : Table) :
    repairLoop n last size t = .ok (n, last, last.offset)
      (t.setData last.filenum (some (resize ((t.disk.data last.filenum).getD []) last.offset))) := by
  rw [repairLoop.eq_def, if_pos h]

lemma repairLoop_of_eq (h : size = last.offset) (t : Table) :
    repairLoop n last size t = .ok (n, last, last.offset) t := by
  rw [repairLoop.eq_def, if_neg (by omega), if_neg (by omega), h]

lemma repairLoop_of_gt {newLast : IndexEntry} (h : size < last.offset) (t : Table)
    (hnew : entryBefore (resize t.disk.index (n * indexEntrySize)) last n = newLast) :
    repairLoop (n + 1) last size t =
      let u := t.setIndex (resize t.disk.index (n * indexEntrySize))
      if newLast.filenum ≠ last.filenum then
        repairLoop n newLast (((u.openForAppend newLast.filenum).disk.data newLast.filenum).getD []).length
          (u.openForAppend newLast.filenum)
      else repairLoop n newLast size u := by
  rw [repairLoop, if_neg (by omega), if_pos h, ← hnew]
  rfl

/-- What the loop of `repair` leaves: the first `k` blobs, with the last file as long as
the index says. -/
structure Repaired (t t' : Table) (xs : List (Placed UInt8)) (k : Nat) : Prop where
  has : t'.disk.Has xs k
  last : t'.disk.data (topEntry (xs.take k)).filenum = some (content (topEntry (xs.take k)).filenum (xs.take k))
  tailId : t'.tailId = t.tailId
  itemOffset : t'.itemOffset = t.itemOffset
  same : t.SameKind t'

lemma Repaired.of_setIndex {index : List UInt8} (h : (t.setIndex index).Repaired t' xs n) : t.Repaired t' xs n :=
  { h with same := { h.same with } }

lemma Repaired.of_openForAppend {id : Nat} (h : (t.openForAppend id).Repaired t' xs n) : t.Repaired t' xs n :=
  { h with same := { h.same with } }

/-- A file that is too long is cut. -/
lemma repaired_cut (h : t.disk.Has xs n) (hle : (topEntry (xs.take n)).offset ≤ t.lastSize xs n) :
    t.Repaired (t.setData (topEntry (xs.take n)).filenum
      (some (resize ((t.disk.data (topEntry (xs.take n)).filenum).getD []) (topEntry (xs.take n)).offset))) xs n := by
  obtain ⟨c, hc, hpre⟩ := h.last
  rw [lastSize, hc, Option.getD_some, topEntry_offset] at hle
  rw [hc, Option.getD_some, topEntry_offset, resize_content hpre hle]
  refine ⟨⟨h.index, fun f hf => ?_, ?_⟩, setData_self _ _ _, rfl, rfl, rfl, rfl⟩
  · rw [setData_ne (Nat.ne_of_lt hf)]
    exact h.data f hf
  · exact ⟨_, setData_self _ _ _, content_take_isPrefix _ _ _⟩

lemma repaired_of_eq (h : t.disk.Has xs n) (heq : t.lastSize xs n = (topEntry (xs.take n)).offset) :
    t.Repaired t xs n := by
  obtain ⟨c, hc, hpre⟩ := h.last
  rw [lastSize, hc, Option.getD_some, topEntry_offset] at heq
  have hcut := resize_content hpre (Nat.le_of_eq heq.symm)
  rw [← heq, resize_of_le (Nat.le_refl _), take_length] at hcut
  exact ⟨h, by rw [hc, hcut], rfl, rfl, .refl t⟩

/-- Nothing is lost if the last file reaches as far as the index says. -/
lemma repairLoop_of_le (h : t.disk.Has xs n) (hle : (topEntry (xs.take n)).offset ≤ t.lastSize xs n) :
    ∃ t', repairLoop (n + 1) (topEntry (xs.take n)) (t.lastSize xs n) t =
      .ok (n + 1, topEntry (xs.take n), (topEntry (xs.take n)).offset) t' ∧ t.Repaired t' xs n := by
  rcases Nat.lt_or_eq_of_le hle with hlt | heq
  · exact ⟨_, repairLoop_of_lt hlt t, repaired_cut h hle⟩
  · exact ⟨t, repairLoop_of_eq heq.symm t, repaired_of_eq h heq.symm⟩

/-- By induction on the entries: a round that does not end the loop drops one of them. -/
lemma repairLoop_spec (hasc : Ascending xs) (hfits : Fits xs) (n : Nat) (t : Table) (hn : n ≤ xs.length)
    (h : t.disk.Has xs n) : ∃ k t', k ≤ n ∧ repairLoop (n + 1) (topEntry (xs.take n)) (t.lastSize xs n) t =
      .ok (k + 1, topEntry (xs.take k), (topEntry (xs.take k)).offset) t' ∧ t.Repaired t' xs k ∧
      ((topEntry (xs.take n)).offset ≤ t.lastSize xs n → k = n) := by
  by_cases hle : (topEntry (xs.take n)).offset ≤ t.lastSize xs n
  · obtain ⟨t', hrun, hrep⟩ := repairLoop_of_le h hle
    exact ⟨n, t', Nat.le_refl n, hrun, hrep, fun _ => rfl⟩
  induction n generalizing t with
  | zero => exact absurd (Nat.zero_le _) hle
  | succ n ih =>
    have hn' := Nat.le_of_succ_le hn
    have hindex : resize t.disk.index ((n + 1) * indexEntrySize) = indexOf (xs.take n) := by
      rw [h.index, resize_indexOf, take_take, Nat.min_eq_left (Nat.le_succ n)]
      rw [length_take, Nat.min_eq_left hn]
      exact Nat.le_succ n
    have hnew : entryBefore (resize t.disk.index ((n + 1) * indexEntrySize)) (topEntry (xs.take (n + 1))) (n + 1) =
        topEntry (xs.take n) := by
      rw [hindex, entryBefore_indexOf hfits _ hn']
    have hhas := has_pred hasc h
    -- The next round, on a table that has one entry less.
    have hnext : ∀ u : Table, u.disk.Has xs n → ∃ k t', k ≤ n ∧
        repairLoop (n + 1) (topEntry (xs.take n)) (u.lastSize xs n) u =
          .ok (k + 1, topEntry (xs.take k), (topEntry (xs.take k)).offset) t' ∧ u.Repaired t' xs k := by
      intro u hu
      by_cases hle' : (topEntry (xs.take n)).offset ≤ u.lastSize xs n
      · obtain ⟨t', hrun, hrep⟩ := repairLoop_of_le hu hle'
        exact ⟨n, t', Nat.le_refl n, hrun, hrep⟩
      · obtain ⟨k, t', hk, hrun, hrep, -⟩ := ih u hn' hu hle'
        exact ⟨k, t', hk, hrun, hrep⟩
    rw [repairLoop_of_gt (Nat.lt_of_not_le hle) t hnew, hindex]
    by_cases hfile : (topEntry (xs.take n)).filenum ≠ (topEntry (xs.take (n + 1))).filenum
    · obtain ⟨k, t', hk, hrun, hrep⟩ := hnext _ (has_openForAppend hhas)
      rw [if_pos hfile]
      exact ⟨k, t', Nat.le_succ_of_le hk, hrun, hrep.of_openForAppend.of_setIndex, fun hle' => absurd hle' hle⟩
    · obtain ⟨k, t', hk, hrun, hrep⟩ := hnext _ hhas
      have hsize : (t.setIndex (indexOf (xs.take n))).lastSize xs n = t.lastSize xs (n + 1) := by
        rw [lastSize, lastSize, not_not.1 hfile]
        rfl
      rw [hsize] at hrun
      rw [if_neg hfile]
      exact ⟨k, t', Nat.le_succ_of_le hk, hrun, hrep.of_setIndex, fun hle' => absurd hle' hle⟩

/-! ## Opening -/

lemma preopen_of_data (hdata : ∀ f < t.headId, (t.disk.data f).isSome) :
    preopen t = .ok () { t.openForAppend t.headId with files := fun n => decide (t.tailId ≤ n ∧ n ≤ t.headId) } := by
  rw [preopen, if_pos]
  rw [all_eq_true]
  intro f hf
  rw [hdata f (mem_range.1 hf), Bool.or_true]

lemma readAt_first (xs : List (Placed UInt8)) :
    (readAt (indexOf xs) 0 indexEntrySize).map IndexEntry.unmarshalBinary = some ⟨0, 0⟩ := by
  have hread := readAt_indexOf xs (i := 0) (n := 1) (by omega)
  rw [Nat.zero_mul, Nat.one_mul] at hread
  rw [hread]
  rfl

/-- The end of `repair`, on a table whose files agree. -/
lemma preopen_spec (hasc : Ascending xs) (hfits : Fits xs) (hn : n ≤ xs.length) (h : t.disk.Has xs n)
    (hlast : t.disk.data (topEntry (xs.take n)).filenum = some (content (topEntry (xs.take n)).filenum (xs.take n)))
    (hid : t.headId = (topEntry (xs.take n)).filenum) (hitems : t.items = n) (hoffset : t.itemOffset = 0)
    (htail : t.tailId = 0) (hbytes : t.headBytes = (topEntry (xs.take n)).offset) :
    ∃ t', preopen t = .ok () t' ∧ t'.Holds (xs.take n) ∧ t.SameKind t' := by
  have hdata : ∀ f < t.headId, (t.disk.data f).isSome := by
    intro f hf
    rw [h.data f (hid ▸ hf)]
    rfl
  refine ⟨_, preopen_of_data hdata, ?_, rfl, rfl⟩
  refine .of_take hasc (hfits.take n) hn hid h.index ?_ ?_ ?_ hitems hoffset htail hbytes
  · intro f hf
    refine (openForAppend_ne (Nat.ne_of_lt hf) t).trans ?_
    exact h.data f (hid ▸ hf)
  · rw [← hid] at hlast ⊢
    refine (openForAppend_self t t.headId).trans ?_
    rw [hlast]
    rfl
  · intro f
    rw [htail]
    simp [Table.openForAppend, Table.setData]

lemma repair_spec (hasc : Ascending xs) (hfits : Fits xs) (hn : n ≤ xs.length)
    (hindex : wholeIndex t.disk.index = indexOf (xs.take n))
    (h : ((t.setIndex (indexOf (xs.take n))).openForAppend (topEntry (xs.take n)).filenum).disk.Has xs n) :
    ∃ k t', k ≤ n ∧ repair t = .ok () t' ∧ t'.Holds (xs.take k) ∧ t.SameKind t' ∧
      ((topEntry (xs.take n)).offset ≤ t.lastSize xs n → k = n) := by
  have hcount : (indexOf (xs.take n)).length / indexEntrySize = n + 1 := by
    rw [length_indexOf, Nat.mul_div_cancel_left _ (by decide), length_take, Nat.min_eq_left hn]
  obtain ⟨k, u, hk, hloop, hrep, hall⟩ := repairLoop_spec hasc hfits n
    { (t.setIndex (indexOf (xs.take n))).openForAppend (topEntry (xs.take n)).filenum with tailId := 0, itemOffset := 0 }
    hn h
  have hkn : k ≤ xs.length := hk.trans hn
  have hitems : (u.itemOffset + (k + 1 + 2 ^ 64 - 1)) % 2 ^ 64 = k := by
    have hlt := (hfits.take k).count
    rw [length_take, Nat.min_eq_left hkn] at hlt
    rw [hrep.itemOffset]
    simp only
    omega
  obtain ⟨t', hpre, hholds, hkind⟩ := preopen_spec hasc hfits hkn
    (t := { u with items := (u.itemOffset + (k + 1 + 2 ^ 64 - 1)) % 2 ^ 64,
                   headBytes := (topEntry (xs.take k)).offset, headId := (topEntry (xs.take k)).filenum })
    hrep.has hrep.last rfl hitems hrep.itemOffset hrep.tailId rfl
  have hrun : repair t = .ok () t' := by
    unfold repair
    simp only [hindex, hcount, readAt_first, Option.getD_some, entryBefore_indexOf hfits _ hn]
    unfold lastSize at hloop
    rw [hloop]
    exact hpre
  have hkind' : t.SameKind t' :=
    ⟨hkind.noCompression.trans hrep.same.noCompression, hkind.maxFileSize.trans hrep.same.maxFileSize⟩
  refine ⟨k, t', hk, hrun, hholds, hkind', fun hle => hall ?_⟩
  exact hle.trans (Nat.le_of_eq (lastSize_openForAppend (t.setIndex (indexOf (xs.take n))) xs n).symm)

lemma newTable_of_repair {d : Disk} {raw : Bool}
    (h : repair ⟨d, raw, size, 0, 0, 0, 0, 0, fun _ => false⟩ = .ok () t') : newTable d size raw = .ok t' := by
  rw [newTable, h]

lemma newTable_empty (size : Nat) (raw : Bool) :
    ∃ t, newTable ⟨[], fun _ => none⟩ size raw = .ok t ∧ t.Holds [] ∧ t.noCompression = raw ∧ t.maxFileSize = size := by
  obtain ⟨k, t, -, hrun, hholds, hkind, -⟩ :=
    repair_spec (t := ⟨⟨[], fun _ => none⟩, raw, size, 0, 0, 0, 0, 0, fun _ => false⟩)
      (show Ascending ([] : List (Placed UInt8)) from List.Pairwise.nil) .nil (Nat.le_refl 0) rfl
      ⟨rfl, fun f hf => absurd hf (Nat.not_lt_zero f), ⟨[], rfl, nil_prefix⟩⟩
  refine ⟨t, newTable_of_repair hrun, ?_, hkind.noCompression, hkind.maxFileSize⟩
  rwa [take_nil] at hholds

lemma wholeIndex_indexOf (xs : List (Placed UInt8)) : wholeIndex (indexOf xs) = indexOf xs := by
  have hlen := length_indexOf xs
  rw [wholeIndex, if_neg (by rw [hlen]; simp [indexEntrySize]), hlen, Nat.mul_mod_right, Nat.sub_zero,
    resize_of_le (Nat.le_of_eq hlen.symm), ← hlen, take_length]

lemma Holds.reopen (h : t.Holds xs) :
    ∃ t', newTable t.disk t.maxFileSize t.noCompression = .ok t' ∧ t'.Holds xs ∧ t.SameKind t' := by
  have hle : (topEntry (xs.take xs.length)).filenum ≤ t.headId :=
    topEntry_filenum_le fun x hx => h.file_le x (mem_of_mem_take hx)
  have hhas : t.disk.Has xs xs.length := by
    refine ⟨?_, fun f hf => h.data f (hf.le.trans hle), ⟨_, h.data _ hle, prefix_refl _⟩⟩
    rw [h.index, take_length]
  have hindex : wholeIndex t.disk.index = indexOf (xs.take xs.length) := by
    rw [h.index, wholeIndex_indexOf, take_length]
  obtain ⟨k, t', -, hrun, hholds, hkind, hall⟩ :=
    repair_spec (t := ⟨t.disk, t.noCompression, t.maxFileSize, 0, 0, 0, 0, 0, fun _ => false⟩)
      h.ascending h.fits (Nat.le_refl xs.length) hindex
      (has_openForAppend (t := setIndex ⟨t.disk, t.noCompression, t.maxFileSize, 0, 0, 0, 0, 0, fun _ => false⟩ _)
        ⟨rfl, hhas.data, hhas.last⟩)
  have hk : k = xs.length := by
    apply hall
    rw [topEntry_offset, lastSize, h.data _ hle, take_length]
    exact Nat.le_refl _
  rw [hk, take_length] at hholds
  exact ⟨t', newTable_of_repair hrun, hholds, hkind.noCompression, hkind.maxFileSize⟩

/-! ## Crashes -/

/-- The first `indexSize` bytes of the index and the first `headSize` bytes of the head are
left. -/
def crash (t : Table) (indexSize headSize : Nat) : Disk where
  index := t.disk.index.take indexSize
  data := Function.update t.disk.data t.headId ((t.disk.data t.headId).map (List.take headSize))

lemma wholeIndex_take (xs : List (Placed UInt8)) (hsize : size = 0 ∨ indexEntrySize ≤ size) :
    ∃ n ≤ xs.length, wholeIndex ((indexOf xs).take size) = indexOf (xs.take n) := by
  rcases hsize with rfl | hsize
  · exact ⟨0, Nat.zero_le _, rfl⟩
  rcases Nat.le_total (indexOf xs).length size with hlong | hshort
  · refine ⟨xs.length, Nat.le_refl _, ?_⟩
    rw [take_of_length_le hlong, wholeIndex_indexOf, take_length]
  have hlen : ((indexOf xs).take size).length = size := by rw [length_take, Nat.min_eq_left hshort]
  rw [length_indexOf] at hshort
  have hwhole : indexEntrySize * (size / indexEntrySize - 1 + 1) = size - size % indexEntrySize := by
    have := Nat.div_add_mod size indexEntrySize
    have hpos : 1 ≤ size / indexEntrySize := (Nat.one_le_div_iff (by decide)).2 hsize
    rw [Nat.sub_add_cancel hpos]
    omega
  refine ⟨size / indexEntrySize - 1, ?_, ?_⟩
  · have := Nat.div_le_of_le_mul hshort
    omega
  · rw [wholeIndex, if_neg (by rw [hlen]; simp [indexEntrySize] at hsize; omega), hlen,
      resize_of_le (by rw [hlen]; exact Nat.sub_le _ _), take_take, Nat.min_eq_left (Nat.sub_le _ _), ← hwhole,
      indexOf_take]

/-- A table opens after a crash, unless its first index entry is torn. -/
lemma Holds.recover (h : t.Holds xs) {indexSize : Nat} (hindex : indexSize = 0 ∨ indexEntrySize ≤ indexSize)
    (headSize : Nat) : ∃ k t', k ≤ xs.length ∧ newTable (t.crash indexSize headSize) t.maxFileSize t.noCompression =
      .ok t' ∧ t'.Holds (xs.take k) ∧ t.SameKind t' := by
  obtain ⟨n, hn, hwhole⟩ := wholeIndex_take xs hindex
  have hle : (topEntry (xs.take n)).filenum ≤ t.headId :=
    topEntry_filenum_le fun x hx => h.file_le x (mem_of_mem_take hx)
  have hdata : ∀ f < t.headId, (t.crash indexSize headSize).data f = some (content f xs) := by
    intro f hf
    exact (Function.update_of_ne (Nat.ne_of_lt hf) _ _).trans (h.data f hf.le)
  have hlast : ∃ c, (t.crash indexSize headSize).data (topEntry (xs.take n)).filenum = some c ∧
      c <+: content (topEntry (xs.take n)).filenum xs := by
    rcases Nat.lt_or_eq_of_le hle with hlt | heq
    · exact ⟨_, hdata _ hlt, prefix_refl _⟩
    · refine ⟨(content t.headId xs).take headSize, ?_, ?_⟩
      · rw [heq]
        refine (Function.update_self _ _ _).trans ?_
        rw [h.data _ (Nat.le_refl _)]
        rfl
      · rw [heq]
        exact take_prefix _ _
  obtain ⟨k, t', hk, hrun, hholds, hkind, -⟩ :=
    repair_spec (t := ⟨t.crash indexSize headSize, t.noCompression, t.maxFileSize, 0, 0, 0, 0, 0, fun _ => false⟩)
      h.ascending h.fits hn (by rw [← hwhole, crash, h.index])
      (has_openForAppend
        (t := setIndex ⟨t.crash indexSize headSize, t.noCompression, t.maxFileSize, 0, 0, 0, 0, 0, fun _ => false⟩ _)
        ⟨rfl, fun f hf => hdata f (Nat.lt_of_lt_of_le hf hle), hlast⟩)
  exact ⟨k, t', hk.trans hn, newTable_of_repair hrun, hholds, hkind.noCompression, hkind.maxFileSize⟩

end Table

end TurboOctopus.Rawdb
