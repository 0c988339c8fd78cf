import TurboOctopus.Rawdb.Table
import TurboOctopus.Lib.Segments
/-!
# What a table holds

A table without a tail offset holds a list of blobs, each placed in a data file: the index
and the data files are those of the list (`Table.Holds`). `truncate` keeps a beginning of the
list, and opening a table whose index and head were cut off keeps a beginning of it, too.
-/
namespace TurboOctopus.Rawdb

open Lib Lib.Segments List IndexEntry

/-! ## The index of a list of blobs -/

@[simp] lemma length_bytes (e : IndexEntry) : e.bytes.length = indexEntrySize := by
  simp [bytes, indexEntrySize]

variable {e : IndexEntry}

lemma unmarshalBinary_bytes (hnum : e.filenum < 2 ^ 16) (hoff : e.offset < 2 ^ 32) (r : List UInt8) :
    unmarshalBinary (e.bytes ++ r) = e := by
  have hnum' : (e.bytes ++ r).take 2 = fixedBytes 2 e.filenum := by
    rw [bytes, append_assoc, take_left' (length_fixedBytes _ _)]
  have hoff' : ((e.bytes ++ r).drop 2).take 4 = fixedBytes 4 e.offset := by
    rw [bytes, append_assoc, drop_left' (length_fixedBytes _ _), take_left' (length_fixedBytes _ _)]
  rw [unmarshalBinary, hnum', hoff', beNat_fixedBytes, beNat_fixedBytes, Nat.mod_eq_of_lt, Nat.mod_eq_of_lt]
  · simpa using hoff
  · simpa using hnum

/-- The entry at the end of the index. -/
def topEntry (xs : List (Placed UInt8)) : IndexEntry :=
  match xs.getLast? with
  | none => ⟨0, 0⟩
  | some x => ⟨x.1, (content x.1 xs).length⟩

def entries (xs : List (Placed UInt8)) : List IndexEntry := ⟨0, 0⟩ :: (tops xs).map fun e => ⟨e.1, e.2⟩

def indexOf (xs : List (Placed UInt8)) : List UInt8 := (entries xs).flatMap IndexEntry.bytes

@[simp] lemma length_entries (xs : List (Placed UInt8)) : (entries xs).length = xs.length + 1 := by simp [entries]

@[simp] lemma length_indexOf (xs : List (Placed UInt8)) : (indexOf xs).length = indexEntrySize * (xs.length + 1) := by
  rw [indexOf, length_records length_bytes, length_entries]

lemma entries_take (xs : List (Placed UInt8)) (n : Nat) : (entries xs).take (n + 1) = entries (xs.take n) := by
  simp only [entries, take_succ_cons, ← map_take, tops_take]

lemma indexOf_take (xs : List (Placed UInt8)) (n : Nat) :
    (indexOf xs).take (indexEntrySize * (n + 1)) = indexOf (xs.take n) := by
  rw [indexOf, records_take length_bytes, entries_take]
  rfl

lemma topEntry_snoc (xs : List (Placed UInt8)) (x : Placed UInt8) :
    topEntry (xs ++ [x]) = ⟨x.1, (content x.1 (xs ++ [x])).length⟩ := by
  simp [topEntry]

lemma entries_snoc (xs : List (Placed UInt8)) (x : Placed UInt8) :
    entries (xs ++ [x]) = entries xs ++ [topEntry (xs ++ [x])] := by
  rw [entries, tops_append, topEntry_snoc]
  simp [entries, topsFrom]

lemma entries_getElem? (xs : List (Placed UInt8)) : (entries xs)[xs.length]? = some (topEntry xs) := by
  rcases eq_nil_or_concat xs with rfl | ⟨ys, x, rfl⟩
  · rfl
  · rw [concat_eq_append, entries_snoc, List.getElem?_append_right (by simp)]
    simp

/-- The entry ends where its file ends so far. -/
lemma topEntry_offset (xs : List (Placed UInt8)) : (topEntry xs).offset = (content (topEntry xs).filenum xs).length := by
  unfold topEntry
  cases hx : xs.getLast? with
  | none => simp [getLast?_eq_none_iff.1 hx]
  | some x => rfl

variable {f n : Nat} {t t' : Table} {x : Placed UInt8} {xs : List (Placed UInt8)}

lemma topEntry_filenum_le {h : Nat} (hle : ∀ x ∈ xs, x.1 ≤ h) : (topEntry xs).filenum ≤ h := by
  unfold topEntry
  cases hx : xs.getLast? with
  | none => exact Nat.zero_le h
  | some x => exact hle x (mem_of_getLast? hx)

/-- Files below the last one of a beginning stay as they are. -/
lemma content_take_of_lt (h : Ascending xs)
    (hf : f < (topEntry (xs.take n)).filenum) : content f (xs.take n) = content f xs := by
  conv_rhs => rw [← take_append_drop n xs]
  rw [content_append]
  have hnil : content f (xs.drop n) = [] := by
    apply content_eq_nil
    intro y hy
    unfold topEntry at hf
    cases hx : (xs.take n).getLast? with
    | none =>
      rw [hx] at hf
      exact absurd hf (Nat.not_lt_zero f)
    | some x =>
      rw [hx] at hf
      have hxs : Ascending (xs.take n ++ xs.drop n) := by rwa [take_append_drop]
      have hxy : x.1 ≤ y.1 := (pairwise_append.1 hxs).2.2 x (mem_of_getLast? hx) y hy
      exact Nat.ne_of_gt (Nat.lt_of_lt_of_le hf hxy)
  rw [hnil, append_nil]

/-- The last blob is in the highest file. -/
lemma le_topEntry (h : Ascending xs) (hx : x ∈ xs) : x.1 ≤ (topEntry xs).filenum := by
  unfold topEntry
  cases hl : xs.getLast? with
  | none => simp [getLast?_eq_none_iff.1 hl] at hx
  | some y =>
    obtain ⟨p, rfl⟩ := getLast?_eq_some_iff.1 hl
    rcases mem_append.1 hx with hx | hx
    · exact (pairwise_append.1 h).2.2 x hx y (mem_singleton_self y)
    · rw [mem_singleton.1 hx]

/-- Every entry can be written: 16 bits for the file, 32 for the offset; and the index is
no longer than a file can be. -/
structure Fits (xs : List (Placed UInt8)) : Prop where
  entry : ∀ e ∈ entries xs, e.filenum < 2 ^ 16 ∧ e.offset < 2 ^ 32
  count : xs.length < 2 ^ 60

lemma Fits.take (h : Fits xs) (n : Nat) : Fits (xs.take n) where
  entry e he := by
    rw [← entries_take] at he
    exact h.entry e (mem_of_mem_take he)
  count := by
    rw [length_take]
    exact Nat.lt_of_le_of_lt (Nat.min_le_right _ _) h.count

lemma Fits.nil : Fits [] where
  entry e he := by
    simp only [entries, tops, topsFrom, map_nil, mem_singleton] at he
    subst he
    decide
  count := by decide

/-- Reading `n` entries from entry `i` on. -/
lemma readAt_indexOf (xs : List (Placed UInt8)) {i : Nat} (h : i + n ≤ xs.length + 1) :
    readAt (indexOf xs) (i * indexEntrySize) (n * indexEntrySize) =
      some (((entries xs).drop i).take n |>.flatMap bytes) := by
  have hle : i * indexEntrySize + n * indexEntrySize ≤ (indexOf xs).length := by
    rw [length_indexOf, ← Nat.add_mul, Nat.mul_comm]
    exact Nat.mul_le_mul_left _ h
  rw [readAt, if_pos (.inr hle), indexOf, Nat.mul_comm i, records_drop length_bytes, Nat.mul_comm n,
    records_take length_bytes]

lemma Fits.readAt_top (h : Fits xs) :
    (readAt (indexOf xs) (xs.length * indexEntrySize) indexEntrySize).map unmarshalBinary = some (topEntry xs) := by
  have hread := readAt_indexOf xs (i := xs.length) (n := 1) (Nat.le_refl _)
  have hlast : ((entries xs).drop xs.length).take 1 = [topEntry xs] := by
    rw [take_one, head?_drop, entries_getElem?]
    rfl
  rw [Nat.one_mul] at hread
  rw [hread, hlast, Option.map_some, flatMap_singleton]
  have he := h.entry _ (mem_of_getElem? (entries_getElem? xs))
  have hround := unmarshalBinary_bytes he.1 he.2 []
  rw [append_nil] at hround
  rw [hround]

lemma resize_of_le {file : List UInt8} (h : n ≤ file.length) : resize file n = file.take n := by
  rw [resize, Nat.sub_eq_zero_of_le h, replicate_zero, append_nil]

lemma resize_indexOf (hn : n ≤ xs.length) : resize (indexOf xs) ((n + 1) * indexEntrySize) = indexOf (xs.take n) := by
  rw [Nat.mul_comm, resize_of_le, indexOf_take]
  rw [length_indexOf]
  exact Nat.mul_le_mul_left _ (Nat.succ_le_succ hn)

/-- A file cut at the end of what a beginning of the list put there. -/
lemma resize_content {c : List UInt8} (hc : c <+: content f xs) (hlen : (content f (xs.take n)).length ≤ c.length) :
    resize c (content f (xs.take n)).length = content f (xs.take n) := by
  rw [resize_of_le hlen]
  exact (prefix_iff_eq_take.1 (prefix_of_prefix_length_le (content_take_isPrefix f n xs) hc hlen)).symm

/-! ## Tables -/

namespace Table

/-- The index and the data files, up to the head, are those of `xs`. -/
structure Lays (t : Table) (xs : List (Placed UInt8)) : Prop where
  index : t.disk.index = indexOf xs
  data : ∀ f ≤ t.headId, t.disk.data f = some (content f xs)
  files : ∀ f, t.files f = true ↔ f ≤ t.headId
  items : t.items = xs.length
  itemOffset : t.itemOffset = 0
  tailId : t.tailId = 0
  headBytes : t.headBytes = (content t.headId xs).length
  ascending : Ascending xs
  file_le : ∀ x ∈ xs, x.1 ≤ t.headId
  offset_lt : ∀ e ∈ entries xs, e.offset < 2 ^ 32

/-- The table holds `xs`: it can be read back, since every entry fits. -/
structure Holds (t : Table) (xs : List (Placed UInt8)) : Prop extends t.Lays xs where
  fits : Fits xs

/-- The table has not used up its file numbers, nor the space of its index. -/
structure Bounded (t : Table) : Prop where
  headId : t.headId < 2 ^ 16
  items : t.items < 2 ^ 60

/-- What no operation changes. -/
structure SameKind (t t' : Table) : Prop where
  noCompression : t'.noCompression = t.noCompression
  maxFileSize : t'.maxFileSize = t.maxFileSize

lemma SameKind.refl (t : Table) : t.SameKind t := ⟨rfl, rfl⟩

lemma SameKind.trans {t'' : Table} (h : t.SameKind t') (h' : t'.SameKind t'') : t.SameKind t'' :=
  ⟨h'.noCompression.trans h.noCompression, h'.maxFileSize.trans h.maxFileSize⟩

/-- The table was opened with these settings. -/
structure OfKind (size : Nat) (raw : Bool) (t : Table) : Prop where
  maxFileSize : t.maxFileSize = size
  noCompression : t.noCompression = raw

lemma SameKind.ofKind (h : t.SameKind t') {size : Nat} {raw : Bool} (ht : t.OfKind size raw) :
    t'.OfKind size raw := ⟨h.maxFileSize.trans ht.maxFileSize, h.noCompression.trans ht.noCompression⟩

end Table

namespace Table
variable {t : Table} {xs : List (Placed UInt8)} {n : Nat}

lemma Lays.head (h : t.Lays xs) : t.head = content t.headId xs := by
  rw [Table.head, h.data _ (Nat.le_refl _)]
  rfl

/-- A table of the first `n` blobs, whose head is the file of the last of them. -/
lemma Holds.of_take (hasc : Ascending xs) (hfits : Fits (xs.take n)) (hn : n ≤ xs.length)
    (hid : t.headId = (topEntry (xs.take n)).filenum) (hindex : t.disk.index = indexOf (xs.take n))
    (hdata : ∀ f < t.headId, t.disk.data f = some (content f xs))
    (hhead : t.disk.data (topEntry (xs.take n)).filenum = some (content (topEntry (xs.take n)).filenum (xs.take n)))
    (hfiles : ∀ f, t.files f = true ↔ f ≤ t.headId) (hitems : t.items = n) (hoffset : t.itemOffset = 0)
    (htail : t.tailId = 0) (hbytes : t.headBytes = (topEntry (xs.take n)).offset) : t.Holds (xs.take n) where
  index := hindex
  data f hf := by
    rcases Nat.lt_or_eq_of_le hf with hlt | rfl
    · rw [hdata f hlt, content_take_of_lt hasc (hid ▸ hlt)]
    · rw [hid, hhead]
  files := hfiles
  items := by rw [hitems, length_take, Nat.min_eq_left hn]
  itemOffset := hoffset
  tailId := htail
  headBytes := by rw [hbytes, hid, topEntry_offset]
  ascending := hasc.take n
  file_le x hx := by
    rw [hid]
    exact le_topEntry (hasc.take n) hx
  offset_lt e he := (hfits.entry e he).2
  fits := hfits

lemma Lays.holds (h : t.Lays xs) (hb : t.Bounded) : t.Holds xs where
  toLays := h
  fits :=
    { entry := fun e he => by
        refine ⟨?_, h.offset_lt e he⟩
        have hle : e.filenum ≤ t.headId := by
          rcases mem_cons.1 he with rfl | he
          · exact Nat.zero_le _
          · obtain ⟨o, ho, rfl⟩ := mem_map.1 he
            obtain ⟨x, hx, hfile⟩ := tops_file ho
            exact hfile ▸ h.file_le x hx
        exact Nat.lt_of_le_of_lt hle hb.headId
      count := h.items ▸ hb.items }

/-! ## Changing the files -/

lemma setData_self (t : Table) (id : Nat) (data : Option (List UInt8)) : (t.setData id data).disk.data id = data :=
  Function.update_self _ _ _

lemma setData_ne {id f : Nat} (hf : f ≠ id) (t : Table) (data : Option (List UInt8)) :
    (t.setData id data).disk.data f = t.disk.data f := Function.update_of_ne hf _ _

lemma openForAppend_self (t : Table) (id : Nat) :
    (t.openForAppend id).disk.data id = some ((t.disk.data id).getD []) := setData_self t id _

lemma openForAppend_ne {id f : Nat} (hf : f ≠ id) (t : Table) : (t.openForAppend id).disk.data f = t.disk.data f :=
  setData_ne hf t _

lemma removeFilesAfter_le {id f : Nat} (hf : f ≤ id) (t : Table) :
    (t.removeFilesAfter id).disk.data f = t.disk.data f := if_neg fun h => Nat.not_lt.2 hf h.1

/-! ## Truncating -/

lemma truncateTo_of_ne (h : e.filenum ≠ t.headId) :
    t.truncateTo n e =
      let u := { (t.openForAppend e.filenum).removeFilesAfter e.filenum with headId := e.filenum }
      { u.setData e.filenum (some (resize u.head e.offset)) with headBytes := e.offset, items := n } := by
  unfold truncateTo
  rw [if_pos h]

lemma truncateTo_of_eq (h : e.filenum = t.headId) : t.truncateTo n e =
      { t.setData t.headId (some (resize t.head e.offset)) with headBytes := e.offset, items := n } := by
  unfold truncateTo
  rw [if_neg (not_not.2 h)]

lemma truncateTo_sameKind (t : Table) (n : Nat) (e : IndexEntry) : t.SameKind (t.truncateTo n e) := by
  by_cases hid : e.filenum = t.headId
  · rw [truncateTo_of_eq hid]
    exact ⟨rfl, rfl⟩
  · rw [truncateTo_of_ne hid]
    exact ⟨rfl, rfl⟩

lemma Lays.truncateTo (h : t.Lays xs) (hfits : Fits (xs.take n)) (hn : n ≤ xs.length) :
    ((t.setIndex (indexOf (xs.take n))).truncateTo n (topEntry (xs.take n))).Holds (xs.take n) := by
  have hle : (topEntry (xs.take n)).filenum ≤ t.headId :=
    topEntry_filenum_le fun x hx => h.file_le x (mem_of_mem_take hx)
  have hcut : resize (content (topEntry (xs.take n)).filenum xs) (topEntry (xs.take n)).offset =
      content (topEntry (xs.take n)).filenum (xs.take n) := by
    rw [topEntry_offset]
    exact resize_content (prefix_refl _) (content_take_isPrefix _ n xs).length_le
  by_cases hid : (topEntry (xs.take n)).filenum = t.headId
  case neg =>
    rw [truncateTo_of_ne (t := t.setIndex (indexOf (xs.take n))) hid]
    refine .of_take h.ascending hfits hn rfl rfl ?_ ?_ ?_ rfl h.itemOffset h.tailId rfl
    · intro f hf
      refine (setData_ne hf.ne _ _).trans ?_
      refine (removeFilesAfter_le hf.le _).trans ?_
      refine (openForAppend_ne hf.ne _).trans ?_
      exact h.data f (hf.le.trans hle)
    · refine (setData_self _ _ _).trans ?_
      have hhead : ((t.setIndex (indexOf (xs.take n))).openForAppend (topEntry (xs.take n)).filenum
          |>.removeFilesAfter (topEntry (xs.take n)).filenum).disk.data (topEntry (xs.take n)).filenum =
            some (content (topEntry (xs.take n)).filenum xs) := by
        rw [removeFilesAfter_le (Nat.le_refl _), openForAppend_self]
        simp [Table.setIndex, h.data _ hle]
      rw [Table.head, hhead, Option.getD_some, hcut]
    · intro f
      simp only [Table.setData, Table.setIndex, Table.removeFilesAfter, Table.openForAppend, Function.update_apply]
      by_cases hf : f = (topEntry (xs.take n)).filenum
      · simp [hf]
      · simp only [if_neg hf, Bool.and_eq_true, decide_eq_true_eq, h.files f]
        omega
  case pos =>
    rw [truncateTo_of_eq (t := t.setIndex (indexOf (xs.take n))) hid]
    refine .of_take h.ascending hfits hn hid.symm rfl ?_ ?_ h.files rfl h.itemOffset h.tailId rfl
    · intro f hf
      exact (setData_ne hf.ne _ _).trans (h.data f hf.le)
    · rw [hid] at hcut ⊢
      refine (setData_self _ _ _).trans ?_
      have hhead : (t.setIndex (indexOf (xs.take n))).head = content t.headId xs := h.head
      rw [hhead, hcut]

/-- What is cut off may be more than the index can describe. -/
lemma Lays.truncate (h : t.Lays xs) (hfits : Fits (xs.take n)) :
    ∃ t', Table.truncate n t = .ok () t' ∧ t'.Holds (xs.take n) ∧ t.SameKind t' := by
  by_cases hn : t.items ≤ n
  · refine ⟨t, if_pos hn, ?_, .refl t⟩
    have hall : xs.take n = xs := take_of_length_le (h.items ▸ hn)
    exact ⟨hall.symm ▸ h, hfits⟩
  have hlt : n < xs.length := by
    rw [← h.items]
    exact Nat.lt_of_not_le hn
  have hlen : (xs.take n).length = n := by rw [length_take, Nat.min_eq_left hlt.le]
  obtain ⟨buffer, hread, hbuffer⟩ := Option.map_eq_some_iff.1 hfits.readAt_top
  rw [hlen] at hread
  have hrun : Table.truncate n t =
      .ok () ((t.setIndex (indexOf (xs.take n))).truncateTo n (topEntry (xs.take n))) := by
    rw [← hbuffer]
    simp only [Table.truncate, if_neg hn, h.index, resize_indexOf hlt.le, Table.setIndex, hread]
  have hkind := truncateTo_sameKind (t.setIndex (indexOf (xs.take n))) n (topEntry (xs.take n))
  exact ⟨_, hrun, h.truncateTo hfits hlt.le, hkind.noCompression, hkind.maxFileSize⟩

lemma Holds.truncate (h : t.Holds xs) (n : Nat) :
    ∃ t', Table.truncate n t = .ok () t' ∧ t'.Holds (xs.take n) ∧ t.SameKind t' := h.toLays.truncate (h.fits.take n)

end Table

end TurboOctopus.Rawdb
