import TurboOctopus.Rawdb.Layout
/-!
# Reading a table

`RetrieveItems` reads runs of blobs that stand in one file with one read, and the reads wait
until a run ends. What it returns are the blobs one by one, cut off where they stop to fit.
-/
namespace TurboOctopus.Rawdb

open Lib Lib.Segments List

/-- The blob is in the second component. -/
abbrev blobs (xs : List (Placed UInt8)) : List UInt8 := xs.flatMap (·.2)

abbrev blobSizes (xs : List (Placed UInt8)) : List Nat := xs.map (·.2.length)

lemma length_blobs (xs : List (Placed UInt8)) : (blobs xs).length = (blobSizes xs).sum := by
  simp [blobs, blobSizes, length_flatMap]

/-- The entries of the blobs `xs` that stand behind `p`. -/
def entriesFrom (p xs : List (Placed UInt8)) : List IndexEntry := (topsFrom p xs).map fun e => ⟨e.1, e.2⟩

lemma entriesFrom_cons (p : List (Placed UInt8)) (x : Placed UInt8) (xs : List (Placed UInt8)) :
    entriesFrom p (x :: xs) = ⟨x.1, (content x.1 (p ++ [x])).length⟩ :: entriesFrom (p ++ [x]) xs := rfl

@[simp] lemma length_entriesFrom (p xs : List (Placed UInt8)) : (entriesFrom p xs).length = xs.length := by
  simp [entriesFrom]

lemma entries_append (p xs : List (Placed UInt8)) : entries (p ++ xs) = entries p ++ entriesFrom p xs := by
  rw [entries, tops_append, map_append]
  rfl

lemma entries_drop (xs : List (Placed UInt8)) : (entries xs).drop xs.length = [topEntry xs] := by
  rw [drop_eq_getElem_cons (by simp), drop_of_length_le (by simp)]
  have h := entries_getElem? xs
  rw [getElem?_eq_getElem (by simp)] at h
  rw [Option.some.inj h]

/-- The entries of a run of blobs, and the one in front of them. -/
lemma entries_run (p w r : List (Placed UInt8)) :
    ((entries (p ++ w ++ r)).drop p.length).take (w.length + 1) = topEntry p :: entriesFrom p w := by
  rw [append_assoc, entries_append, drop_append_of_le_length (by simp), entries_drop, singleton_append, take_succ_cons]
  have happ : entriesFrom p (w ++ r) = entriesFrom p w ++ entriesFrom (p ++ w) r := by
    simp [entriesFrom, topsFrom_append]
  rw [happ, take_left' (by simp)]

lemma decode_entries {es : List IndexEntry} (h : ∀ e ∈ es, e.filenum < 2 ^ 16 ∧ e.offset < 2 ^ 32) :
    (List.range es.length).map (fun i => IndexEntry.unmarshalBinary ((es.flatMap IndexEntry.bytes).drop (i * indexEntrySize))) =
      es := by
  apply ext_getElem
  · simp
  · intro i hi hi'
    rw [getElem_map, getElem_range, Nat.mul_comm, records_drop length_bytes, drop_eq_getElem_cons hi', flatMap_cons]
    exact unmarshalBinary_bytes (h _ (getElem_mem hi')).1 (h _ (getElem_mem hi')).2 _

namespace Table
variable {t : Table} {p q u r s w : List (Placed UInt8)} {x : Placed UInt8} {f maxBytes : Nat}

/-- The entry that `getIndices` puts in front of a run. -/
def frontEntry (p w : List (Placed UInt8)) : IndexEntry :=
  match p, w with
  | [], x :: _ => ⟨x.1, 0⟩
  | _, _ => topEntry p

lemma Holds.getIndices (h : t.Holds (p ++ w ++ r)) (hw : w ≠ []) (hmem : (w.length + 1) * indexEntrySize ≤ maxAlloc) :
    t.getIndices p.length w.length = .ok (frontEntry p w :: entriesFrom p w) := by
  have hcount := h.fits.count
  simp only [length_append] at hcount
  have hsize : (w.length + 1) * indexEntrySize % 2 ^ 64 = (w.length + 1) * indexEntrySize :=
    Nat.mod_eq_of_lt (Nat.lt_of_le_of_lt hmem (by decide))
  have hstart : (p.length + 2 ^ 64 - t.itemOffset) % 2 ^ 64 = p.length := by
    rw [h.itemOffset]
    omega
  have hread : readAt t.disk.index (p.length * indexEntrySize) ((w.length + 1) * indexEntrySize) =
      some ((topEntry p :: entriesFrom p w).flatMap IndexEntry.bytes) := by
    rw [h.index, readAt_indexOf _ (by simp only [length_append]; omega), entries_run]
  have hfits : ∀ e ∈ topEntry p :: entriesFrom p w, e.filenum < 2 ^ 16 ∧ e.offset < 2 ^ 32 := by
    intro e he
    rw [← entries_run p w r] at he
    exact h.fits.entry e (mem_of_mem_drop (mem_of_mem_take he))
  have hdecode := decode_entries hfits
  rw [length_cons, length_entriesFrom] at hdecode
  unfold Table.getIndices
  simp only [hstart, hsize, failIf_of_not (Nat.not_lt.2 hmem), ok_bind, hread,
    if_pos (show p.length + w.length < 2 ^ 64 by omega), hdecode]
  cases w with
  | nil => exact absurd rfl hw
  | cons x w =>
    cases p with
    | nil => rfl
    | cons y p => rfl

/-- Reading a run of one file into a buffer that is still empty, or long enough. -/
lemma Holds.readData (h : t.Holds (p ++ u ++ r)) (hu : ∀ x ∈ u, x.1 = f) (hf : f ≤ t.headId) (output : Buffer)
    (hlen : output.used = [] ∨ output.used.length + (blobs u).length ≤ output.len) :
    ∃ len, t.readData f (content f p).length (blobs u).length output = .ok ⟨len, output.used ++ blobs u⟩ ∧
      (output.used.length + (blobs u).length ≤ output.len → len = output.len) := by
  have hopen : ¬ ¬ t.files f = true := not_not.2 ((h.files f).2 hf)
  have hread : readAt ((t.disk.data f).getD []) (content f p).length (blobs u).length = some (blobs u) := by
    have hle : (content f p).length + (blobs u).length ≤ (content f (p ++ u ++ r)).length := by
      have hrun : content f u = blobs u := content_of_forall hu
      rw [content_append, content_append, hrun, length_append, length_append]
      omega
    rw [h.data f hf, Option.getD_some, readAt, if_pos (.inr hle), content_slice hu]
  unfold Table.readData
  by_cases hshort : output.len < (blobs u).length
  · have hnil : output.used = [] := by
      rcases hlen with hnil | hle
      · exact hnil
      · omega
    refine ⟨(blobs u).length, ?_, fun hle => by omega⟩
    simp only [if_pos hshort, hnil, length_nil, replicate_zero, failIf_of_not hopen, ok_bind, Nat.zero_add,
      failIf_of_not (Nat.lt_irrefl _), hread]
  · have hroom : ¬ output.len < output.used.length + (blobs u).length := by
      rcases hlen with hnil | hle
      · rw [hnil, length_nil]
        omega
      · omega
    refine ⟨output.len, ?_, fun _ => rfl⟩
    simp only [if_neg hshort, failIf_of_not hopen, ok_bind, failIf_of_not hroom, hread]

variable {count i : Nat} {first second : IndexEntry} {isFirst : Bool}

lemma Holds.size_eq (h : t.Holds (p ++ x :: r))
    (hfirst : first.offset = (content first.filenum p).length) (hcross : x.1 ≠ first.filenum → content x.1 p = []) :
    (((first.bounds ⟨x.1, (content x.1 (p ++ [x])).length⟩).2.1 + 2 ^ 32 -
      (first.bounds ⟨x.1, (content x.1 (p ++ [x])).length⟩).1) % 2 ^ 32) = x.2.length := by
  have hentry : (content x.1 (p ++ [x])).length < 2 ^ 32 := by
    refine (h.fits.entry ⟨x.1, (content x.1 (p ++ [x])).length⟩ ?_).2
    rw [entries_append, entriesFrom_cons]
    exact mem_append_right _ mem_cons_self
  have hx : (content x.1 (p ++ [x])).length = (content x.1 p).length + x.2.length := by
    rw [content_append, content_cons, if_pos rfl, content_nil, append_nil, length_append]
  unfold IndexEntry.bounds
  by_cases hne : first.filenum ≠ x.1
  · rw [if_pos hne]
    rw [hcross (Ne.symm hne), length_nil] at hx
    simp only
    omega
  · rw [if_neg hne]
    rw [not_not.1 hne] at hfirst
    simp only [hfirst]
    omega

lemma Holds.readUnread (h : t.Holds (p ++ u ++ r)) (hu : ∀ x ∈ u, x.1 = f) (output : Buffer)
    (hroom : output.used.length + (blobs u).length ≤ output.len) :
    t.readUnread f (content f p).length (blobs u).length output = .ok ⟨output.len, output.used ++ blobs u⟩ := by
  unfold Table.readUnread
  by_cases hpos : 0 < (blobs u).length
  · have hmem : ∃ y, y ∈ u := by
      cases u with
      | nil => exact absurd hpos (Nat.lt_irrefl 0)
      | cons y u => exact ⟨y, mem_cons_self⟩
    obtain ⟨y, hy⟩ := hmem
    have hf : f ≤ t.headId := by
      rw [← hu y hy]
      exact h.file_le y (by simp [hy])
    obtain ⟨len, hread, hlen⟩ := h.readData hu hf output (.inr hroom)
    rw [if_pos hpos, hread, hlen hroom]
  · have hnil : blobs u = [] := length_eq_zero_iff.1 (Nat.eq_zero_of_not_pos hpos)
    rw [if_neg hpos, hnil, append_nil]

/-- At a file boundary the run that waits is read first. -/
lemma Holds.readCrossing (h : t.Holds (p ++ q ++ u ++ x :: r)) (hsecond : second.filenum = x.1)
    (hu : ∀ y ∈ u, y.1 = first.filenum) (hcross : x.1 ≠ first.filenum → content x.1 (p ++ q ++ u) = [])
    (hroom : (blobs q).length + (blobs u).length ≤ maxBytes) : ∃ q' u', q' ++ u' = q ++ u ∧ (∀ y ∈ u', y.1 = x.1) ∧
      t.readCrossing first second (content first.filenum (p ++ q)).length (blobs u).length ⟨maxBytes, blobs q⟩ =
      .ok ⟨maxBytes, blobs q'⟩ ∧ (if second.filenum ≠ first.filenum then 0 else (blobs u).length) = (blobs u').length ∧
      (if second.filenum ≠ first.filenum then 0 else (content first.filenum (p ++ q)).length) =
      (content x.1 (p ++ q')).length := by
  unfold Table.readCrossing
  rw [hsecond]
  by_cases hne : x.1 ≠ first.filenum
  · refine ⟨q ++ u, [], append_nil _, nofun, ?_, if_pos hne, ?_⟩
    · rw [if_pos hne, h.readUnread hu ⟨maxBytes, blobs q⟩ hroom]
      simp [blobs]
    · rw [if_pos hne, ← append_assoc, hcross hne]
      rfl
  · rw [if_neg hne, if_neg hne, if_neg hne]
    have heq := not_not.1 hne
    exact ⟨q, u, rfl, fun y hy => (hu y hy).trans heq.symm, rfl, rfl, by rw [heq]⟩

/-- What is taken of the blobs that are left, when `taken` are already. -/
def fitRest (maxBytes : Nat) (isFirst : Bool) (taken xs : List (Placed UInt8)) : List (Placed UInt8) :=
  if isFirst then fitOne (·.2.length) maxBytes xs else fit (·.2.length) maxBytes (blobSizes taken).sum xs

lemma fitRest_none (hover : maxBytes < (blobSizes q).sum + x.2.length) : fitRest maxBytes false q (x :: r) = [] := by
  simp only [fitRest, Bool.false_eq_true, if_false, fit]
  rw [if_neg (Nat.not_le.2 hover)]

/-- One more blob is taken, and then what fits behind it. -/
lemma fitRest_cons (hnone : isFirst = true → q = [])
    (hfit : ¬ (isFirst = false ∧ maxBytes < (blobSizes q).sum + x.2.length)) :
    fitRest maxBytes isFirst q (x :: r) = x :: fitRest maxBytes false (q ++ [x]) r := by
  cases isFirst with
  | true =>
    rw [hnone rfl]
    simp [fitRest, fitOne]
  | false =>
    have hle : (blobSizes q).sum + x.2.length ≤ maxBytes := Nat.not_lt.1 fun hlt => hfit ⟨rfl, hlt⟩
    simp [fitRest, fit, if_pos hle]

/-- One round of the loop, from what waits after a file boundary has been dealt with. -/
lemma retrieveLoop_cons (maxBytes : Nat) (isFirst : Bool) (sizes : List Nat) (rest : List IndexEntry)
    {readStart unread size : Nat} {output output' : Buffer} {unread' readStart' : Nat}
    (hsize : ((first.bounds second).2.1 + 2 ^ 32 - (first.bounds second).1) % 2 ^ 32 = size)
    (hout : t.readCrossing first second readStart unread output = .ok output')
    (hunread : (if second.filenum ≠ first.filenum then 0 else unread) = unread')
    (hstart : (if second.filenum ≠ first.filenum then 0 else readStart) = readStart') :
    t.retrieveLoop maxBytes isFirst first (second :: rest) sizes readStart unread output =
      if isFirst = false ∧ maxBytes < sizes.sum + size then do
        let output ← t.readUnread second.filenum readStart' unread' output'
        .ok (output, sizes)
      else if rest = [] ∨ maxBytes < sizes.sum + size then do
        let output ← t.readData second.filenum readStart' (unread' + size) output'
        .ok (output, sizes ++ [size])
      else t.retrieveLoop maxBytes false second rest (sizes ++ [size]) readStart' (unread' + size) output' := by
  rw [Table.retrieveLoop]
  simp only [hsize, hout, hunread, hstart, ok_bind]

lemma fitRest_end (hnone : isFirst = true → q = [])
    (hfit : ¬ (isFirst = false ∧ maxBytes < (blobSizes q).sum + x.2.length))
    (hend : r = [] ∨ maxBytes < (blobSizes q).sum + x.2.length) : fitRest maxBytes isFirst q (x :: r) = [x] := by
  rw [fitRest_cons hnone hfit]
  rcases hend with rfl | hbig
  · rfl
  · have hnil : fitRest maxBytes false (q ++ [x]) r = [] := fit_of_lt (by simpa using hbig) r
    rw [hnil]

section Loop
variable (h : t.Holds (p ++ q ++ u ++ x :: (r ++ s)))
  (hfirst : first.offset = (content first.filenum (p ++ q ++ u)).length)
  (hcross : x.1 ≠ first.filenum → content x.1 (p ++ q ++ u) = []) (hu : ∀ y ∈ u, y.1 = first.filenum)
  (hnone : isFirst = true → q ++ u = []) (htotal : (blobSizes (q ++ u)).sum ≤ maxBytes)
include h hfirst hcross hu hnone htotal

/-- One round on a table: it ends without the next blob, ends with it, or goes on with `q'`
read and the next blob at the end of what waits. -/
lemma Holds.retrieveRound :
    let run := t.retrieveLoop maxBytes isFirst first (entriesFrom (p ++ q ++ u) (x :: r)) (blobSizes (q ++ u))
      (content first.filenum (p ++ q)).length (blobs u).length ⟨maxBytes, blobs q⟩
    let size := (blobSizes (q ++ u)).sum + x.2.length
    (isFirst = false ∧ maxBytes < size → run = .ok (⟨maxBytes, blobs (q ++ u)⟩, blobSizes (q ++ u))) ∧
    (¬ (isFirst = false ∧ maxBytes < size) → r = [] ∨ maxBytes < size →
      ∃ len, run = .ok (⟨len, blobs (q ++ u ++ [x])⟩, blobSizes (q ++ u ++ [x]))) ∧
    (¬ (r = [] ∨ maxBytes < size) → ∃ q' u', q' ++ u' = q ++ u ∧ (∀ y ∈ u', y.1 = x.1) ∧
      run = t.retrieveLoop maxBytes false ⟨x.1, (content x.1 (p ++ q' ++ (u' ++ [x]))).length⟩
        (entriesFrom (p ++ q' ++ (u' ++ [x])) r) (blobSizes (q' ++ (u' ++ [x]))) (content x.1 (p ++ q')).length
        (blobs (u' ++ [x])).length ⟨maxBytes, blobs q'⟩) := by
  intro run size
  have hroom : (blobs q).length + (blobs u).length ≤ maxBytes := by
    rw [length_blobs, length_blobs, ← sum_append, ← map_append]
    exact htotal
  obtain ⟨q', u', hqu, hu', hout, hunread, hstart⟩ :=
    h.readCrossing (show (⟨x.1, (content x.1 (p ++ q ++ u ++ [x])).length⟩ : IndexEntry).filenum = x.1 from rfl) hu hcross
      hroom
  have hround := retrieveLoop_cons maxBytes isFirst (blobSizes (q ++ u)) (entriesFrom (p ++ q ++ u ++ [x]) r)
    (h.size_eq hfirst hcross) hout hunread hstart
  have hsplit : p ++ q ++ u = p ++ q' ++ u' := by rw [append_assoc, ← hqu, append_assoc]
  have hmem : x.1 ≤ t.headId := h.file_le x (by simp)
  have hlen : (blobs u').length + x.2.length = (blobs (u' ++ [x])).length := by simp [blobs]
  have hux : ∀ y ∈ u' ++ [x], y.1 = x.1 := forall_mem_append.2 ⟨hu', forall_mem_singleton.2 rfl⟩
  have hused : (blobs q').length + (blobs u').length = (blobSizes (q ++ u)).sum := by
    rw [length_blobs, length_blobs, ← sum_append, ← map_append, hqu]
  have hrest : entriesFrom (p ++ q ++ u ++ [x]) r = [] ↔ r = [] := by
    rw [← length_eq_zero_iff, length_entriesFrom, length_eq_zero_iff]
  rw [hsplit] at h
  refine ⟨fun hover => ?_, fun hover hend => ?_, fun hend => ⟨q', u', hqu, hu', ?_⟩⟩
  · rw [show run = _ from hround, if_pos hover, h.readUnread hu' ⟨maxBytes, blobs q'⟩ (Nat.le_trans (Nat.le_of_eq hused) htotal), ok_bind]
    rw [← hqu]
    simp [blobs]
  · have hspace : (⟨maxBytes, blobs q'⟩ : Buffer).used = [] ∨ (blobs q').length + (blobs (u' ++ [x])).length ≤ maxBytes := by
      by_cases hbig : maxBytes < size
      · have hfirst : isFirst = true := by
          cases isFirst with
          | true => rfl
          | false => exact absurd ⟨rfl, hbig⟩ hover
        rw [hnone hfirst] at hqu
        rw [(append_eq_nil_iff.1 hqu).1]
        exact .inl rfl
      · rw [← hlen, ← Nat.add_assoc, hused]
        exact .inr (Nat.not_lt.1 hbig)
    have h' : t.Holds (p ++ q' ++ (u' ++ [x]) ++ (r ++ s)) := by simpa using h
    obtain ⟨len, hread, -⟩ := h'.readData hux hmem ⟨maxBytes, blobs q'⟩ hspace
    refine ⟨len, ?_⟩
    rw [show run = _ from hround, if_neg hover, if_pos (hend.imp_left hrest.2), hlen, hread, ok_bind, ← hqu]
    simp [blobs]
  · have hover : ¬ (isFirst = false ∧ maxBytes < size) := fun hover => hend (.inr hover.2)
    rw [show run = _ from hround, if_neg hover, if_neg fun hc => hend (hc.imp_left hrest.1), hlen, hsplit, ← hqu]
    simp [append_assoc]

/-- By induction on the blobs that are left. `q` has been read, `u` waits, and both fit. -/
lemma Holds.retrieveLoop :
    ∃ len, t.retrieveLoop maxBytes isFirst first (entriesFrom (p ++ q ++ u) (x :: r)) (blobSizes (q ++ u))
        (content first.filenum (p ++ q)).length (blobs u).length ⟨maxBytes, blobs q⟩ =
        .ok (⟨len, blobs (q ++ u ++ fitRest maxBytes isFirst (q ++ u) (x :: r))⟩,
          blobSizes (q ++ u ++ fitRest maxBytes isFirst (q ++ u) (x :: r))) := by
  induction r generalizing q u x first isFirst with
  | nil =>
    obtain ⟨hdone, hlast, -⟩ := h.retrieveRound hfirst hcross hu hnone htotal
    by_cases hover : isFirst = false ∧ maxBytes < (blobSizes (q ++ u)).sum + x.2.length
    · refine ⟨maxBytes, ?_⟩
      rw [hdone hover, hover.1, fitRest_none hover.2, append_nil]
    · rw [fitRest_end hnone hover (.inl rfl)]
      exact hlast hover (.inl rfl)
  | cons y r ih =>
    obtain ⟨hdone, hlast, hnext⟩ := h.retrieveRound hfirst hcross hu hnone htotal
    by_cases hover : isFirst = false ∧ maxBytes < (blobSizes (q ++ u)).sum + x.2.length
    · refine ⟨maxBytes, ?_⟩
      rw [hdone hover, hover.1, fitRest_none hover.2, append_nil]
    by_cases hbig : maxBytes < (blobSizes (q ++ u)).sum + x.2.length
    · rw [fitRest_end hnone hover (.inr hbig)]
      exact hlast hover (.inr hbig)
    obtain ⟨q', u', hqu, hu', hrun⟩ := hnext fun hend => hend.elim (cons_ne_nil y r) hbig
    have hsplit : p ++ q ++ u = p ++ q' ++ u' := by rw [append_assoc, ← hqu, append_assoc]
    have hasc := h.ascending
    rw [hsplit] at h hasc
    have hstate : t.Holds (p ++ q' ++ (u' ++ [x]) ++ y :: (r ++ s)) := by simpa using h
    have hcross' : y.1 ≠ x.1 → content y.1 (p ++ q' ++ (u' ++ [x])) = [] := by
      intro hne
      rw [← append_assoc]
      exact Ascending.content_eq_nil hasc (Ne.symm hne)
    have hux : ∀ z ∈ u' ++ [x], z.1 = x.1 := forall_mem_append.2 ⟨hu', forall_mem_singleton.2 rfl⟩
    have htotal' : (blobSizes (q' ++ (u' ++ [x]))).sum ≤ maxBytes := by
      have hsum : (blobSizes (q ++ u ++ [x])).sum = (blobSizes (q ++ u)).sum + x.2.length := by
        simp only [blobSizes, map_append, sum_append, map_cons, map_nil, sum_singleton]
      rw [← append_assoc, hqu, hsum]
      exact Nat.not_lt.1 hbig
    have hoffset : (⟨x.1, (content x.1 (p ++ q' ++ (u' ++ [x]))).length⟩ : IndexEntry).offset =
        (content x.1 (p ++ q' ++ (u' ++ [x]))).length := rfl
    have hlater : false = true → q' ++ (u' ++ [x]) = [] := fun hc => absurd hc Bool.false_ne_true
    obtain ⟨len, hloop⟩ := ih hstate hoffset hcross' hux hlater htotal'
    refine ⟨len, ?_⟩
    rw [hrun, hloop, fitRest_cons hnone hover, ← append_assoc q', hqu]
    simp [blobs]

end Loop

lemma frontEntry_offset (p : List (Placed UInt8)) (x : Placed UInt8) (w : List (Placed UInt8)) :
    (frontEntry p (x :: w)).offset = (content (frontEntry p (x :: w)).filenum p).length := by
  cases p with
  | nil => rfl
  | cons y p => exact topEntry_offset (y :: p)

lemma frontEntry_of_ne_nil (hp : p ≠ []) (w : List (Placed UInt8)) : frontEntry p w = topEntry p := by
  cases p with
  | nil => exact absurd rfl hp
  | cons y p => rfl

lemma frontEntry_crossing (hasc : Ascending (p ++ x :: r)) (w : List (Placed UInt8))
    (hne : x.1 ≠ (frontEntry p (x :: w)).filenum) : content x.1 p = [] := by
  rcases eq_nil_or_concat p with rfl | ⟨p, y, rfl⟩
  · rfl
  · rw [concat_eq_append] at hasc hne ⊢
    rw [append_assoc, singleton_append] at hasc
    refine hasc.content_eq_nil fun heq => hne ?_
    rw [← heq, frontEntry_of_ne_nil (by simp), topEntry_snoc]

/-- The run of blobs that a call asks for, up to the end of the table. -/
lemma Holds.retrieveRaw (h : t.Holds (p ++ w ++ r)) (hw : w ≠ [])
    (hcount : w.length = count ∨ r = [] ∧ w.length ≤ count) (hlimit : count * indexEntrySize ≤ maxAlloc - indexEntrySize)
    (hmem : maxBytes ≤ maxAlloc) :
    t.retrieveRaw p.length count maxBytes =
      .ok (blobs (fitOne (·.2.length) maxBytes w), blobSizes (fitOne (·.2.length) maxBytes w)) := by
  obtain ⟨x, w, rfl⟩ := exists_cons_of_ne_nil hw
  have hitems := h.items
  have hmany := h.fits.count
  simp only [length_append, length_cons] at hitems hcount hmany
  have hbounds : ¬ (t.items ≤ p.length ∨ p.length < t.itemOffset ∨ count = 0) := by
    rw [h.itemOffset]
    omega
  have hsmall : count < 2 ^ 48 := by
    simp only [indexEntrySize, maxAlloc] at hlimit
    omega
  have hclip : (if t.items < (p.length + count) % 2 ^ 64 then t.items - p.length else count) = (x :: w).length := by
    rw [Nat.mod_eq_of_lt (by omega), length_cons]
    rcases hcount with heq | ⟨rfl, hle⟩
    · split <;> omega
    · simp only [length_nil] at hitems
      split <;> omega
  have hindices := h.getIndices (cons_ne_nil x w) (by
    rw [length_cons]
    simp only [indexEntrySize, maxAlloc] at hlimit ⊢
    omega)
  have hstate : t.Holds (p ++ [] ++ [] ++ x :: (w ++ r)) := by simpa using h
  have hasc : Ascending (p ++ x :: (w ++ r)) := by simpa using h.ascending
  have hoffset : (frontEntry p (x :: w)).offset = (content (frontEntry p (x :: w)).filenum (p ++ [] ++ [])).length := by
    simpa using frontEntry_offset p x w
  have hcross : x.1 ≠ (frontEntry p (x :: w)).filenum → content x.1 (p ++ [] ++ []) = [] := fun hne => by
    simpa using frontEntry_crossing hasc w hne
  have htotal : (blobSizes ([] ++ [])).sum ≤ maxBytes := Nat.zero_le _
  obtain ⟨len, hloop⟩ := hstate.retrieveLoop hoffset hcross (forall_mem_nil _) (fun (_ : true = true) => rfl) htotal
  simp only [append_nil, nil_append, ← frontEntry_offset] at hloop
  unfold Table.retrieveRaw
  simp only [failIf_of_not hbounds, ok_bind, hclip, failIf_of_not (Nat.not_lt.2 hmem), hindices]
  rw [show blobSizes ([] : List (Placed UInt8)) = [] from rfl] at hloop
  rw [show (blobs ([] : List (Placed UInt8))) = [] from rfl] at hloop
  simp only [length_nil] at hloop
  rw [hloop]
  rfl

/-! ## Items -/

/-- What is written for an item. -/
def stored (S : Snappy) (t : Table) (b : List UInt8) : List UInt8 := if t.noCompression then b else S.encode b

/-- The table stores these items, in this order. -/
def Stores (S : Snappy) (t : Table) (bs : List (List UInt8)) : Prop :=
  ∃ xs, t.Holds xs ∧ xs.map (·.2) = bs.map (t.stored S)

lemma length_of_stored {xs : List (Placed UInt8)} {bs : List (List UInt8)} {g : List UInt8 → List UInt8}
    (h : xs.map (·.2) = bs.map g) : xs.length = bs.length := by
  simpa using congrArg List.length h

lemma Stores.items {S : Snappy} {bs : List (List UInt8)} (h : t.Stores S bs) : t.items = bs.length := by
  obtain ⟨xs, hxs, heq⟩ := h
  rw [hxs.items, length_of_stored heq]

lemma decodeItem_stored (S : Snappy) (t : Table) (b : List UInt8) : t.decodeItem S (t.stored S b) = .ok b := by
  unfold decodeItem stored
  by_cases hraw : t.noCompression = true
  · rw [if_pos hraw, if_pos hraw]
  · rw [if_neg hraw, if_neg hraw, S.decode_encode]

lemma sliceItems_cons (S : Snappy) (t : Table) (maxBytes : Nat) (b : List UInt8) (bs output : List (List UInt8))
    (size : Nat) :
    t.sliceItems S maxBytes ((t.stored S b).length :: bs.map fun b => (t.stored S b).length)
        ((b :: bs).flatMap (t.stored S)) output size =
      if output ≠ [] ∧ maxBytes < size + b.length then .ok output
      else t.sliceItems S maxBytes (bs.map fun b => (t.stored S b).length) (bs.flatMap (t.stored S)) (output ++ [b])
        (size + b.length) := by
  have hsize : (if t.noCompression then (t.stored S b).length else S.decodedLen (t.stored S b)) = b.length := by
    unfold stored
    by_cases hraw : t.noCompression = true
    · rw [if_pos hraw, if_pos hraw]
    · rw [if_neg hraw, if_neg hraw, S.decodedLen_encode]
  rw [sliceItems]
  simp only [flatMap_cons, take_left, drop_left, hsize, decodeItem_stored, ok_bind]

/-- What is read is cut into items again; they are cut off by their own sizes, too. -/
lemma sliceItems_stored (S : Snappy) (t : Table) (maxBytes : Nat) (bs output : List (List UInt8)) (size : Nat)
    (hout : output ≠ []) :
    t.sliceItems S maxBytes (bs.map fun b => (t.stored S b).length) (bs.flatMap (t.stored S)) output size =
      .ok (output ++ fit List.length maxBytes size bs) := by
  induction bs generalizing output size with
  | nil => simp [sliceItems, fit]
  | cons b bs ih =>
    rw [map_cons, sliceItems_cons, fit]
    by_cases hfit : size + b.length ≤ maxBytes
    · rw [if_neg fun hc => Nat.not_lt.2 hfit hc.2, if_pos hfit, ih _ _ (by simp), append_assoc]
      rfl
    · rw [if_pos ⟨hout, Nat.not_le.1 hfit⟩, if_neg hfit, append_nil]

lemma sliceItems_fitOne (S : Snappy) (t : Table) (maxBytes : Nat) (bs : List (List UInt8)) :
    t.sliceItems S maxBytes (bs.map fun b => (t.stored S b).length) (bs.flatMap (t.stored S)) [] 0 =
      .ok (fitOne List.length maxBytes bs) := by
  cases bs with
  | nil => rfl
  | cons b bs =>
    rw [map_cons, sliceItems_cons, if_neg fun hc => hc.1 rfl, nil_append, Nat.zero_add,
      sliceItems_stored S t maxBytes bs [b] b.length (by simp)]
    rfl

variable {S : Snappy} {bs : List (List UInt8)}

lemma Stores.split (h : t.Stores S bs) (n m : Nat) : ∃ p w r, t.Holds (p ++ w ++ r) ∧ p.length = min n bs.length ∧
      w.map (·.2) = ((bs.drop n).take m).map (t.stored S) ∧ r.length = bs.length - n - m := by
  obtain ⟨xs, hxs, heq⟩ := h
  have hlen := length_of_stored heq
  refine ⟨xs.take n, (xs.drop n).take m, (xs.drop n).drop m, ?_, ?_, ?_, ?_⟩
  · rwa [append_assoc, take_append_drop, take_append_drop]
  · rw [length_take, hlen]
  · rw [map_take, map_drop, heq, map_take, map_drop]
  · rw [length_drop, length_drop, hlen]

/-- The items from `start` on, up to `count` of them, cut off first by their stored sizes and
then by their own. -/
lemma Stores.retrieveItems (h : t.Stores S bs) {start : Nat} (hstart : start < bs.length) (hcount : 0 < count)
    (hlimit : count * sliceHeaderSize ≤ maxAlloc) (hmem : maxBytes ≤ maxAlloc) :
    t.retrieveItems S start count maxBytes = .ok (fitOne List.length maxBytes
      (fitOne (fun b => (t.stored S b).length) maxBytes ((bs.drop start).take count))) := by
  obtain ⟨p, w, r, hstate, hp, hw, hr⟩ := h.split start count
  rw [Nat.min_eq_left hstart.le] at hp
  have hwlen : w.length = min count (bs.length - start) := by
    rw [← length_map (f := (·.2)), hw, length_map, length_take, length_drop]
  have hwne : w ≠ [] := by
    intro hnil
    rw [hnil, length_nil] at hwlen
    omega
  have hclip : w.length = count ∨ r = [] ∧ w.length ≤ count := by
    rcases Nat.le_total count (bs.length - start) with hle | hle
    · exact .inl (by omega)
    · exact .inr ⟨length_eq_zero_iff.1 (by omega), by omega⟩
  have hraw := hstate.retrieveRaw hwne hclip
    (by simp only [indexEntrySize, sliceHeaderSize, maxAlloc] at hlimit ⊢; omega) hmem
  rw [hp] at hraw
  have hsizes : (fitOne (·.2.length) maxBytes w).map (·.2) =
      (fitOne (fun b => (t.stored S b).length) maxBytes ((bs.drop start).take count)).map (t.stored S) := by
    have hmap : fitOne List.length maxBytes (w.map (·.2)) = (fitOne (·.2.length) maxBytes w).map (·.2) := fitOne_map _ w
    rw [← hmap, hw, fitOne_map]
  have hblobs : blobs (fitOne (·.2.length) maxBytes w) =
      (fitOne (fun b => (t.stored S b).length) maxBytes ((bs.drop start).take count)).flatMap (t.stored S) := by
    rw [blobs, flatMap_def, hsizes, flatMap_def]
  have hlens : blobSizes (fitOne (·.2.length) maxBytes w) =
      (fitOne (fun b => (t.stored S b).length) maxBytes ((bs.drop start).take count)).map
        fun b => (t.stored S b).length := by
    have := congrArg (List.map List.length) hsizes
    rwa [map_map, map_map] at this
  unfold Table.retrieveItems
  rw [hraw, ok_bind]
  simp only [failIf_of_not (Nat.not_lt.2 hlimit), ok_bind]
  rw [hlens, hblobs, sliceItems_fitOne]

lemma Stores.retrieve (h : t.Stores S bs) {b : List UInt8} (hb : bs[i]? = some b) : t.retrieve S i = .ok b := by
  obtain ⟨hi, hget⟩ := List.getElem?_eq_some_iff.1 hb
  have hone : (bs.drop i).take 1 = [b] := by
    rw [drop_eq_getElem_cons hi, hget]
    rfl
  unfold Table.retrieve
  rw [h.retrieveItems hi Nat.one_pos (by decide) (Nat.zero_le _), hone]
  rfl

lemma Stores.retrieveItems_outOfBounds (h : t.Stores S bs) (hi : bs.length ≤ i) :
    t.retrieveItems S i count maxBytes = .error .outOfBounds := by
  unfold Table.retrieveItems Table.retrieveRaw
  rw [failIf_of (.inl (h.items ▸ hi))]
  rfl

lemma Stores.retrieve_outOfBounds (h : t.Stores S bs) (hi : bs.length ≤ i) :
    t.retrieve S i = .error .outOfBounds := by
  rw [Table.retrieve, h.retrieveItems_outOfBounds hi]
  rfl

end Table

end TurboOctopus.Rawdb
