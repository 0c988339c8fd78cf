import TurboOctopus.Rawdb.Ancients
import TurboOctopus.Trie.Compact
/-!
# A database from the ancients

An empty database gets the number of every frozen block from the table of hashes, which is
read in ranges of 100000. Of the database these are the entries that are written; a batch
writes them in pieces. The loop moves on by the length of the range and by one more, so it
leaves out one block after each full range (`initLoop_run`).
-/
namespace TurboOctopus.Rawdb

open Lib Lib.Segments TurboOctopus.Types Trie List

inductive ChainKind where
  | headers
  | hashes
  | bodies
  | receipts
  | diffs
  deriving DecidableEq

def freezerNoSnappy : ChainKind → Bool
  | .headers | .bodies | .receipts => false
  | .hashes | .diffs => true

structure HeaderDb where
  numbers : Hash → Option Nat
  headHeader : Option Hash
  headFastBlock : Option Hash

/-- `WriteHeaderNumber` on the database. -/
def HeaderDb.putNumber (db : HeaderDb) (put : Hash × Nat) : HeaderDb :=
  { db with numbers := Function.update db.numbers put.1 (some put.2) }

structure HeaderBatch where
  writes : List (Hash × Nat)
  size : Nat

/-- The key is a letter and the hash, the value is a `uint64`. -/
def HeaderBatch.writeHeaderNumber (batch : HeaderBatch) (hash : Hash) (number : Nat) : HeaderBatch :=
  ⟨batch.writes ++ [(hash, number)], batch.size + (1 + 32 + 8)⟩

def HeaderBatch.write (batch : HeaderBatch) (db : HeaderDb) : HeaderDb := batch.writes.foldl .putNumber db

def HeaderBatch.reset : HeaderBatch := ⟨[], 0⟩

def idealBatchSize : Nat := 100 * 1024

/-- The variables of the loop. -/
structure Init where
  db : HeaderDb
  batch : HeaderBatch
  hash : Hash

def Init.putHash (s : Init) (h : List UInt8) (number : Nat) : Init :=
  let hash := StackTrie.bytesToHash h
  let batch := s.batch.writeHeaderNumber hash number
  if idealBatchSize < batch.size then ⟨batch.write s.db, .reset, hash⟩ else ⟨s.db, batch, hash⟩

def Init.putHashes (s : Init) : List (List UInt8) → Nat → Init
  | [], _ => s
  | h :: data, number => (s.putHash h number).putHashes data (number + 1)

def rangeSize : Nat := 100000

/-- From block `i` on; `last` is the number behind the last. An error of `log.Crit` ends the
process. -/
def initLoop (S : Snappy) (f : Freezer ChainKind) (last i : Nat) (s : Init) : Except Err Init :=
  if i < last then
    let count := if last < i + rangeSize then last - i else rangeSize
    match f.ancientRange S .hashes i count (32 * count) with
    | .error e => .error e
    | .ok data => initLoop S f last (i + data.length + 1) (s.putHashes data i)
  else .ok s
termination_by last - i

def initDatabaseFromFreezer (S : Snappy) (f : Freezer ChainKind) (db : HeaderDb) : Except Err HeaderDb :=
  let frozen := f.itemAmountInAncient
  let offset := f.ancientOffSet
  if frozen = 0 then .ok db
  else
    match initLoop S f (frozen + offset) offset ⟨db, .reset, 0⟩ with
    | .error e => .error e
    | .ok s => .ok { s.batch.write s.db with headHeader := some s.hash, headFastBlock := some s.hash }

/-! ## Batches -/

/-- The database with what is still in the batch. -/
def Init.view (s : Init) : HeaderDb := s.batch.write s.db

lemma Init.view_putHash (s : Init) (h : Hash) (number : Nat) :
    (s.putHash h.bytes number).view = s.view.putNumber (h, number) ∧ (s.putHash h.bytes number).hash = h := by
  have hwrite : (s.batch.writeHeaderNumber h number).write s.db = s.view.putNumber (h, number) := by
    rw [HeaderBatch.write, HeaderBatch.writeHeaderNumber, foldl_append]
    rfl
  unfold Init.putHash
  rw [bytesToHash_bytes]
  simp only
  split
  · exact ⟨hwrite, rfl⟩
  · exact ⟨hwrite, rfl⟩

/-- After a range each of its blocks has its number, and nothing else has changed. -/
lemma Init.view_putHashes (l : List Hash) (hl : l.Nodup) (s : Init) (i : Nat) :
    (∀ j h, l[j]? = some h → (s.putHashes (l.map Hash.bytes) i).view.numbers h = some (i + j)) ∧
    (∀ h ∉ l, (s.putHashes (l.map Hash.bytes) i).view.numbers h = s.view.numbers h) ∧
    (s.putHashes (l.map Hash.bytes) i).hash = l.getLast?.getD s.hash := by
  induction l generalizing s i with
  | nil => exact ⟨nofun, fun _ _ => rfl, rfl⟩
  | cons h l ih =>
    rw [nodup_cons] at hl
    obtain ⟨hview, hhash⟩ := s.view_putHash h i
    obtain ⟨hin, hout, hlast⟩ := ih hl.2 (s.putHash h.bytes i) (i + 1)
    rw [map_cons, Init.putHashes]
    refine ⟨fun j h' hj => ?_, fun h' hh' => ?_, ?_⟩
    · cases j with
      | zero =>
        cases hj
        rw [hout h hl.1, hview]
        exact Function.update_self _ _ _
      | succ j => rw [hin j h' hj, Nat.add_assoc, Nat.add_comm 1 j]
    · rw [mem_cons, not_or] at hh'
      rw [hout h' hh'.2, hview]
      exact Function.update_of_ne hh'.1 _ _
    · rw [hlast, hhash]
      cases l with
      | nil => rfl
      | cons h' l =>
        rw [getLast?_cons_cons]
        simp [getLast?_eq_some_getLast]

/-! ## The loop -/

section
variable {S : Snappy} {maxSize : Nat} {raw : ChainKind → Bool} {f : Freezer ChainKind} {c : Contents ChainKind}
  {hashes : List Hash}

/-- The table of hashes of a freezer. -/
structure HashTable (f : Freezer ChainKind) (c : Contents ChainKind) (hashes : List Hash) : Prop where
  known : ChainKind.hashes ∈ f.kinds
  content : c .hashes = hashes.map Hash.bytes

lemma read_hashes (hf : f.Holds S maxSize freezerNoSnappy c) (ht : HashTable f c hashes) {i : Nat}
    (hi : i < hashes.length) {count : Nat} (hcount : 0 < count) (hle : count ≤ rangeSize) :
    f.ancientRange S .hashes i count (32 * count) = .ok (((hashes.drop i).take count).map Hash.bytes) := by
  have hsize : rangeSize = 100000 := rfl
  have hslice : ((c .hashes).drop i).take count = ((hashes.drop i).take count).map Hash.bytes := by
    rw [ht.content, map_take, map_drop]
  have hsum : ((((hashes.drop i).take count).map Hash.bytes).map List.length).sum ≤ 32 * count := by
    have hmap : (((hashes.drop i).take count).map Hash.bytes).map List.length =
        ((hashes.drop i).take count).map fun _ => 32 := by
      rw [map_map]
      exact map_congr_left fun h _ => Trie.length_bytes h
    rw [hmap, map_const', sum_replicate_nat, length_take]
    have := Nat.min_le_left count (hashes.drop i).length
    omega
  have hstart : i < (c .hashes).length := by
    rw [ht.content, length_map]
    exact hi
  rw [hf.ancientRange ht.known hstart hcount (by unfold Table.sliceHeaderSize maxAlloc; omega)
    (by unfold maxAlloc; omega), hslice]
  have hstored : Freezer.storedSize S (freezerNoSnappy .hashes) = List.length := rfl
  rw [hstored, fitOne_eq_self hsum, fitOne_eq_self hsum]

/-- A range writes the numbers of its own blocks. -/
lemma Init.view_range (hnodup : hashes.Nodup) (s : Init) (i count : Nat) {n : Nat} {h : Hash} (hn : hashes[n]? = some h) :
    (s.putHashes (((hashes.drop i).take count).map Hash.bytes) i).view.numbers h =
      if i ≤ n ∧ n < i + count then some n else s.view.numbers h := by
  have hslice : ∀ j < count, ((hashes.drop i).take count)[j]? = hashes[i + j]? := by
    intro j hj
    rw [List.getElem?_take_of_lt hj, List.getElem?_drop]
  have hsub : ((hashes.drop i).take count).Nodup :=
    hnodup.sublist ((take_sublist _ _).trans (drop_sublist _ _))
  obtain ⟨hin, hout, -⟩ := Init.view_putHashes _ hsub s i
  by_cases hrange : i ≤ n ∧ n < i + count
  · have hj : ((hashes.drop i).take count)[n - i]? = some h := by
      rw [hslice _ (by omega), Nat.add_sub_cancel' hrange.1, hn]
    rw [if_pos hrange, hin _ h hj, Nat.add_sub_cancel' hrange.1]
  · rw [if_neg hrange, hout h fun hmem => ?_]
    obtain ⟨j, hj⟩ := mem_iff_getElem?.1 hmem
    obtain ⟨hjlt, -⟩ := List.getElem?_eq_some_iff.1 hj
    rw [length_take] at hjlt
    have hjlt' : j < count := Nat.lt_of_lt_of_le hjlt (Nat.min_le_left _ _)
    rw [hslice j hjlt'] at hj
    obtain ⟨hn', hget⟩ := List.getElem?_eq_some_iff.1 hn
    obtain ⟨hj', hget'⟩ := List.getElem?_eq_some_iff.1 hj
    have heq : n = i + j := (hnodup.getElem_inj_iff).1 (hget.trans hget'.symm)
    omega

/-- The loop passes this block by. -/
def Skips (n : Nat) : Prop := n % (rangeSize + 1) = rangeSize

instance : DecidablePred Skips := fun n => inferInstanceAs (Decidable (n % (rangeSize + 1) = rangeSize))

lemma skips_iff {n : Nat} : Skips n ↔ n % 100001 = 100000 := Iff.rfl

lemma initLoop_done {last i : Nat} (h : last ≤ i) (s : Init) : initLoop S f last i s = .ok s := by
  rw [initLoop, if_neg (Nat.not_lt.2 h)]

lemma initLoop_next {last i count : Nat} {data : List (List UInt8)} (hi : i < last)
    (hcount : (if last < i + rangeSize then last - i else rangeSize) = count)
    (hread : f.ancientRange S .hashes i count (32 * count) = .ok data) (s : Init) :
    initLoop S f last i s = initLoop S f last (i + data.length + 1) (s.putHashes data i) := by
  rw [initLoop, if_pos hi]
  simp only [hcount, hread]

section
variable (hf : f.Holds S maxSize freezerNoSnappy c)
include hf

/-- One range of the loop. -/
lemma initLoop_range (ht : HashTable f c hashes) {i : Nat}
    (hi : i < hashes.length) (s : Init) : ∃ count, 0 < count ∧ i + count ≤ hashes.length ∧
      (i + count < hashes.length → count = rangeSize) ∧ count ≤ rangeSize ∧ initLoop S f hashes.length i s =
      initLoop S f hashes.length (i + count + 1) (s.putHashes (((hashes.drop i).take count).map Hash.bytes) i) := by
  have hsize : rangeSize = 100000 := rfl
  refine ⟨if hashes.length < i + rangeSize then hashes.length - i else rangeSize, by split <;> omega, by split <;> omega,
    by split <;> omega, by split <;> omega, ?_⟩
  have hcount : 0 < (if hashes.length < i + rangeSize then hashes.length - i else rangeSize) := by split <;> omega
  have hread := read_hashes hf ht hi hcount (by split <;> omega)
  rw [initLoop_next hi rfl hread, length_map, length_take, length_drop]
  rw [Nat.min_eq_left (by split <;> omega)]

/-- From the start of a range the loop writes the numbers of all blocks but those it skips. -/
lemma initLoop_run (ht : HashTable f c hashes) (hnodup : hashes.Nodup)
    (i : Nat) (s : Init) (hi : i % (rangeSize + 1) = 0) : ∃ s', initLoop S f hashes.length i s = .ok s' ∧
      (∀ n h, hashes[n]? = some h → i ≤ n → ¬ Skips n → s'.view.numbers h = some n) ∧
      (∀ n h, hashes[n]? = some h → n < i ∨ Skips n → s'.view.numbers h = s.view.numbers h) ∧
      (i < hashes.length → hashes.length % (rangeSize + 1) ≠ 0 → hashes.getLast? = some s'.hash) := by
  induction hk : hashes.length - i using Nat.strong_induction_on generalizing i s with
  | h k ih =>
  have hsize : rangeSize = 100000 := rfl
  rw [hsize] at hi ⊢
  simp only [skips_iff] at ih ⊢
  by_cases hlast : i < hashes.length
  · obtain ⟨count, hpos, hle, hfull, hmax, hstep⟩ := initLoop_range hf ht hlast s
    have hview := fun n h => Init.view_range (n := n) (h := h) hnodup s i count
    rw [hstep]
    by_cases hmore : i + count < hashes.length
    · -- A full range: the block behind it is passed by.
      have hcount := hfull hmore
      obtain ⟨s', hrun, hin, hout, hhash⟩ := ih (hashes.length - (i + count + 1)) (by omega) (i + count + 1)
        (s.putHashes (((hashes.drop i).take count).map Hash.bytes) i) (by rw [hsize]; omega) rfl
      refine ⟨s', hrun, fun n h hn hle' hskip => ?_, fun n h hn hor => ?_, fun _ hrest => hhash (by omega) hrest⟩
      · by_cases hlt : n < i + count + 1
        · have hne : n ≠ i + count := by
            rintro rfl
            exact hskip (by omega)
          rw [hout n h hn (.inl hlt), hview n h hn, if_pos ⟨hle', by omega⟩]
        · exact hin n h hn (by omega) hskip
      · have hnot : ¬ (i ≤ n ∧ n < i + count) := by
          omega
        rw [hout n h hn (hor.imp (by omega) id), hview n h hn, if_neg hnot]
    · have heq : i + count = hashes.length := by omega
      refine ⟨_, initLoop_done (by omega) _, fun n h hn hle' _ => ?_, fun n h hn hor => ?_, fun _ _ => ?_⟩
      · have := (List.getElem?_eq_some_iff.1 hn).1
        rw [hview n h hn, if_pos (by omega)]
      · have hnot : ¬ (i ≤ n ∧ n < i + count) := by
          omega
        rw [hview n h hn, if_neg hnot]
      · have hsub : ((hashes.drop i).take count).Nodup :=
          hnodup.sublist ((take_sublist _ _).trans (drop_sublist _ _))
        obtain ⟨-, -, hhash⟩ := Init.view_putHashes _ hsub s i
        rw [hhash, take_of_length_le (by rw [length_drop]; omega), getLast?_drop, if_neg (by omega)]
        rw [getLast?_eq_some_getLast (ne_nil_of_length_pos (by omega))]
        rfl
  · refine ⟨s, initLoop_done (by omega) s, fun n h hn hle => ?_, fun _ _ _ _ => rfl, fun hlt => absurd hlt hlast⟩
    have := (List.getElem?_eq_some_iff.1 hn).1
    omega

lemma read_past (ht : HashTable f c hashes) {i count maxBytes : Nat} (hi : hashes.length ≤ i) :
    f.ancientRange S .hashes i count maxBytes = .error .outOfBounds := by
  obtain ⟨t, -, hlookup, hstores, -⟩ := hf.lookup ht.known
  unfold Freezer.ancientRange
  rw [hlookup]
  exact hstores.retrieveItems_outOfBounds (by rwa [ht.content, length_map])

/-- Past an offset the first block is never read. -/
lemma initLoop_keeps_first {h₀ : Hash} {rest : List Hash} (ht : HashTable f c (h₀ :: rest)) (hnodup : (h₀ :: rest).Nodup)
    {last i : Nat} {s s' : Init} (hi : 0 < i) (hrun : initLoop S f last i s = .ok s') :
    s'.view.numbers h₀ = s.view.numbers h₀ := by
  have hsize : rangeSize = 100000 := rfl
  induction hk : last - i using Nat.strong_induction_on generalizing i s with
  | h k ih =>
  by_cases hlt : i < last
  · have hcount : 0 < (if last < i + rangeSize then last - i else rangeSize) := by split <;> omega
    by_cases hin : i < (h₀ :: rest).length
    · rw [initLoop_next hlt rfl (read_hashes hf ht hin hcount (by split <;> omega))] at hrun
      rw [ih _ (by omega) (by omega) hrun rfl, Init.view_range hnodup s i _ (n := 0) rfl, if_neg (by omega)]
    · rw [initLoop, if_pos hlt] at hrun
      simp only [read_past hf ht (Nat.not_lt.1 hin)] at hrun
      cases hrun
  · rw [initLoop_done (by omega)] at hrun
    cases hrun
    rfl

lemma itemAmount_eq (ht : HashTable f c hashes) : f.itemAmountInAncient = hashes.length := by
  have hlen := hf.ancients ht.known
  rw [ht.content, length_map] at hlen
  have hlt : f.ancients < maxUint64 := hf.frozen
  unfold Freezer.ancients at hlen hlt
  rw [Freezer.itemAmountInAncient, Freezer.sub64_of_le (by omega) (Nat.lt_trans hlt (by decide))]
  omega

lemma initDatabaseFromFreezer_run (ht : HashTable f c hashes) (hoffset : f.offset = 0)
    (hnodup : hashes.Nodup) (hne : hashes ≠ []) (db : HeaderDb) : ∃ db', initDatabaseFromFreezer S f db = .ok db' ∧
      (∀ n h, hashes[n]? = some h → ¬ Skips n → db'.numbers h = some n) ∧
      (∀ n h, hashes[n]? = some h → Skips n → db'.numbers h = db.numbers h) ∧
      (hashes.length % (rangeSize + 1) ≠ 0 → db'.headHeader = hashes.getLast? ∧ db'.headFastBlock = hashes.getLast?) := by
  have hpos := length_pos_of_ne_nil hne
  have hfrozen := itemAmount_eq hf ht
  obtain ⟨s', hrun, hin, hout, hhash⟩ := initLoop_run hf ht hnodup 0 ⟨db, .reset, 0⟩ (Nat.zero_mod _)
  have hoff : f.ancientOffSet = 0 := hoffset
  unfold initDatabaseFromFreezer
  simp only [hfrozen, hoff, Nat.add_zero, if_neg (Nat.pos_iff_ne_zero.1 hpos), hrun]
  refine ⟨_, rfl, fun n h hn hskip => hin n h hn (Nat.zero_le _) hskip, fun n h hn hskip => hout n h hn (.inr hskip),
    fun hrest => ?_⟩
  rw [hhash hpos hrest]
  exact ⟨rfl, rfl⟩

end

end

/-- Every frozen block has its number, and the heads are the last one. -/
structure Complete (offset : Nat) (hashes : List Hash) (db : HeaderDb) : Prop where
  numbers : ∀ n h, hashes[n]? = some h → db.numbers h = some (offset + n)
  heads : hashes ≠ [] → db.headHeader = hashes.getLast? ∧ db.headFastBlock = hashes.getLast?

/-- An empty database is completed exactly if nothing is frozen, or there is no offset and at
most 100000 blocks are. Without an offset, every frozen block gets its number, except for those
behind a full range, and the heads are the last frozen block, unless it is one of them. -/
theorem database_from_ancients {S : Snappy} {maxSize offset : Nat} {kinds : List ChainKind} (hmax : maxSize < 2 ^ 32)
    (hoffset : offset < maxUint64) (hkeys : kinds.Nodup) (hmem : ChainKind.hashes ∈ kinds) {f₀ f : Freezer ChainKind}
    (hopen : Freezer.newFreezer offset maxSize (Freezer.newFiles freezerNoSnappy kinds) = .ok f₀)
    {ops : List (Freezer.Op ChainKind)} (hruns : Freezer.Runs S maxSize ops f₀ f) {hashes : List Hash}
    (hhashes : ops.foldl (Freezer.Op.spec offset) (fun _ => []) .hashes = hashes.map Hash.bytes) (hnodup : hashes.Nodup)
    (db : HeaderDb) :
    ((∀ h ∈ hashes, db.numbers h = none) →
      ((∃ db', initDatabaseFromFreezer S f db = .ok db' ∧ Complete offset hashes db') ↔
        hashes = [] ∨ offset = 0 ∧ hashes.length ≤ rangeSize)) ∧
    (offset = 0 → hashes ≠ [] → ∃ db', initDatabaseFromFreezer S f db = .ok db' ∧
      (∀ n h, hashes[n]? = some h → ¬ Skips n → db'.numbers h = some n) ∧
      (∀ n h, hashes[n]? = some h → Skips n → db'.numbers h = db.numbers h) ∧
      (hashes.length % (rangeSize + 1) ≠ 0 → db'.headHeader = hashes.getLast? ∧ db'.headFastBlock = hashes.getLast?)) := by
  obtain ⟨hkinds, hoff, hholds⟩ := Freezer.holds_new (S := S) (ne_nil_of_mem hmem) hkeys hoffset hopen
  obtain ⟨hkinds', hoff', hf⟩ := hruns.holds hmax hholds
  rw [hoff] at hoff' hf
  have ht : HashTable f _ hashes := ⟨by rw [hkinds', hkinds]; exact hmem, hhashes⟩
  have hsize : rangeSize = 100000 := rfl
  have hrun := fun hzero : offset = 0 => initDatabaseFromFreezer_run hf ht (hoff'.trans hzero) hnodup
  refine ⟨fun hempty => ⟨?_, ?_⟩, fun hzero hne => hrun hzero hne db⟩
  · rintro ⟨db', hok, hcomplete⟩
    cases hashes with
    | nil => exact .inl rfl
    | cons h₀ rest =>
      right
      by_cases hzero : offset = 0
      · -- the block behind the first range has no entry
        refine ⟨hzero, Nat.not_lt.1 fun hlong => ?_⟩
        obtain ⟨db'', hok', -, hskip, -⟩ := hrun hzero (cons_ne_nil _ _) db
        cases hok.symm.trans hok'
        have hget := List.getElem?_eq_getElem hlong
        have hnone := hskip _ _ hget (by decide)
        rw [hempty _ (getElem_mem _), hcomplete.numbers _ _ hget] at hnone
        cases hnone
      · -- the first block has no entry
        exfalso
        have hamount := itemAmount_eq hf ht
        have hoff'' : f.ancientOffSet = offset := hoff'
        rw [initDatabaseFromFreezer] at hok
        simp only [hamount, hoff'', length_cons, Nat.add_one_ne_zero, if_false] at hok
        split at hok
        · cases hok
        next s hloop =>
        cases hok
        have hfirst := initLoop_keeps_first hf ht hnodup (by omega) hloop
        have hnumber := hcomplete.numbers 0 h₀ rfl
        change s.view.numbers h₀ = _ at hnumber
        rw [hfirst] at hnumber
        exact absurd (hnumber.symm.trans (hempty h₀ mem_cons_self)) (Option.some_ne_none _)
  · intro hcond
    by_cases hne : hashes = []
    · subst hne
      have hzero := itemAmount_eq hf ht
      refine ⟨db, ?_, fun n h hn => by simp at hn, fun hne => absurd rfl hne⟩
      rw [initDatabaseFromFreezer]
      exact if_pos hzero
    · obtain ⟨rfl, hle⟩ := hcond.resolve_left hne
      obtain ⟨db', hok, hin, -, hhead⟩ := hrun rfl hne db
      have hpos := length_pos_of_ne_nil hne
      refine ⟨db', hok, fun n h hn => ?_, fun _ => hhead (by rw [hsize] at hle ⊢; omega)⟩
      have hlt := (List.getElem?_eq_some_iff.1 hn).1
      rw [Nat.zero_add]
      exact hin n h hn (by rw [skips_iff]; omega)

/-! ## Small freezers -/

/-- A freezer of hashes only. -/
def hashFreezer (offset : Nat) : Freezer ChainKind :=
  match Freezer.newFreezer offset 64 (Freezer.newFiles freezerNoSnappy [.hashes]) with
  | .ok f => f
  | .error _ => ⟨0, offset, false, []⟩

def freezeHashes (number : Nat) : WriteOp ChainKind := ⟨[⟨.hashes, number, Hash.bytes 5⟩, ⟨.hashes, number + 1, Hash.bytes 6⟩], false⟩

def hashesFrozen (offset : Nat) : Freezer ChainKind :=
  stateOf (Freezer.modifyAncients Table.plainSnappy (freezeHashes offset) [] (hashFreezer offset))

def emptyDb : HeaderDb := ⟨fun _ => none, none, none⟩

theorem database_from_ancients_two : ∃ db, initDatabaseFromFreezer Table.plainSnappy (hashesFrozen 0) emptyDb = .ok db ∧
    db.numbers 5 = some 0 ∧ db.numbers 6 = some 1 ∧ db.headHeader = some 6 ∧ db.headFastBlock = some 6 := by
  have hopen : Freezer.newFreezer 0 64 (Freezer.newFiles freezerNoSnappy [.hashes]) = .ok (hashFreezer 0) := rfl
  have hallowed : Freezer.WriteOp.Allowed Table.plainSnappy (hashFreezer 0) (freezeHashes 0) := by
    refine ⟨fun a ha => ?_, by decide +kernel⟩
    simp only [freezeHashes, mem_cons, not_mem_nil, or_false] at ha
    rcases ha with rfl | rfl <;> exact ⟨by decide, by decide⟩
  have hbounded : ∀ e ∈ (hashesFrozen 0).tables, e.2.headId < 2 ^ 16 ∧ e.2.items < 2 ^ 60 := by decide +kernel
  have hruns : Freezer.Runs Table.plainSnappy 64 [.modify (freezeHashes 0)] (hashFreezer 0) (hashesFrozen 0) :=
    .cons hallowed rfl (fun e he => ⟨(hbounded e he).1, (hbounded e he).2⟩) .nil
  have hhashes : ([.modify (freezeHashes 0)] : List (Freezer.Op ChainKind)).foldl (Freezer.Op.spec 0) (fun _ => []) .hashes =
      ([5, 6] : List Hash).map Hash.bytes := rfl
  obtain ⟨db, hrun, hin, -, hhead⟩ := (database_from_ancients (by decide) (by decide) (by decide) mem_cons_self hopen hruns
    hhashes (by decide) emptyDb).2 rfl (by decide)
  exact ⟨db, hrun, hin 0 5 rfl (by decide), hin 1 6 rfl (by decide), hhead (by decide)⟩

/-- With an offset the first range starts too far into the table: block 1 gets no entry and
block 2 a wrong one. -/
theorem database_from_ancients_offset :
    (hashesFrozen 1).ancient Table.plainSnappy .hashes 1 = .ok (Hash.bytes 5) ∧
    (hashesFrozen 1).ancient Table.plainSnappy .hashes 2 = .ok (Hash.bytes 6) ∧
    ∃ db, initDatabaseFromFreezer Table.plainSnappy (hashesFrozen 1) emptyDb = .ok db ∧
      db.numbers 5 = none ∧ db.numbers 6 = some 1 := by
  have hfrozen : (hashesFrozen 1).itemAmountInAncient = 2 := by decide +kernel
  have hoffset : (hashesFrozen 1).ancientOffSet = 1 := rfl
  have hread : (hashesFrozen 1).ancientRange Table.plainSnappy .hashes 1 2 (32 * 2) = .ok [Hash.bytes 6] := by
    decide +kernel
  have hloop : ∀ s, initLoop Table.plainSnappy (hashesFrozen 1) (2 + 1) 1 s = .ok (s.putHashes [Hash.bytes 6] 1) := by
    intro s
    rw [initLoop_next (by decide) (by decide) hread]
    exact initLoop_done (by decide) _
  refine ⟨by decide +kernel, by decide +kernel, ?_⟩
  unfold initDatabaseFromFreezer
  simp only [hfrozen, hoffset, hloop]
  exact ⟨_, rfl, by decide +kernel, by decide +kernel⟩

end TurboOctopus.Rawdb
