import Mathlib.Data.List.TakeWhile
import TurboOctopus.Core.HeaderStore
/-!
# What writing headers does

From the first header that is not known on, all of them are put into the caches and the
batch (`HeaderChain.fresh`). With the batch written the chain is sound again; without it
the caches know headers that are not stored.
-/
namespace TurboOctopus.Core

open Lib List

variable {H κ : Type} [DecidableEq κ] {v : HeaderFields H κ} {db : HeaderDb H κ} {s : HeaderChain H κ}

/-! ## Contiguous headers -/

/-- Every header is the parent of the next. -/
def HeaderFields.Contiguous (v : HeaderFields H κ) (headers : List H) : Prop :=
  headers.IsChain fun h next => v.parentHash next = v.hash h

variable {first h : H} {headers rest : List H} {k : κ} {n : UInt64} {w : WriteLoop H κ}

namespace HeaderFields.Contiguous

omit [DecidableEq κ]

lemma hashBefore (hc : v.Contiguous (h :: rest)) : v.hashBefore h rest = v.hash h := by
  cases rest with
  | nil => rfl
  | cons next rest => exact (isChain_cons_cons.1 hc).1

lemma tail (hc : v.Contiguous (h :: rest)) : v.Contiguous rest :=
  List.IsChain.tail hc

lemma ascending (hc : v.Contiguous headers) :
    headers.Pairwise fun h h' => (v.number h).toNat < (v.number h').toNat := by
  apply isChain_iff_pairwise.1
  refine hc.imp fun h next hnext => ?_
  have := v.number_parent next h hnext.symm
  omega

lemma nodup (hc : v.Contiguous headers) : (headers.map v.hash).Nodup := by
  rw [List.Nodup, pairwise_map]
  refine hc.ascending.imp fun hlt heq => ?_
  rw [v.hash_inj _ _ heq] at hlt
  exact Nat.lt_irrefl _ hlt

/-- The total difficulty after the headers. -/
lemma total {last : H} (hc : v.Contiguous (first :: rest)) (hlast : (first :: rest).getLast? = some last) :
    v.total (v.hash last) = v.total (v.parentHash first) + ((first :: rest).map v.difficulty).sum := by
  induction rest generalizing first with
  | nil =>
    cases hlast
    simpa using v.total_hash first
  | cons next rest ih =>
    rw [getLast?_cons_cons] at hlast
    rw [ih hc.tail hlast, (isChain_cons_cons.1 hc).1, v.total_hash first, map_cons (a := first),
      sum_cons (a := v.difficulty first), Nat.add_assoc]

end HeaderFields.Contiguous

/-! ## The loop -/

variable (v) in
def HeaderChain.cacheAll (s : HeaderChain H κ) (headers : List H) : HeaderChain H κ :=
  { s with
    tdCache := s.tdCache.addAll (headers.map fun h => (v.hash h, v.total (v.hash h)))
    headerCache := s.headerCache.addAll (headers.map fun h => (v.hash h, h))
    numberCache := s.numberCache.addAll (headers.map fun h => (v.hash h, v.number h)) }

def HeaderFields.writes (v : HeaderFields H κ) (headers : List H) : List (DbWrite H κ) :=
  headers.flatMap fun h => [.td (v.hash h) (v.number h) (v.total (v.hash h)), .header h]

variable (v) in
/-- The headers from the first one that is not known on. -/
def HeaderChain.fresh (s : HeaderChain H κ) (headers : List H) : List H :=
  headers.dropWhile fun h => s.hasHeader (v.hash h) (v.number h)

/-- What the loop leaves when it adds all these headers to what it has. -/
def HeaderChain.Wrote (v : HeaderFields H κ) (s : HeaderChain H κ) (w : WriteLoop H κ) (headers : List H)
    (r : WriteLoop H κ × HeaderChain H κ) : Prop :=
  r.1.inserted = w.inserted + headers.length ∧ r.1.batch = w.batch ++ v.writes headers ∧ r.2 = s.cacheAll v headers

omit [DecidableEq κ] in
/-- The total difficulty the loop has before the next header. -/
lemma HeaderFields.Contiguous.total_next (hc : v.Contiguous (h :: rest)) :
    ∀ next ∈ rest.head?, v.total (v.hash h) = v.total (v.parentHash next) := by
  intro next hmem
  obtain ⟨rest, rfl⟩ := head?_eq_some_iff.1 hmem
  rw [(isChain_cons_cons.1 hc).1]

/-- After an unknown header every header is written. -/
lemma HeaderChain.writeLoop_unknown (hc : v.Contiguous headers)
    (hw : w.parentKnown = false) (htd : ∀ h ∈ headers.head?, w.newTD = v.total (v.parentHash h)) :
    s.Wrote v w headers (HeaderChain.writeLoop v headers w s) := by
  induction headers generalizing w s with
  | nil => exact ⟨rfl, (append_nil _).symm, rfl⟩
  | cons h rest ih =>
    have hnew : w.newTD + v.difficulty h = v.total (v.hash h) := by
      rw [htd h rfl, v.total_hash h]
    rw [HeaderChain.writeLoop, hw, Bool.false_and, if_neg Bool.false_ne_true, hc.hashBefore, hnew]
    obtain ⟨h1, h2, h3⟩ := ih hc.tail (s := s.cacheAll v [h])
      (w := ⟨v.total (v.hash h), w.inserted + 1, false, w.batch ++ v.writes [h]⟩) rfl hc.total_next
    refine ⟨h1.trans (Nat.add_right_comm _ _ _), h2.trans ?_, h3⟩
    exact append_assoc _ _ _

/-- Until then no header is. -/
lemma HeaderChain.writeLoop_known (hc : v.Contiguous headers)
    (hw : w.parentKnown = true) (htd : ∀ h ∈ headers.head?, w.newTD = v.total (v.parentHash h)) :
    s.Wrote v w (s.fresh v headers) (HeaderChain.writeLoop v headers w s) := by
  induction headers generalizing w with
  | nil => exact ⟨rfl, (append_nil _).symm, rfl⟩
  | cons h rest ih =>
    by_cases hknown : s.hasHeader (v.hash h) (v.number h) = true
    · have hfresh : s.fresh v (h :: rest) = s.fresh v rest := by
        unfold HeaderChain.fresh
        rw [dropWhile_cons, if_pos hknown]
      have hnew : w.newTD + v.difficulty h = v.total (v.hash h) := by
        rw [htd h rfl, v.total_hash h]
      rw [HeaderChain.writeLoop, hw, hc.hashBefore, hknown, Bool.true_and, if_pos rfl, hnew, hfresh]
      exact ih hc.tail (w := { w with newTD := v.total (v.hash h), parentKnown := true }) rfl hc.total_next
    · -- the step does not depend on whether the parent is known
      have hfresh : s.fresh v (h :: rest) = h :: rest := by
        unfold HeaderChain.fresh
        rw [dropWhile_cons, if_neg hknown]
      have hsame : HeaderChain.writeLoop v (h :: rest) w s =
          HeaderChain.writeLoop v (h :: rest) { w with parentKnown := false } s := by
        rw [HeaderChain.writeLoop, HeaderChain.writeLoop, hc.hashBefore, Bool.eq_false_iff.2 hknown, Bool.and_false,
          Bool.false_and]
      rw [hfresh, hsame]
      exact HeaderChain.writeLoop_unknown hc (w := { w with parentKnown := false }) rfl htd

/-! ## The batch -/

namespace HeaderDb

variable (v) in
/-- A header with its total difficulty. -/
def store (db : HeaderDb H κ) (h : H) : HeaderDb H κ :=
  (db.put v (.td (v.hash h) (v.number h) (v.total (v.hash h)))).put v (.header h)

variable (v) in
def storeAll (db : HeaderDb H κ) (headers : List H) : HeaderDb H κ := headers.foldl (store v) db

lemma write_writes (db : HeaderDb H κ) (headers : List H) :
    db.write v (v.writes headers) = db.storeAll v headers := by
  induction headers generalizing db with
  | nil => rfl
  | cons h rest ih => exact ih (db.store v h)

variable (v) in
/-- What one database holds the other holds. -/
structure Extends (db db' : HeaderDb H κ) : Prop where
  header : ∀ k h, db.HoldsHeader v k h → db'.HoldsHeader v k h
  td : ∀ k td, db.HoldsTd v k td → db'.HoldsTd v k td
  number : ∀ k n, db.HoldsNumber k n → db'.HoldsNumber k n

lemma lookup_headers_store (db : HeaderDb H κ) (h : H) {x : H} :
    (db.store v h).headers.lookup (n, k) = some x ↔
      ((n, k) = (v.number h, v.hash h) ∧ x = h) ∨
        ((n, k) ≠ (v.number h, v.hash h) ∧ db.headers.lookup (n, k) = some x) := lookup_insert_iff

lemma lookup_numbers_store (db : HeaderDb H κ) (h : H) :
    (db.store v h).numbers.lookup k = some n ↔
      (k = v.hash h ∧ n = v.number h) ∨ (k ≠ v.hash h ∧ db.numbers.lookup k = some n) := lookup_insert_iff

lemma lookup_tds_store (db : HeaderDb H κ) (h : H) {td : Nat} : (db.store v h).tds.lookup (n, k) = some td ↔
      ((n, k) = (v.number h, v.hash h) ∧ td = v.total k) ∨
      ((n, k) ≠ (v.number h, v.hash h) ∧ db.tds.lookup (n, k) = some td) := by
  refine lookup_insert_iff.trans (or_congr_left (and_congr_right fun hkey => ?_))
  cases hkey
  rfl

lemma stored_store_iff (db : HeaderDb H κ) (h x : H) : (db.store v h).Stored v x ↔ x = h ∨ db.Stored v x := by
  refine (db.lookup_headers_store h).trans ⟨?_, ?_⟩
  · rintro (⟨-, rfl⟩ | ⟨-, hx⟩)
    · exact .inl rfl
    · exact .inr hx
  · rintro (rfl | hx)
    · exact .inl ⟨rfl, rfl⟩
    · by_cases hkey : (v.number x, v.hash x) = (v.number h, v.hash h)
      · exact .inl ⟨hkey, v.hash_inj x h (Prod.ext_iff.1 hkey).2⟩
      · exact .inr ⟨hkey, hx⟩

lemma Sound.store (hdb : db.Sound v) (h : H) : (db.store v h).Sound v := by
  constructor
  · intro n k x hx
    rcases (db.lookup_headers_store h).1 hx with ⟨hkey, rfl⟩ | ⟨-, hx⟩
    · cases hkey
      exact ⟨rfl, rfl⟩
    · exact hdb.header n k x hx
  · intro k n
    rw [db.lookup_numbers_store]
    simp only [db.lookup_headers_store]
    by_cases hk : k = v.hash h
    · subst hk
      constructor
      · rintro (⟨-, rfl⟩ | ⟨hne, -⟩)
        · exact ⟨h, .inl ⟨rfl, rfl⟩⟩
        · exact absurd rfl hne
      · rintro ⟨x, ⟨hkey, -⟩ | ⟨-, hx⟩⟩
        · exact .inl ⟨rfl, (Prod.ext_iff.1 hkey).1⟩
        · obtain ⟨rfl, hhash⟩ := hdb.header _ _ _ hx
          exact .inl ⟨rfl, congrArg v.number (v.hash_inj x h hhash)⟩
    · have hkey : (n, k) ≠ (v.number h, v.hash h) := fun heq => hk (Prod.ext_iff.1 heq).2
      simpa [hk, hkey] using hdb.number k n
  · intro n k td htd
    rcases (db.lookup_tds_store h).1 htd with ⟨hkey, rfl⟩ | ⟨-, htd⟩
    · cases hkey
      exact ⟨rfl, fun x hx => congrArg v.number (v.hash_inj x h hx)⟩
    · exact hdb.td n k td htd
  · intro x hx
    rw [db.lookup_tds_store]
    rcases (db.stored_store_iff h x).1 hx with rfl | hx
    · exact .inl ⟨rfl, rfl⟩
    · by_cases hkey : (v.number x, v.hash x) = (v.number h, v.hash h)
      · exact .inl ⟨hkey, rfl⟩
      · exact .inr ⟨hkey, hdb.td_of_stored x hx⟩

/-- What a stored header holds. -/
lemma Sound.holds (hdb : db.Sound v) (hh : db.Stored v h) : db.HoldsHeader v (v.hash h) h ∧
      db.HoldsTd v (v.hash h) (v.total (v.hash h)) ∧ db.HoldsNumber (v.hash h) (v.number h) := by
  refine ⟨⟨rfl, hh⟩, ⟨rfl, fun x hx => ?_⟩, (hdb.number _ _).2 ⟨h, hh⟩⟩
  rw [v.hash_inj x h hx]
  exact hdb.td_of_stored h hh

lemma Sound.extends_store (hdb : db.Sound v) (h : H) : db.Extends v (db.store v h) := by
  constructor
  · rintro k x ⟨hk, hx⟩
    exact ⟨hk, (db.stored_store_iff h x).2 (.inr hx)⟩
  · rintro k td ⟨rfl, hk⟩
    refine ⟨rfl, fun x hx => (db.lookup_tds_store h).2 ?_⟩
    by_cases hkey : (v.number x, k) = (v.number h, v.hash h)
    · exact .inl ⟨hkey, rfl⟩
    · exact .inr ⟨hkey, hk x hx⟩
  · intro k n hn
    obtain ⟨x, hx⟩ := (hdb.number k n).1 hn
    obtain ⟨rfl, rfl, hstored⟩ := hdb.stored_of_lookup hx
    have hx' : (db.store v h).Stored v x := (db.stored_store_iff h x).2 (.inr hstored)
    exact ((hdb.store h).holds hx').2.2

lemma Sound.storeAll (hdb : db.Sound v) (headers : List H) : (db.storeAll v headers).Sound v ∧
      db.Extends v (db.storeAll v headers) ∧ (∀ x, (db.storeAll v headers).Stored v x ↔ x ∈ headers ∨ db.Stored v x) ∧
      (db.storeAll v headers).canonical = db.canonical := by
  induction headers generalizing db with
  | nil => exact ⟨hdb, ⟨fun _ _ => id, fun _ _ => id, fun _ _ => id⟩, fun x => by simp [storeAll], rfl⟩
  | cons h rest ih =>
    obtain ⟨h1, h2, h3, h4⟩ := ih (hdb.store h)
    have hext := hdb.extends_store h
    refine ⟨h1, ⟨?_, ?_, ?_⟩, ?_, h4⟩
    · exact fun k x hx => h2.header k x (hext.header k x hx)
    · exact fun k td htd => h2.td k td (hext.td k td htd)
    · exact fun k n hn => h2.number k n (hext.number k n hn)
    · intro x
      rw [mem_cons, or_assoc, or_left_comm, ← db.stored_store_iff h x]
      exact h3 x

end HeaderDb

/-! ## Headers in the caches -/

omit [DecidableEq κ] in
lemma HeaderFields.map_drop_sub {α : Type} (headers : List H) (f : H → κ × α) (n : Nat) :
    (headers.map f).drop ((headers.map f).length - n) = (headers.drop (headers.length - n)).map f := by
  rw [length_map, map_drop]

namespace HeaderChain

/-- With the batch written the caches hold what is stored. Without it, it is enough that
the last headers, which the largest cache has room for, were stored already. -/
lemma Sound.cacheAll (hs : s.Sound v) (hc : v.Contiguous headers)
    (hstored : ∀ h ∈ headers.drop (headers.length - numberCacheLimit), s.db.Stored v h) :
    (s.cacheAll v headers).Sound v := by
  have hlast : ∀ n ≤ numberCacheLimit, ∀ h ∈ headers.drop (headers.length - n), s.db.Stored v h := by
    intro n hn h hh
    exact hstored h ((drop_sublist_drop_left _ (Nat.sub_le_sub_left hn _)).subset hh)
  have hnodup : ∀ {α : Type} (f : H → κ × α), (∀ h, (f h).1 = v.hash h) → ((headers.map f).map Prod.fst).Nodup := by
    intro α f hf
    rw [map_map, (funext hf : Prod.fst ∘ f = v.hash)]
    exact hc.nodup
  refine ⟨hs.db, ?_, ?_, ?_, hs.current, hs.currentHash⟩
  · refine hs.header.addAll (hnodup _ fun _ => rfl) ?_
    rw [HeaderFields.map_drop_sub]
    exact forall_mem_map.2 fun h hh => (hs.db.holds (hlast _ (by decide) h hh)).1
  · refine hs.td.addAll (hnodup _ fun _ => rfl) ?_
    rw [HeaderFields.map_drop_sub]
    exact forall_mem_map.2 fun h hh => (hs.db.holds (hlast _ (by decide) h hh)).2.1
  · refine hs.number.addAll (hnodup _ fun _ => rfl) ?_
    rw [HeaderFields.map_drop_sub]
    exact forall_mem_map.2 fun h hh => (hs.db.holds (hlast _ (le_refl _) h hh)).2.2

lemma hasHeader_cacheAll (hc : v.Contiguous headers) (hh : h ∈ headers.drop (headers.length - numberCacheLimit)) :
    (s.cacheAll v headers).hasHeader (v.hash h) (v.number h) = true := by
  have hnodup : ((headers.map fun h => (v.hash h, v.number h)).map Prod.fst).Nodup := by
    rw [map_map]
    exact hc.nodup
  have hmem : (v.hash h, v.number h) ∈ (headers.map fun h => (v.hash h, v.number h)).drop
      ((headers.map fun h => (v.hash h, v.number h)).length - numberCacheLimit) := by
    rw [HeaderFields.map_drop_sub]
    exact mem_map.2 ⟨h, hh, rfl⟩
  have hcontains : (s.cacheAll v headers).numberCache.contains (v.hash h) = true :=
    Lru.contains_iff.2 ⟨_, Lru.peek_addAll hnodup hmem⟩
  simp [hasHeader, hcontains]

/-- Whether the chain answers as before when headers are in the caches only. -/
lemma Sound.same_cacheAll_iff (hs : s.Sound v) (hc : v.Contiguous headers) : s.Same v (s.cacheAll v headers) ↔
      ∀ h ∈ headers.drop (headers.length - numberCacheLimit), s.db.Stored v h := by
  constructor
  · intro hsame h hh
    rw [← hs.hasHeader_iff, hsame.hasHeader h]
    exact hasHeader_cacheAll hc hh
  · intro hstored
    exact hs.same (hs.cacheAll hc hstored) rfl rfl

variable (v) in
/-- The chain with headers cached and stored. -/
def written (s : HeaderChain H κ) (headers : List H) : HeaderChain H κ :=
  { s.cacheAll v headers with db := s.db.storeAll v headers }

lemma Sound.written (hs : s.Sound v) (hc : v.Contiguous headers) : (s.written v headers).Sound v := by
  obtain ⟨hdb, hext, hstored, -⟩ := hs.db.storeAll headers
  have hs' : { s with db := s.db.storeAll v headers }.Sound v :=
    ⟨hdb, fun k h hh => hext.header k h (hs.header k h hh), fun k td htd => hext.td k td (hs.td k td htd),
      fun k n hn => hext.number k n (hs.number k n hn), (hstored _).2 (.inr hs.current), hs.currentHash⟩
  exact { hs'.cacheAll hc fun h hh => (hstored h).2 (.inl (mem_of_mem_drop hh)) with }

/-! ## `WriteHeaders` -/

/-- The headers before the fresh ones are known. -/
lemma exists_append_fresh (s : HeaderChain H κ) (headers : List H) :
    ∃ known, headers = known ++ s.fresh v headers ∧ ∀ h ∈ known, s.hasHeader (v.hash h) (v.number h) = true := by
  refine ⟨headers.takeWhile fun h => s.hasHeader (v.hash h) (v.number h), takeWhile_append_dropWhile.symm, ?_⟩
  intro h hh
  have hknown := mem_takeWhile_imp (p := fun h => s.hasHeader (v.hash h) (v.number h)) hh
  exact hknown

end HeaderChain

lemma HeaderFields.Contiguous.fresh (hc : v.Contiguous headers) :
    v.Contiguous (s.fresh v headers) := List.IsChain.suffix hc (dropWhile_suffix _)

lemma HeaderChain.writeHeaders_unknownAncestor {interrupted : Bool}
    (htd : (s.getTd (v.parentHash first) (v.number first - 1)).1 = none) :
    HeaderChain.writeHeaders v (first :: rest) interrupted s = .error (.err .unknownAncestor) s := by
  have hsame : (s.getTd (v.parentHash first) (v.number first - 1)).2 = s := by
    have hcache := Lru.readThrough_of_none htd
    change { s with tdCache := (s.tdCache.readThrough _ _).2 } = s
    rw [hcache]
  have hget : s.getTd (v.parentHash first) (v.number first - 1) = (none, s) := Prod.ext htd hsame
  simp only [HeaderChain.writeHeaders, hget]

/-- What `WriteHeaders` does when the parent's total difficulty is known. -/
lemma HeaderChain.Sound.writeHeaders_eq (hs : s.Sound v)
    (hc : v.Contiguous (first :: rest)) {ptd : Nat}
    (htd : (s.getTd (v.parentHash first) (v.number first - 1)).1 = some ptd) :
    ∃ t, s.Reads v t ∧ ∀ interrupted,
      HeaderChain.writeHeaders v (first :: rest) interrupted s =
        if interrupted then .error (.err .aborted) (t.cacheAll v (t.fresh v (first :: rest)))
        else .ok (t.fresh v (first :: rest)).length (t.written v (t.fresh v (first :: rest))) := by
  obtain ⟨t, ht⟩ : ∃ t, s.getTd (v.parentHash first) (v.number first - 1) = (some ptd, t) := ⟨_, Prod.ext htd rfl⟩
  have hreads : s.Reads v t := by
    simpa [ht] using hs.getTd (v.parentHash first) (v.number first - 1)
  have htotal : ∀ h ∈ (first :: rest).head?, ptd = v.total (v.parentHash h) := by
    rintro h ⟨⟩
    exact hs.total_of_getTd htd
  have hwrote := HeaderChain.writeLoop_known (s := t) hc (w := ⟨ptd, 0, true, []⟩) rfl htotal
  refine ⟨t, hreads, fun interrupted => ?_⟩
  rcases hloop : HeaderChain.writeLoop v (first :: rest) ⟨ptd, 0, true, []⟩ t with ⟨w, u⟩
  rw [hloop] at hwrote
  obtain ⟨hinserted, hbatch, rfl⟩ := hwrote
  have hwrite : (t.cacheAll v (t.fresh v (first :: rest))).db.write v w.batch =
      t.db.storeAll v (t.fresh v (first :: rest)) := by
    rw [show w.batch = v.writes (t.fresh v (first :: rest)) from hbatch]
    exact HeaderDb.write_writes _ _
  simp only [HeaderChain.writeHeaders, ht, hloop, hwrite, HeaderChain.written]
  rw [show w.inserted = (t.fresh v (first :: rest)).length from hinserted.trans (Nat.zero_add _)]

end TurboOctopus.Core
