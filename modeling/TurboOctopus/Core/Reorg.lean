import TurboOctopus.Core.Ancestors
import TurboOctopus.Core.HeaderInsert
import TurboOctopus.Lib.Counting
/-!
# Reorganising the canonical chain

What `Reorg` deletes and writes is decided by where the new headers meet the canonical
chain (`HeaderChain.Sound.reorg_eq`). It leaves the canonical hashes of the new head's
ancestors, if no number is the last one (`HeaderChain.Linked.assigns_reorg`), and an
insert does so too.
-/
namespace TurboOctopus.Core

open Lib List Finmap UInt64 HeaderDb

variable {H κ : Type} [DecidableEq κ] {v : HeaderFields H κ} {db : HeaderDb H κ} {g : H}

/-! ## Canonical hashes -/

/-- The write that makes a header canonical. -/
def HeaderFields.link (v : HeaderFields H κ) (h : H) : DbWrite H κ := .canonicalHash (v.hash h) (v.number h)

omit [DecidableEq κ] in
lemma HeaderFields.Contiguous.extension_eq {headers : List H} (hc : v.Contiguous headers) :
    v.extension headers = headers.map v.link := by
  induction headers with
  | nil => rfl
  | cons h rest ih => rw [HeaderFields.extension, hc.hashBefore, ih hc.tail, map_cons, HeaderFields.link]

lemma HeaderDb.canonical_delete (db : HeaderDb H κ) (nums : List UInt64) :
    (db.write v (nums.map .deleteCanonicalHash)).canonical = eraseAll db.canonical nums := by
  induction nums generalizing db with
  | nil => rfl
  | cons n nums ih => exact ih _

variable {first last : H} {links rest : List H} {n : UInt64}

/-- Headers of different numbers are made canonical, and the rest stays. -/
lemma HeaderDb.lookup_canonical_link (hlinks : ∀ a ∈ links, ∀ b ∈ links, v.number a = v.number b → a = b) {k : κ} :
    (db.write v (links.map v.link)).canonical.lookup n = some k ↔ (∃ a ∈ links, v.number a = n ∧ v.hash a = k) ∨
      ((∀ a ∈ links, v.number a ≠ n) ∧ db.canonical.lookup n = some k) := by
  induction links generalizing db with
  | nil => simp [write]
  | cons h rest ih =>
    have hrest : ∀ a ∈ rest, ∀ b ∈ rest, v.number a = v.number b → a = b := fun a ha b hb =>
      hlinks a (mem_cons_of_mem _ ha) b (mem_cons_of_mem _ hb)
    have hput : (db.put v (v.link h)).canonical.lookup n = some k ↔
        (n = v.number h ∧ k = v.hash h) ∨ (n ≠ v.number h ∧ db.canonical.lookup n = some k) := lookup_insert_iff
    rw [map_cons, show db.write v (v.link h :: rest.map v.link) =
      (db.put v (v.link h)).write v (rest.map v.link) from rfl, ih hrest, hput]
    constructor
    · rintro (⟨a, ha, han, hak⟩ | ⟨hnone, ⟨rfl, rfl⟩ | ⟨hne, hk⟩⟩)
      · exact .inl ⟨a, mem_cons_of_mem _ ha, han, hak⟩
      · exact .inl ⟨h, mem_cons_self, rfl, rfl⟩
      · exact .inr ⟨forall_mem_cons.2 ⟨hne.symm, hnone⟩, hk⟩
    · rintro (⟨a, ha, rfl, rfl⟩ | ⟨hnone, hk⟩)
      · by_cases hmem : ∃ b ∈ rest, v.number b = v.number a
        · obtain ⟨b, hb, hbn⟩ := hmem
          cases hlinks b (mem_cons_of_mem _ hb) a ha hbn
          exact .inl ⟨_, hb, rfl, rfl⟩
        · rcases mem_cons.1 ha with rfl | ha
          · refine .inr ⟨fun b hb hbn => hmem ⟨b, hb, hbn⟩, .inl ⟨rfl, rfl⟩⟩
          · exact absurd ⟨a, ha, rfl⟩ hmem
      · refine .inr ⟨fun a ha => hnone a (mem_cons_of_mem _ ha), .inr ⟨?_, hk⟩⟩
        exact (hnone h mem_cons_self).symm

/-! ## Reorg -/

variable {s t u : HeaderChain H κ}

open HeaderChain

namespace HeaderChain

/-- The walk back ends at an ancestor that is canonical, with the headers above it linked. -/
lemma Sound.crossLink_links (hs : s.Sound v) (hr : s.db.Rooted v g)
    (hgenesis : s.db.canonical.lookup 0 = some (v.hash g)) {h : H} (hh : s.db.Stored v h) {fuel : Nat}
    (hfuel : (v.number h).toNat < fuel) (batch : List (DbWrite H κ)) :
    ∃ (links : List H) (x : H) (t : HeaderChain H κ), HeaderChain.crossLink v fuel h (v.hash h) (v.number h) batch s = .ok (batch ++ links.map v.link) t ∧
      s.Reads v t ∧ v.Descends h x ∧ s.db.canonical.lookup (v.number x) = some (v.hash x) ∧
      ∀ a, a ∈ links ↔ v.Descends h a ∧ (v.number x).toNat < (v.number a).toNat := by
  induction fuel generalizing h batch s with
  | zero => omega
  | succ fuel ih =>
    by_cases hcanonical : s.db.canonical.lookup (v.number h) = some (v.hash h)
    · refine ⟨[], h, s, ?_, .refl hs, .refl h, hcanonical, fun a => ?_⟩
      · rw [crossLink_succ, if_pos hcanonical, map_nil, append_nil]
      · constructor
        · intro ha
          cases ha
        · rintro ⟨ha, hlt⟩
          exact absurd ha.number_le (Nat.not_le.2 hlt)
    have hzero : v.number h ≠ 0 := by
      intro hzero
      -- only the genesis block has this number, and it is canonical
      cases hr.descends_genesis hh with
      | refl =>
        rw [hzero] at hcanonical
        exact hcanonical hgenesis
      | parent hp _ =>
        have := v.number_parent h _ hp
        rw [hzero, UInt64.toNat_zero] at this
        omega
    obtain ⟨p, hp, hst⟩ := hr.parent_of_number hh hzero
    have hreads := hs.getHeader (v.parentHash h) (v.number h - 1)
    obtain ⟨t, hget⟩ : ∃ t, s.getHeader (v.parentHash h) (v.number h - 1) = (some p, t) :=
      ⟨_, Prod.ext (hs.getHeader_parent.2 ⟨hp, hst⟩) rfl⟩
    rw [hget] at hreads
    have hnum := v.number_parent h p hp
    have hstep : HeaderChain.crossLink v (fuel + 1) h (v.hash h) (v.number h) batch s =
        HeaderChain.crossLink v fuel p (v.hash p) (v.number p) (batch ++ [v.link h]) t := by
      rw [crossLink_succ, if_neg hcanonical, if_neg hzero, hget, hp, v.number_sub_one hp, HeaderFields.link]
    obtain ⟨links, x, u, heq, hu, hx, hxc, hlinks⟩ :=
      ih hreads.sound (by rw [hreads.db]; exact hr) (by rw [hreads.db]; exact hgenesis) (by rw [hreads.db]; exact hst)
        (by omega) (batch ++ [v.link h])
    refine ⟨h :: links, x, u, ?_, hreads.trans hu, .parent hp hx, by rw [← hreads.db]; exact hxc, fun a => ?_⟩
    · rw [hstep, heq, append_assoc]
      rfl
    · have := hx.number_le
      rw [mem_cons, hlinks]
      exact HeaderFields.Descends.above_iff hp (by omega)

variable (v) in
/-- What `Reorg` deletes and links before the new headers: nothing if they follow the
current header, else the assignments above the last one and the headers back to one
that is canonical. -/
def Unlinks (s : HeaderChain H κ) (first last : H) (dels : List UInt64) (links : List H) : Prop :=
  (v.parentHash first = v.hash s.currentHeader ∧ dels = [] ∧ links = []) ∨
    (dels = s.db.assignedFrom (v.number last + 1) ∧
      ∃ x, v.Descends first x ∧ s.db.canonical.lookup (v.number x) = some (v.hash x) ∧
        ∀ a, a ∈ links ↔ v.Descends first a ∧ (v.number x).toNat < (v.number a).toNat)

/-- What `Reorg` leaves, from a chain that goes down to the genesis block. -/
lemma Sound.reorg_eq (hs : s.Sound v) (hr : s.db.Rooted v g)
    (hgenesis : s.db.canonical.lookup 0 = some (v.hash g))
    (hc : v.Contiguous (first :: rest)) (hlast : (first :: rest).getLast? = some last)
    (hfirst : s.db.Stored v first) :
    ∃ (dels : List UInt64) (links : List H) (t : HeaderChain H κ), s.Unlinks v first last dels links ∧ s.Reads v t ∧
      HeaderChain.reorg v (first :: rest) s = .ok ()
        { t with
          db := s.db.write v (dels.map .deleteCanonicalHash ++ (links ++ first :: rest).map v.link)
          currentHeader := last
          currentHeaderHash := v.hash last } := by
  suffices ∃ dels links t, s.Unlinks v first last dels links ∧ s.Reads v t ∧
      HeaderChain.unlink v first last s = .ok (dels.map .deleteCanonicalHash ++ links.map v.link) t by
    obtain ⟨dels, links, t, hlinks, ht, hunlink⟩ := this
    refine ⟨dels, links, t, hlinks, ht, ?_⟩
    unfold HeaderChain.reorg
    rw [head?_cons, hlast, ← ht.db, map_append, ← append_assoc, ← hc.extension_eq]
    exact run_bind_of_ok hunlink
  by_cases hparent : v.parentHash first = s.currentHeaderHash
  · have hunlink : HeaderChain.unlink v first last s = .ok [] s := by
      unfold HeaderChain.unlink
      rw [if_pos hparent]
    rw [hs.currentHash] at hparent
    exact ⟨[], [], s, .inl ⟨hparent, rfl, rfl⟩, .refl hs, hunlink⟩
  · obtain ⟨links, x, t, heq, ht, hx, hxc, hlinks⟩ := hs.crossLink_links hr hgenesis hfirst (Nat.lt_succ_self _)
      ((s.db.assignedFrom (v.number last + 1)).map DbWrite.deleteCanonicalHash)
    have hunlink : HeaderChain.unlink v first last s =
        .ok ((s.db.assignedFrom (v.number last + 1)).map .deleteCanonicalHash ++ links.map v.link) t := by
      unfold HeaderChain.unlink
      rw [if_neg hparent]
      exact heq
    exact ⟨_, links, t, .inr ⟨rfl, x, hx, hxc, hlinks⟩, ht, hunlink⟩

/-! ## The chain between calls -/

variable (v g) in
/-- The canonical hashes are those of the current header's ancestors, and every header is
stored with its parent. No number is the last one. -/
structure Linked (s : HeaderChain H κ) : Prop where
  sound : s.Sound v
  rooted : s.db.Rooted v g
  assigns : s.db.Assigns v s.currentHeader
  below : ∀ h, s.db.Stored v h → (v.number h).toNat + 1 < 2 ^ 64

lemma Linked.reads (hs : s.Linked v g) (ht : s.Reads v t) : t.Linked v g := by
  refine ⟨ht.sound, ?_, ?_, ?_⟩
  · rw [ht.db]
    exact hs.rooted
  · rw [ht.db, ht.currentHeader]
    exact hs.assigns
  · rw [ht.db]
    exact hs.below

lemma Linked.canonical_genesis (hs : s.Linked v g) : s.db.canonical.lookup 0 = some (v.hash g) :=
  (hs.assigns _ _).2 ⟨g, hs.rooted.descends_genesis hs.sound.current, hs.rooted.zero, rfl⟩

lemma Linked.genesis (hzero : v.number g = 0) : (genesis v g).Linked v g := by
  have hstored : ∀ h, (HeaderChain.genesis v g).db.Stored v h ↔ h = g := by
    intro h
    refine (stored_store_iff ⟨∅, ∅, ∅, ∅⟩ g h).trans (or_iff_left ?_)
    intro hh
    cases hh
  have hdown : ∀ {a}, v.Descends g a → a = g := by
    intro a ha
    cases ha with
    | refl => rfl
    | parent hp _ =>
      have := v.number_parent g _ hp
      rw [hzero, UInt64.toNat_zero] at this
      omega
  refine ⟨.genesis g, ⟨hzero, (hstored g).2 rfl, fun h hh hne => absurd ((hstored h).1 hh) hne⟩, ?_, ?_⟩
  · intro n k
    have hlookup : (HeaderChain.genesis v g).db.canonical.lookup n = some k ↔
        (n = v.number g ∧ k = v.hash g) ∨ (n ≠ v.number g ∧ (∅ : GoMap UInt64 κ).lookup n = some k) :=
      lookup_insert_iff
    rw [hlookup, lookup_empty]
    constructor
    · rintro (⟨rfl, rfl⟩ | ⟨-, hk⟩)
      · exact ⟨g, .refl g, rfl, rfl⟩
      · cases hk
    · rintro ⟨a, ha, rfl, rfl⟩
      rw [hdown ha]
      exact .inl ⟨rfl, rfl⟩
  · intro h hh
    rw [(hstored h).1 hh, hzero]
    decide

/-- Up to the current number every number is assigned. -/
lemma Linked.mem_canonical (hs : s.Linked v g) (hn : n ≤ v.number s.currentHeader) : n ∈ s.db.canonical := by
  obtain ⟨a, ha, han⟩ := hs.rooted.exists_ancestor hs.sound.current hn
  exact mem_of_lookup_eq_some ((hs.assigns n (v.hash a)).2 ⟨a, ha, han, rfl⟩)

lemma Linked.le_of_canonical (hs : s.Linked v g) (hn : n ∈ s.db.canonical) : n ≤ v.number s.currentHeader := by
  obtain ⟨k, hk⟩ := Option.isSome_iff_exists.1 (lookup_isSome.2 hn)
  obtain ⟨a, ha, rfl, -⟩ := (hs.assigns n k).1 hk
  exact le_iff_toNat_le.2 ha.number_le

/-- What `Reorg` deletes is above the last of the headers. -/
lemma Linked.assignedFrom_lt (hs : s.Linked v g) (hlast : (v.number last).toNat + 1 < 2 ^ 64)
    (hn : n ∈ s.db.assignedFrom (v.number last + 1)) : (v.number last).toNat < n.toNat := by
  refine lt_of_mem_takeWhile_succ hlast (fun m hm => ?_) hn
  have hle := le_iff_toNat_le.1 (hs.le_of_canonical (of_decide_eq_true hm))
  have := hs.below _ hs.sound.current
  omega

lemma Linked.mem_assignedFrom (hs : s.Linked v g) (hlast : (v.number last).toNat + 1 < 2 ^ 64)
    (hn : n ∈ s.db.canonical) (hlt : (v.number last).toNat < n.toNat) : n ∈ s.db.assignedFrom (v.number last + 1) := by
  have hcurrent := hs.le_of_canonical hn
  have hbelow : ∀ m, v.number last + 1 ≤ m → m ≤ n → m ∈ s.db.canonical := by
    intro m _ hm
    apply hs.mem_canonical
    rw [le_iff_toNat_le] at hm hcurrent ⊢
    omega
  refine mem_takeWhile_counting (s := s.db.canonical.keys) ?_ ?_ ?_ (le_refl _)
  · rw [le_iff_toNat_le, UInt64.toNat_add, UInt64.toNat_one]
    omega
  · intro m hlow hm
    exact decide_eq_true (hbelow m hlow hm)
  · intro m hlow hm
    exact mem_keys.2 (hbelow m hlow hm)

end HeaderChain

lemma HeaderDb.write_append (db : HeaderDb H κ) (batch batch' : List (DbWrite H κ)) :
    db.write v (batch ++ batch') = (db.write v batch).write v batch' := foldl_append

namespace HeaderChain

lemma Linked.assigns_reorg (hs : s.Linked v g)
    (hc : v.Contiguous (first :: rest)) (hlast : (first :: rest).getLast? = some last) (hst : s.db.Stored v last)
    {dels : List UInt64} (hun : s.Unlinks v first last dels links) :
    (s.db.write v (dels.map .deleteCanonicalHash ++ (links ++ first :: rest).map v.link)).Assigns v last := by
  have hfirst : v.Descends last first := hc.descends hlast mem_cons_self
  have hlinks : ∀ a ∈ links ++ first :: rest, v.Descends last a := by
    intro a ha
    rcases mem_append.1 ha with ha | ha
    · rcases hun with ⟨-, -, rfl⟩ | ⟨-, x, -, -, hx⟩
      · cases ha
      · exact hfirst.trans ((hx a).1 ha).1
    · exact hc.descends hlast ha
  intro n k
  rw [write_append, lookup_canonical_link fun a ha b hb => (hlinks a ha).eq_of_number_eq (hlinks b hb),
    canonical_delete, lookup_eraseAll]
  constructor
  · rintro (⟨a, ha, han, hak⟩ | ⟨hnone, hk⟩)
    · exact ⟨a, hlinks a ha, han, hak⟩
    · split at hk
      · cases hk
      next hdels =>
      obtain ⟨a, ha, rfl, rfl⟩ := (hs.assigns n k).1 hk
      refine ⟨a, ?_, rfl, rfl⟩
      rcases hun with ⟨hparent, -, -⟩ | ⟨rfl, x, hx, hxc, hxl⟩
      · exact hfirst.trans (.parent hparent.symm ha)
      · obtain ⟨y, hy, hyn, hyk⟩ := (hs.assigns _ _).1 hxc
        cases v.hash_inj y x hyk
        by_cases hle : (v.number a).toNat ≤ (v.number x).toNat
        · exact hfirst.trans (hx.trans (hy.of_number_le ha hle))
        -- above the cross link the number is one of the new chain's, or was deleted
        exfalso
        by_cases hle' : v.number a ≤ v.number last
        · obtain ⟨b, hb, hbn⟩ := hs.rooted.exists_ancestor hst hle'
          rcases hc.mem_or_descends (mem_of_getLast? hlast) hb with hmem | ⟨p, hp, hpb⟩
          · exact hnone b (mem_append_right _ hmem) hbn
          · refine hnone b (mem_append_left _ ((hxl b).2 ⟨.parent hp hpb, ?_⟩)) hbn
            rw [hbn]
            omega
        · refine hdels (hs.mem_assignedFrom (hs.below _ hst) (mem_of_lookup_eq_some hk) ?_)
          rw [le_iff_toNat_le] at hle'
          omega
  · rintro ⟨a, ha, rfl, rfl⟩
    by_cases hmem : ∃ b ∈ links ++ first :: rest, v.number b = v.number a
    · obtain ⟨b, hb, hbn⟩ := hmem
      cases (hlinks b hb).eq_of_number_eq ha hbn
      exact .inl ⟨_, hb, rfl, rfl⟩
    · have hnone : ∀ b ∈ links ++ first :: rest, v.number b ≠ v.number a := fun b hb hbn => hmem ⟨b, hb, hbn⟩
      refine .inr ⟨hnone, ?_⟩
      rcases hc.mem_or_descends (mem_of_getLast? hlast) ha with hmem | ⟨p, hp, hpa⟩
      · exact absurd rfl (hnone a (mem_append_right _ hmem))
      rcases hun with ⟨hparent, rfl, -⟩ | ⟨rfl, x, hx, hxc, hxl⟩
      · cases v.hash_inj p _ (hp.trans hparent)
        rw [if_neg (not_mem_nil), hs.assigns]
        exact ⟨a, hpa, rfl, rfl⟩
      · have hle : (v.number a).toNat ≤ (v.number x).toNat := by
          by_contra hnot
          exact hnone a (mem_append_left _ ((hxl a).2 ⟨.parent hp hpa, by omega⟩)) rfl
        obtain ⟨y, hy, hyn, hyk⟩ := (hs.assigns _ _).1 hxc
        cases v.hash_inj y x hyk
        rw [if_neg, hs.assigns]
        · exact ⟨a, hy.trans (hx.of_number_le (.parent hp hpa) hle), rfl, rfl⟩
        · intro hdel
          have := hs.assignedFrom_lt (hs.below _ hst) hdel
          have := ha.number_le
          omega

lemma Linked.rehead (hs : s.Linked v g) (hlast : s.db.Stored v last)
    {batch : List (DbWrite H κ)} (hb : ∀ w ∈ batch, w.IsCanonical) (hassigns : (s.db.write v batch).Assigns v last) :
    { s with db := s.db.write v batch, currentHeader := last, currentHeaderHash := v.hash last }.Linked v g := by
  have hheaders := (write_canonical (v := v) hb s.db).1
  have hstored : ∀ h, (s.db.write v batch).Stored v h ↔ s.db.Stored v h := by
    intro h
    rw [HeaderDb.Stored, hheaders]
    rfl
  refine ⟨hs.sound.rehead hlast hb, ⟨hs.rooted.zero, (hstored g).2 hs.rooted.genesis, ?_⟩, hassigns, ?_⟩
  · intro h hh hne
    obtain ⟨p, hp, hst⟩ := hs.rooted.parent h ((hstored h).1 hh) hne
    exact ⟨p, hp, (hstored p).2 hst⟩
  · intro h hh
    exact hs.below h ((hstored h).1 hh)

lemma Linked.reorg (hs : s.Linked v g) (hc : v.Contiguous (first :: rest))
    (hlast : (first :: rest).getLast? = some last) (hst : ∀ h ∈ first :: rest, s.db.Stored v h) :
    ∃ u, reorg v (first :: rest) s = .ok () u ∧ u.Linked v g ∧ u.db.headers = s.db.headers ∧ u.currentHeader =
      last := by
  have hstored := hst last (mem_of_getLast? hlast)
  obtain ⟨dels, links, t, hun, ht, heq⟩ :=
    hs.sound.reorg_eq hs.rooted hs.canonical_genesis hc hlast (hst first mem_cons_self)
  have hbatch : ∀ w ∈ dels.map DbWrite.deleteCanonicalHash ++ (links ++ first :: rest).map v.link, w.IsCanonical :=
    forall_mem_append.2 ⟨forall_mem_map.2 fun _ _ => trivial, forall_mem_map.2 fun _ _ => trivial⟩
  have hassigns := hs.assigns_reorg hc hlast hstored hun
  refine ⟨_, heq, ?_, (write_canonical hbatch s.db).1, rfl⟩
  rw [← ht.db] at hassigns hstored ⊢
  exact (hs.reads ht).rehead hstored hbatch hassigns

/-! ## Inserting -/

/-- The written headers have their parents too. -/
lemma Sound.rooted_written (hs : s.Sound v) (hr : s.db.Rooted v g)
    (hc : v.Contiguous (first :: rest)) (hparent : ∃ p, v.hash p = v.parentHash first ∧ s.db.Stored v p) :
    (s.written v (s.fresh v (first :: rest))).db.Rooted v g := by
  obtain ⟨-, -, hstored, -⟩ := hs.db.storeAll (s.fresh v (first :: rest))
  refine ⟨hr.zero, (hstored g).2 (.inr hr.genesis), ?_⟩
  intro h hh hne
  rcases (hstored h).1 hh with hnew | hold
  · rcases hc.parent_mem ((dropWhile_suffix _).subset hnew) with rfl | ⟨q, hq, hlink⟩
    · obtain ⟨p, hp, hst⟩ := hparent
      exact ⟨p, hp, (hstored p).2 (.inr hst)⟩
    · exact ⟨q, hlink, hs.stored_written hq⟩
  · obtain ⟨p, hp, hst⟩ := hr.parent h hold hne
    exact ⟨p, hp, (hstored p).2 (.inr hst)⟩

/-- An insert that knows the parent and is not interrupted stores the headers, and then
decides about the head. -/
lemma Linked.insert_eq (hs : s.Linked v g)
    (hc : v.Contiguous (first :: rest)) (hlast : (first :: rest).getLast? = some last)
    (hparent : ∃ p, v.hash p = v.parentHash first ∧ s.db.Stored v p) (forker : ForkChoice H) :
    ∃ (w : HeaderChain H κ) (status : WriteStatus), w.Sound v ∧ w.db.Rooted v g ∧
      (∀ h, w.db.Stored v h ↔ h ∈ first :: rest ∨ s.db.Stored v h) ∧
      w.db.canonical = s.db.canonical ∧ w.currentHeader = s.currentHeader ∧
      insertHeaderChain v (first :: rest) forker false false s =
        if forker.prefers v (v.total (v.hash s.currentHeader)) (v.total (v.hash last)) s.currentHeader last = true then
          if s.db.canonical.lookup (v.number last) = some (v.hash last) ∧ v.number last ≤ v.number s.currentHeader then
            .ok .nonStatTy w
          else (HeaderChain.reorg v (first :: rest) >>= fun _ => pure .canonStatTy) w
        else .ok status w := by
  obtain ⟨p, hp, hst⟩ := hparent
  have htd : (s.getTd (v.parentHash first) (v.number first - 1)).1 = some (v.total (v.hash p)) := by
    rw [← hp, v.number_sub_one hp, hs.sound.getTd_eq]
    exact hs.sound.db.td_of_stored p hst
  obtain ⟨t, ht, heq⟩ := hs.sound.writeHeaders_eq hc htd
  have hsound := ht.sound.written (hc.fresh (s := t))
  have hrooted := ht.sound.rooted_written (hs.reads ht).rooted hc ⟨p, hp, by rw [ht.db]; exact hst⟩
  obtain ⟨-, -, hstored, hcanonical⟩ := ht.sound.db.storeAll (t.fresh v (first :: rest))
  have hmem : ∀ h, (t.written v (t.fresh v (first :: rest))).db.Stored v h ↔ h ∈ first :: rest ∨ s.db.Stored v h := by
    intro h
    rw [← ht.db]
    constructor
    · intro hh
      exact ((hstored h).1 hh).imp_left fun hnew => (dropWhile_suffix _).subset hnew
    · rintro (hnew | hold)
      · exact ht.sound.stored_written hnew
      · exact (hstored h).2 (.inr hold)
  obtain ⟨w, hw, hset⟩ := hsound.setHead_eq hlast ((hmem last).2 (.inl (mem_of_getLast? hlast))) forker
    (t.fresh v (first :: rest)).length
  have hcanonical' : (t.written v (t.fresh v (first :: rest))).db.canonical = s.db.canonical := by
    rw [← ht.db]
    exact hcanonical
  have hcurrent : (t.written v (t.fresh v (first :: rest))).currentHeader = s.currentHeader := ht.currentHeader
  rw [hcanonical', hcurrent] at hset
  refine ⟨w, _, hw.sound, ?_, ?_, ?_, hw.currentHeader.trans hcurrent, (run_bind_of_ok (heq false)).trans hset⟩
  · rw [hw.db]
    exact hrooted
  · rw [hw.db]
    exact hmem
  · rw [hw.db, hcanonical']

lemma Linked.insert (hs : s.Linked v g) (hc : v.Contiguous (first :: rest))
    (hlast : (first :: rest).getLast? = some last) (hparent : ∃ p, v.hash p = v.parentHash first ∧ s.db.Stored v p)
    (hbelow : ∀ h ∈ first :: rest, (v.number h).toNat + 1 < 2 ^ 64) (forker : ForkChoice H) :
    ∃ status u, insertHeaderChain v (first :: rest) forker false false s = .ok status u ∧ u.Linked v g ∧
      (∀ h ∈ first :: rest, u.db.Stored v h) ∧ u.currentHeader =
      if forker.prefers v (v.total (v.hash s.currentHeader)) (v.total (v.hash last)) s.currentHeader last =
      true then if s.db.canonical.lookup (v.number last) = some (v.hash last) ∧
      v.number last ≤ v.number s.currentHeader then s.currentHeader else last else s.currentHeader := by
  obtain ⟨w, status, hsound, hrooted, hstored, hcanonical, hcurrent, hrun⟩ := hs.insert_eq hc hlast hparent forker
  have hmem : ∀ h ∈ first :: rest, w.db.Stored v h := fun h hh => (hstored h).2 (.inl hh)
  have hw : w.Linked v g := by
    refine ⟨hsound, hrooted, ?_, ?_⟩
    · intro n k
      rw [hcanonical, hcurrent]
      exact hs.assigns n k
    · intro h hh
      exact ((hstored h).1 hh).elim (hbelow h) (hs.below h)
  rw [hrun]
  split
  · split
    · exact ⟨_, w, rfl, hw, hmem, hcurrent⟩
    · obtain ⟨u, hreorg, hu, hheaders, hhead⟩ := hw.reorg hc hlast hmem
      refine ⟨_, u, run_bind_of_ok hreorg, hu, fun h hh => ?_, hhead⟩
      rw [HeaderDb.Stored, hheaders]
      exact hmem h hh
  · exact ⟨_, w, rfl, hw, hmem, hcurrent⟩

end HeaderChain

end TurboOctopus.Core
