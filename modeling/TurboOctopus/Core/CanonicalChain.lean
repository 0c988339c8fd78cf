import TurboOctopus.Core.Reorg
import TurboOctopus.Core.SetHead
/-!
# The canonical chain

Inserting headers and rewinding the head keep the canonical hashes those of the current
header and its ancestors (`canonical_chain`). A reorg deletes the assignments above the
new head first, and counts there in `uint64`: with a head at the last number it starts
again at the genesis block (`last_number_deletes_genesis`).
-/
namespace TurboOctopus.Core

open Lib List UInt64 HeaderDb HeaderChain

variable {H κ : Type} {v : HeaderFields H κ}

/-! ## Rewinding -/

section
variable [LinearOrder κ] {db : HeaderDb H κ} {g : H} {s t u : HeaderChain H κ}

lemma HeaderDb.clears_append (db : HeaderDb H κ) (nums nums' : List UInt64) :
    db.clears (nums ++ nums') = db.clears nums ++ db.clears nums' := flatMap_append

lemma HeaderDb.flatMap_deletions (hdr : H) {nums : List UInt64} (hnums : ∀ n ∈ nums, db.readAllHashes n ≠ []) :
    (nums.flatMap fun n => deletions (db.hashesAt v hdr n) n) = db.clears nums := by
  apply congrArg List.flatten
  apply map_congr_left
  intro n hn
  rw [hashesAt, if_neg (hnums n hn)]

lemma HeaderDb.readAllHashes_ne_nil {h : H} (hh : db.Stored v h) : db.readAllHashes (v.number h) ≠ [] :=
  ne_nil_of_mem (mem_readAllHashes.2 (Finmap.mem_of_lookup_eq_some hh))

lemma HeaderDb.readAllHashes_of_levelsFrom {start n : UInt64} (hn : n ∈ db.levelsFrom start) :
    db.readAllHashes n ≠ [] := by
  have htest := mem_takeWhile_imp hn
  simpa using htest

lemma HeaderChain.rewind_succ (updateFn : Option (Nat → H → UInt64 × Bool)) (fuel : Nat) (r : Rewind κ)
    (s : HeaderChain H κ) :
    ∃ head, rewind v g updateFn (fuel + 1) r s =
      if v.number s.currentHeader ≤ r.head then .ok r s
      else
        rewind v g updateFn fuel
          { head := head
            origin := false
            calls := r.calls + 1
            batch := r.batch ++
              ((if r.origin then (s.db.levelsFrom (v.number s.currentHeader + 1)).reverse else []) ++
                [v.number s.currentHeader]).flatMap fun n => deletions (s.db.hashesAt v s.currentHeader n) n }
          { (s.getHeader (v.parentHash s.currentHeader) (v.number s.currentHeader - 1)).2 with
            currentHeader :=
              ((s.getHeader (v.parentHash s.currentHeader) (v.number s.currentHeader - 1)).1).getD g
            currentHeaderHash :=
              v.hash (((s.getHeader (v.parentHash s.currentHeader) (v.number s.currentHeader - 1)).1).getD g) } :=
  ⟨_, rfl⟩

/-- The loop goes down to an ancestor and collects the levels above it. -/
lemma HeaderChain.Sound.rewind (hs : s.Sound v) (hr : s.db.Rooted v g)
    (updateFn : Option (Nat → H → UInt64 × Bool)) {fuel : Nat} (hfuel : (v.number s.currentHeader).toNat < fuel)
    (r : Rewind κ) :
    ∃ r' t nums, rewind v g updateFn fuel r s = .ok r' t ∧ t.Sound v ∧ t.db = s.db ∧
      r'.batch = r.batch ++ s.db.clears nums ∧ v.Descends s.currentHeader t.currentHeader ∧
      ((nums = [] ∧ t.currentHeader = s.currentHeader) ∨
        ((v.number t.currentHeader).toNat < (v.number s.currentHeader).toNat ∧ ∀ n, n ∈ nums ↔
          ((v.number t.currentHeader).toNat < n.toNat ∧ n ≤ v.number s.currentHeader) ∨
            (r.origin = true ∧ n ∈ s.db.levelsFrom (v.number s.currentHeader + 1)))) := by
  induction fuel generalizing r s with
  | zero => omega
  | succ fuel ih =>
    obtain ⟨head, hstep⟩ := rewind_succ (v := v) (g := g) updateFn fuel r s
    rw [hstep]
    by_cases hle : v.number s.currentHeader ≤ r.head
    · rw [if_pos hle]
      exact ⟨r, s, [], rfl, hs, rfl, (append_nil _).symm, .refl _, .inl ⟨rfl, rfl⟩⟩
    have hzero : v.number s.currentHeader ≠ 0 := by
      intro hzero
      rw [hzero] at hle
      exact hle UInt64.zero_le
    obtain ⟨p, hp, hst⟩ := hr.parent_of_number hs.current hzero
    have hnum := v.number_parent _ p hp
    have hget := hs.getHeader_parent.2 ⟨hp, hst⟩
    have hreads := hs.getHeader (v.parentHash s.currentHeader) (v.number s.currentHeader - 1)
    have hlevels : ∀ n ∈ (if r.origin then (s.db.levelsFrom (v.number s.currentHeader + 1)).reverse else []) ++
        [v.number s.currentHeader], s.db.readAllHashes n ≠ [] := by
      refine forall_mem_append.2 ⟨?_, forall_mem_singleton.2 (readAllHashes_ne_nil hs.current)⟩
      split
      · exact fun n hn => readAllHashes_of_levelsFrom (mem_reverse.1 hn)
      · nofun
    rw [if_neg hle, hget, Option.getD_some, flatMap_deletions _ hlevels]
    -- the same chain, one header down
    have hs' : { (s.getHeader (v.parentHash s.currentHeader) (v.number s.currentHeader - 1)).2 with
        currentHeader := p, currentHeaderHash := v.hash p }.Sound v :=
      ⟨hreads.sound.db, hreads.sound.header, hreads.sound.td, hreads.sound.number, hst, rfl⟩
    obtain ⟨r', t, nums, heq, ht, hdb, hbatch, hdesc, hnums⟩ := ih hs' hr (by simpa using (by omega)) _
    refine ⟨r', t, ((if r.origin then (s.db.levelsFrom (v.number s.currentHeader + 1)).reverse else []) ++
      [v.number s.currentHeader]) ++ nums, heq, ht, hdb, ?_, .parent hp hdesc, .inr ?_⟩
    · refine hbatch.trans ?_
      rw [s.db.clears_append _ nums, ← append_assoc]
      rfl
    · have hdown := hdesc.number_le
      dsimp only at hdown hnums
      refine ⟨by omega, fun n => ?_⟩
      have hcase : n ∈ nums ↔ (v.number t.currentHeader).toNat < n.toNat ∧ n ≤ v.number p := by
        rcases hnums with ⟨rfl, heq⟩ | ⟨-, hmem⟩
        · rw [heq, le_iff_toNat_le]
          simp
        · simpa using hmem n
      rw [mem_append, mem_append, hcase, mem_singleton, le_iff_toNat_le, le_iff_toNat_le, ← UInt64.toNat_inj]
      constructor
      · rintro ((hlevel | heq) | hrest)
        · split at hlevel
          next horigin => exact .inr ⟨horigin, mem_reverse.1 hlevel⟩
          next => cases hlevel
        · exact .inl ⟨by omega, by omega⟩
        · exact .inl ⟨hrest.1, by omega⟩
      · rintro (⟨hlow, hhigh⟩ | ⟨horigin, hlevel⟩)
        · by_cases heq : n.toNat = (v.number s.currentHeader).toNat
          · exact .inl (.inr heq)
          · exact .inr ⟨hlow, by omega⟩
        · rw [if_pos horigin]
          exact .inl (.inl (mem_reverse.2 hlevel))

lemma HeaderDb.Sound.exists_of_mem_readAllHashes (hdb : db.Sound v) {n : UInt64} (hn : db.readAllHashes n ≠ []) :
    ∃ h, db.Stored v h ∧ v.number h = n := by
  obtain ⟨k, hk⟩ := exists_mem_of_ne_nil _ hn
  obtain ⟨h, hh⟩ := Option.isSome_iff_exists.1 (Finmap.lookup_isSome.2 (mem_readAllHashes.1 hk))
  obtain ⟨hnum, -, hst⟩ := hdb.stored_of_lookup hh
  exact ⟨h, hst, hnum⟩

namespace HeaderChain.Linked

lemma mem_levelsFrom (hs : s.Linked v g) {h : H} (hh : s.db.Stored v h)
    (hlt : (v.number s.currentHeader).toNat < (v.number h).toNat) :
    v.number h ∈ s.db.levelsFrom (v.number s.currentHeader + 1) := by
  have hcurrent := hs.below _ hs.sound.current
  have hlevel : ∀ n ≤ v.number h, ∃ a, s.db.Stored v a ∧ v.number a = n := by
    intro n hn
    obtain ⟨a, ha, han⟩ := hs.rooted.exists_ancestor hh hn
    exact ⟨a, hs.rooted.stored_of_descends ha hh, han⟩
  refine mem_takeWhile_counting (s := s.db.headers.keys.image Prod.fst) ?_ ?_ ?_ Finset.card_image_le
  · rw [le_iff_toNat_le, UInt64.toNat_add, UInt64.toNat_one]
    omega
  · rintro n - hn
    obtain ⟨a, ha, rfl⟩ := hlevel n hn
    simpa using readAllHashes_ne_nil ha
  · rintro n - hn
    obtain ⟨a, ha, rfl⟩ := hlevel n hn
    exact Finset.mem_image.2 ⟨_, mem_keys_of_lookup ha, rfl⟩

lemma levelsFrom_lt (hs : s.Linked v g) {n : UInt64}
    (hn : n ∈ s.db.levelsFrom (v.number s.currentHeader + 1)) : (v.number s.currentHeader).toNat < n.toNat := by
  refine lt_of_mem_takeWhile_succ (hs.below _ hs.sound.current) (fun m hm => ?_) hn
  obtain ⟨h, hh, rfl⟩ := hs.sound.db.exists_of_mem_readAllHashes (of_decide_eq_true hm)
  exact hs.below h hh

/-- A chain that is cut above one of its ancestors is linked. -/
lemma cut (hs : s.Linked v g) {a : H} (ha : v.Descends s.currentHeader a) {nums : List UInt64}
    (hnums : ∀ h, s.db.Stored v h → (v.number h ∉ nums ↔ (v.number h).toNat ≤ (v.number a).toNat)) :
    HeaderChain.Linked v g ⟨s.db.deleteAll (s.db.clears nums), a, v.hash a, .empty, .empty, .empty⟩ := by
  have hsa : s.db.Stored v a := hs.rooted.stored_of_descends ha hs.sound.current
  have hkeep : ∀ h, (s.db.deleteAll (s.db.clears nums)).Stored v h ↔
      s.db.Stored v h ∧ (v.number h).toNat ≤ (v.number a).toNat := by
    intro h
    rw [stored_clears, and_comm]
    exact and_congr_right (hnums h)
  refine ⟨⟨hs.sound.db.clears nums, .empty, .empty, .empty, (hkeep a).2 ⟨hsa, le_refl _⟩, rfl⟩,
    ⟨hs.rooted.zero, (hkeep g).2 ⟨hs.rooted.genesis, ?_⟩, ?_⟩, ?_, ?_⟩
  · rw [hs.rooted.zero, UInt64.toNat_zero]
    exact Nat.zero_le _
  · intro h hh hne
    obtain ⟨hst, hle⟩ := (hkeep h).1 hh
    obtain ⟨p, hp, hpst⟩ := hs.rooted.parent h hst hne
    have := v.number_parent h p hp
    exact ⟨p, hp, (hkeep p).2 ⟨hpst, by omega⟩⟩
  · intro n k
    rw [lookup_canonical_clears, hs.assigns]
    constructor
    · rintro ⟨hn, b, hb, rfl, rfl⟩
      have hle := (hnums b (hs.rooted.stored_of_descends hb hs.sound.current)).1 hn
      exact ⟨b, ha.of_number_le hb hle, rfl, rfl⟩
    · rintro ⟨b, hb, rfl, rfl⟩
      have hbs := hs.rooted.stored_of_descends hb hsa
      exact ⟨(hnums b hbs).2 hb.number_le, b, ha.trans hb, rfl, rfl⟩
  · intro h hh
    exact hs.below h ((hkeep h).1 hh).1

lemma setHeadTo (hs : s.Linked v g) (head : UInt64) (updateFn : Option (Nat → H → UInt64 × Bool)) :
    ∃ u, setHeadTo v g head updateFn s = .ok () u ∧ u.Linked v g := by
  obtain ⟨r, t, nums, heq, ht, hdb, hbatch, hdesc, hnums⟩ :=
    hs.sound.rewind hs.rooted updateFn (Nat.lt_succ_self _) ⟨head, true, 0, []⟩
  refine ⟨_, run_bind_of_ok heq, ?_⟩
  have hbatch' : r.batch = s.db.clears nums := hbatch
  dsimp only
  rw [hdb, hbatch', ht.currentHash]
  rcases hnums with ⟨rfl, hcur⟩ | ⟨hlt, hmem⟩
  · -- nothing is above the new head
    have hs' := hs.sound
    rw [hcur]
    exact ⟨⟨hs'.db, .empty, .empty, .empty, hs'.current, rfl⟩, hs.rooted, hs.assigns, hs.below⟩
  · apply hs.cut hdesc
    intro h hh
    rw [hmem, le_iff_toNat_le]
    constructor
    · intro hnot
      by_contra hgt
      apply hnot
      by_cases hle : (v.number h).toNat ≤ (v.number s.currentHeader).toNat
      · exact .inl ⟨by omega, hle⟩
      · exact .inr ⟨rfl, hs.mem_levelsFrom hh (by omega)⟩
    · rintro hle (⟨hgt, -⟩ | ⟨-, hlevel⟩)
      · omega
      · have := hs.levelsFrom_lt hlevel
        omega

end HeaderChain.Linked

/-! ## Whole runs -/

inductive HeaderCall (H : Type)
  | insert (i : HeaderInsert H)
  | setHead (head : UInt64) (updateFn : Option (Nat → H → UInt64 × Bool))

variable (v g) in
/-- A call that succeeds. The headers of an insert are contiguous and their parent is known. -/
def HeaderChain.Calls (s : HeaderChain H κ) : HeaderCall H → HeaderChain H κ → Prop
  | .insert i, t =>
    v.Contiguous i.chain ∧ (∀ first ∈ i.chain.head?, ∃ p, v.hash p = v.parentHash first ∧ s.db.Stored v p) ∧
      ∃ status, HeaderChain.insertHeaderChain v i.chain i.forker i.before i.during s = .ok status t
  | .setHead head updateFn, t => HeaderChain.setHeadTo v g head updateFn s = .ok () t

/-- No header of the call has the last number. -/
def HeaderCall.Below (v : HeaderFields H κ) : HeaderCall H → Prop
  | .insert i => ∀ h ∈ i.chain, (v.number h).toNat + 1 < 2 ^ 64
  | .setHead _ _ => True

lemma HeaderChain.Linked.call (hs : s.Linked v g) {c : HeaderCall H} (hbelow : c.Below v)
    (hcall : s.Calls v g c t) : t.Linked v g := by
  cases c with
  | insert i =>
    obtain ⟨chain, forker, before, during⟩ := i
    obtain ⟨hc, hparent, status, heq⟩ := hcall
    cases before with
    | true => cases heq
    | false =>
      cases chain with
      | nil => cases heq
      | cons first rest =>
        obtain ⟨last, hlast⟩ : ∃ last, (first :: rest).getLast? = some last := ⟨_, getLast?_cons⟩
        obtain ⟨p, hp, hst⟩ := hparent first rfl
        cases during with
        | true =>
          have htd : (s.getTd (v.parentHash first) (v.number first - 1)).1 = some (v.total (v.hash p)) := by
            rw [← hp, v.number_sub_one hp, hs.sound.getTd_eq]
            exact hs.sound.db.td_of_stored p hst
          obtain ⟨_, _, hrun⟩ := hs.sound.insert_interrupted hc htd forker
          cases hrun.symm.trans heq
        | false =>
          obtain ⟨_, u, hrun, hu, -, -⟩ := hs.insert hc hlast ⟨p, hp, hst⟩ hbelow forker
          cases hrun.symm.trans heq
          exact hu
  | setHead head updateFn =>
    obtain ⟨u, hrun, hu⟩ := hs.setHeadTo head updateFn
    cases hrun.symm.trans hcall
    exact hu

/-- After any calls that succeed, with no header at the last number, the canonical hashes
are those of the current header's ancestors, one for each number up to its own, and
every total difficulty is the parent's and the header's own. -/
theorem canonical_chain (hzero : v.number g = 0) {calls : List (HeaderCall H)}
    (hrun : Run (fun s c t => HeaderCall.Below v c ∧ HeaderChain.Calls v g s c t) (.genesis v g) calls s) :
    (∀ n ≤ v.number s.currentHeader, ∃ a, v.Descends s.currentHeader a ∧ s.db.Stored v a ∧ v.number a = n ∧
      s.getCanonicalHash n = some (v.hash a)) ∧
    (∀ n, v.number s.currentHeader < n → s.getCanonicalHash n = none) ∧
    ∀ h, s.db.Stored v h → h ≠ g → ∃ p td, v.hash p = v.parentHash h ∧ s.db.Stored v p ∧
      s.db.tds.lookup (v.number p, v.hash p) = some td ∧
      s.db.tds.lookup (v.number h, v.hash h) = some (td + v.difficulty h) := by
  have hs : s.Linked v g := by
    apply hrun.inv (fun s => s.Linked v g) (.genesis hzero)
    rintro s c t hs ⟨hbelow, hcall⟩
    exact hs.call hbelow hcall
  refine ⟨?_, ?_, ?_⟩
  · intro n hn
    obtain ⟨a, ha, han⟩ := hs.rooted.exists_ancestor hs.sound.current hn
    have hst := hs.rooted.stored_of_descends ha hs.sound.current
    exact ⟨a, ha, hst, han, (hs.assigns _ _).2 ⟨a, ha, han, rfl⟩⟩
  · intro n hn
    apply Option.eq_none_iff_forall_ne_some.2
    intro k hk
    exact UInt64.not_lt.2 (hs.le_of_canonical (Finmap.mem_of_lookup_eq_some hk)) hn
  · intro h hh hne
    obtain ⟨p, hp, hst⟩ := hs.rooted.parent h hh hne
    refine ⟨p, v.total (v.hash p), hp, hst, hs.sound.db.td_of_stored p hst, ?_⟩
    rw [hp, ← v.total_hash h]
    exact hs.sound.db.td_of_stored h hh

end

/-- A block is inserted and taken away again. -/
theorem canonical_after_rewind :
    ∃ s : HeaderChain (Fin 2) Nat,
      Run (fun s c t => HeaderCall.Below twoHeaders c ∧ HeaderChain.Calls twoHeaders 0 s c t) (.genesis twoHeaders 0)
        [.insert ⟨[1], byTd, false, false⟩, .setHead 0 none] s ∧
      (∀ n ≤ twoHeaders.number s.currentHeader, ∃ a, twoHeaders.Descends s.currentHeader a ∧
        s.db.Stored twoHeaders a ∧ twoHeaders.number a = n ∧ s.getCanonicalHash n = some (twoHeaders.hash a)) ∧
      (∀ n, twoHeaders.number s.currentHeader < n → s.getCanonicalHash n = none) ∧
      ∀ h, s.db.Stored twoHeaders h → h ≠ 0 → ∃ p td, twoHeaders.hash p = twoHeaders.parentHash h ∧
        s.db.Stored twoHeaders p ∧ s.db.tds.lookup (twoHeaders.number p, twoHeaders.hash p) = some td ∧
        s.db.tds.lookup (twoHeaders.number h, twoHeaders.hash h) = some (td + twoHeaders.difficulty h) := by
  have hstart : (HeaderChain.genesis twoHeaders 0).Linked twoHeaders 0 := .genesis (by decide)
  have hparent : ∃ p, twoHeaders.hash p = twoHeaders.parentHash 1 ∧
      (HeaderChain.genesis twoHeaders 0).db.Stored twoHeaders p := ⟨0, by decide, hstart.rooted.genesis⟩
  have hbelow : ∀ h ∈ [(1 : Fin 2)], (twoHeaders.number h).toNat + 1 < 2 ^ 64 := by decide
  obtain ⟨status, t, hinsert, ht, -, -⟩ := hstart.insert (.singleton 1) rfl hparent hbelow byTd
  obtain ⟨u, hset, -⟩ := ht.setHeadTo 0 none
  have hparents : ∀ first ∈ [(1 : Fin 2)].head?, ∃ p, twoHeaders.hash p = twoHeaders.parentHash first ∧
      (HeaderChain.genesis twoHeaders 0).db.Stored twoHeaders p := by
    rintro first ⟨⟩
    exact hparent
  have hrun : Run (fun s c t => HeaderCall.Below twoHeaders c ∧ HeaderChain.Calls twoHeaders 0 s c t)
      (.genesis twoHeaders 0) [.insert ⟨[1], byTd, false, false⟩, .setHead 0 none] u :=
    .cons ⟨hbelow, .singleton 1, hparents, status, hinsert⟩ (.single ⟨trivial, hset⟩)
  exact ⟨u, hrun, canonical_chain (by decide) hrun⟩

/-! ## The last number -/

/-- A chain with a block of every number, and a block beside the first one with more
difficulty than all but the last of them have together. -/
inductive LongHeader
  | main (number : UInt64)
  | side

def longChain : HeaderFields LongHeader Nat where
  hash
    | .main n => n.toNat + 1
    | .side => 2 ^ 64 + 1
  parentHash
    | .main n => n.toNat
    | .side => 1
  number
    | .main n => n
    | .side => 1
  difficulty
    | .main _ => 2
    | .side => 2 ^ 65 - 3
  total k := if k ≤ 2 ^ 64 then 2 * k else 2 ^ 65 - 1
  hash_inj h h' heq := by
    cases h with
    | main n =>
      cases h' with
      | main m => exact congrArg _ (UInt64.toNat.inj (Nat.succ.inj heq))
      | side =>
        have := n.toNat_lt
        simp only at heq
        omega
    | side =>
      cases h' with
      | main m =>
        have := m.toNat_lt
        simp only at heq
        omega
      | side => rfl
  number_parent h p heq := by
    cases h with
    | main n =>
      cases p with
      | main m => exact heq.symm
      | side =>
        have := n.toNat_lt
        simp only at heq
        omega
    | side =>
      cases p with
      | main m =>
        simp only at heq ⊢
        rw [UInt64.toNat_one]
        omega
      | side => simp only at heq; omega
  total_hash h := by
    cases h with
    | main n =>
      have := n.toNat_lt
      simp only
      rw [if_pos (by omega), if_pos (by omega)]
      omega
    | side => decide

open LongHeader

lemma toNat_toUInt64 {n : Nat} (hn : n < 2 ^ 64) : n.toUInt64.toNat = n := by
  rw [Nat.toUInt64, UInt64.toNat_ofNat', Nat.mod_eq_of_lt hn]

/-- The fork choice by the total difficulty alone. -/
def byLongTd : ForkChoice LongHeader := ⟨none, none, false⟩

/-- With the side block as the head, a main block below the last number is stored beside it. -/
lemma insert_main {s : HeaderChain LongHeader Nat} (hs : s.Linked longChain (.main 0))
    (hcurrent : s.currentHeader = .side) {n : Nat} (hn : n + 2 < 2 ^ 64) (hparent : s.db.Stored longChain (.main n.toUInt64)) :
    ∃ u, HeaderChain.Calls longChain (.main 0) s (.insert ⟨[.main (n + 1).toUInt64], byLongTd, false, false⟩) u ∧
      u.Linked longChain (.main 0) ∧ u.currentHeader = .side ∧ u.db.Stored longChain (.main (n + 1).toUInt64) := by
  have hnat : (n + 1).toUInt64.toNat = n + 1 := toNat_toUInt64 (by omega)
  have hknown : ∃ p, longChain.hash p = longChain.parentHash (.main (n + 1).toUInt64) ∧ s.db.Stored longChain p := by
    refine ⟨_, ?_, hparent⟩
    change n.toUInt64.toNat + 1 = (n + 1).toUInt64.toNat
    rw [hnat, toNat_toUInt64 (by omega)]
  have hbelow : ∀ h ∈ [main (n + 1).toUInt64], (longChain.number h).toNat + 1 < 2 ^ 64 := by
    refine forall_mem_singleton.2 ?_
    change (n + 1).toUInt64.toNat + 1 < 2 ^ 64
    rw [hnat]
    omega
  have htotal : longChain.total (longChain.hash (.main (n + 1).toUInt64)) = 2 * (n + 2) := by
    change (if (n + 1).toUInt64.toNat + 1 ≤ 2 ^ 64 then 2 * ((n + 1).toUInt64.toNat + 1) else _) = _
    rw [hnat, if_pos (by omega)]
  have hprefers : byLongTd.prefers longChain (longChain.total (longChain.hash side)) (2 * (n + 2)) .side
      (.main (n + 1).toUInt64) = false := by
    change (if (false = true) then true else if 2 ^ 65 - 1 < 2 * (n + 2) then true
      else if 2 * (n + 2) = 2 ^ 65 - 1 then _ else false) = false
    rw [if_neg Bool.false_ne_true, if_neg (by omega), if_neg (by omega)]
  have hlast : [main (n + 1).toUInt64].getLast? = some (.main (n + 1).toUInt64) := rfl
  obtain ⟨status, u, heq, hu, hstored, hhead⟩ := hs.insert (.singleton _) hlast hknown hbelow byLongTd
  rw [hcurrent, htotal, hprefers, if_neg Bool.false_ne_true] at hhead
  refine ⟨u, ⟨.singleton _, ?_, status, heq⟩, hu, hhead, hstored _ mem_cons_self⟩
  rintro first ⟨⟩
  exact hknown

/-- The reorg to the last number deletes the canonical hash of the genesis block. -/
lemma reorg_last_number {s : HeaderChain LongHeader Nat} (hs : s.Linked longChain (.main 0))
    (hcurrent : s.currentHeader = .side) (hparent : s.db.Stored longChain (.main 18446744073709551614)) :
    ∃ u, HeaderChain.Calls longChain (.main 0) s (.insert ⟨[.main 18446744073709551615], byLongTd, false, false⟩) u ∧
      u.getCanonicalHash 0 = none := by
  have hknown : ∃ p, longChain.hash p = longChain.parentHash (.main 18446744073709551615) ∧
      s.db.Stored longChain p := ⟨_, by decide, hparent⟩
  have hprefers : byLongTd.prefers longChain (longChain.total (longChain.hash side))
      (longChain.total (longChain.hash (.main 18446744073709551615))) .side (.main 18446744073709551615) = true := by
    decide
  have hlast : [main 18446744073709551615].getLast? = some (.main 18446744073709551615) := rfl
  obtain ⟨w, status, hsound, hrooted, hstored, hcanonical, hwc, heq⟩ :=
    hs.insert_eq (.singleton _) hlast hknown byLongTd
  have hgenesis : w.db.canonical.lookup 0 = some (longChain.hash (.main 0)) := by
    rw [hcanonical]
    exact hs.canonical_genesis
  have hnot : ¬ (s.db.canonical.lookup (longChain.number (.main 18446744073709551615)) =
        some (longChain.hash (.main 18446744073709551615)) ∧
      longChain.number (.main 18446744073709551615) ≤ longChain.number s.currentHeader) := by
    rw [hcurrent]
    rintro ⟨-, hle⟩
    exact absurd hle (by decide)
  obtain ⟨dels, links, t, hun, -, hreorg⟩ := hsound.reorg_eq hrooted hgenesis (.singleton _) hlast
    ((hstored _).2 (.inl mem_cons_self))
  rw [hcurrent, hprefers, if_pos rfl, ← hcurrent, if_neg hnot, run_bind_of_ok hreorg] at heq
  refine ⟨_, ⟨.singleton _, ?_, _, heq⟩, ?_⟩
  · rintro first ⟨⟩
    exact hknown
  -- the numbers above the last one begin with 0, and nothing is linked there
  rcases hun with ⟨hfollows, -, -⟩ | ⟨rfl, x, hx, -, hxl⟩
  · rw [hwc, hcurrent] at hfollows
    exact absurd hfollows (by decide)
  have hdeleted : (0 : UInt64) ∈ w.db.assignedFrom (longChain.number (.main 18446744073709551615) + 1) := by
    refine mem_takeWhile_counting (s := w.db.canonical.keys) (by decide) ?_ ?_ (le_refl _)
    · intro n _ hn
      rw [UInt64.le_zero_iff.1 hn]
      exact decide_eq_true (Finmap.mem_of_lookup_eq_some hgenesis)
    · intro n _ hn
      rw [UInt64.le_zero_iff.1 hn]
      exact mem_keys_of_lookup hgenesis
  have hnumber : ∀ a ∈ links ++ [main 18446744073709551615], longChain.number a ≠ 0 := by
    intro a ha hzero
    rcases mem_append.1 ha with ha | ha
    · have hlt := ((hxl a).1 ha).2
      rw [hzero, UInt64.toNat_zero] at hlt
      omega
    · rw [mem_singleton.1 ha] at hzero
      exact absurd hzero (by decide)
  have hdescends : ∀ a ∈ links ++ [main 18446744073709551615],
      longChain.Descends (.main 18446744073709551615) a := by
    exact forall_mem_append.2 ⟨fun a ha => ((hxl a).1 ha).1, forall_mem_singleton.2 (.refl _)⟩
  apply Option.eq_none_iff_forall_ne_some.2
  intro k hk
  rw [getCanonicalHash, write_append, lookup_canonical_link fun a ha b hb =>
    (hdescends a ha).eq_of_number_eq (hdescends b hb), canonical_delete, lookup_eraseAll,
    if_pos hdeleted] at hk
  rcases hk with ⟨a, ha, hzero, -⟩ | ⟨-, hk⟩
  · exact hnumber a ha hzero
  · cases hk

/-- The side block is the head, and the main blocks up to a number are stored beside it, after as
many inserts of one header each. -/
lemma insert_mains (n : Nat) (hn : n + 1 < 2 ^ 64) :
    ∃ calls s, (∀ c ∈ calls, ∃ h, c = .insert ⟨[h], byLongTd, false, false⟩) ∧
      Run (HeaderChain.Calls longChain (.main 0)) (.genesis longChain (.main 0)) calls s ∧
      s.Linked longChain (.main 0) ∧ s.currentHeader = .side ∧ s.db.Stored longChain (.main n.toUInt64) := by
  induction n with
  | zero =>
    have hstart : (HeaderChain.genesis longChain (.main 0)).Linked longChain (.main 0) := .genesis rfl
    have hknown : ∃ p, longChain.hash p = longChain.parentHash .side ∧
        (HeaderChain.genesis longChain (.main 0)).db.Stored longChain p := ⟨.main 0, by decide, hstart.rooted.genesis⟩
    have hbelow : ∀ h ∈ [LongHeader.side], (longChain.number h).toNat + 1 < 2 ^ 64 := forall_mem_singleton.2 (by decide)
    obtain ⟨status, s, heq, hs, -, hhead⟩ := hstart.insert (.singleton _) rfl hknown hbelow byLongTd
    refine ⟨_, s, forall_mem_singleton.2 ⟨_, rfl⟩, .single ⟨.singleton _, ?_, status, heq⟩, hs, hhead.trans ?_,
      hs.rooted.genesis⟩
    · rintro first ⟨⟩
      exact hknown
    · rw [if_pos (by decide), if_neg]
      · rfl
      · rintro ⟨-, hle⟩
        exact absurd hle (by decide)
  | succ n ih =>
    obtain ⟨calls, s, hcalls, hrun, hs, hside, hst⟩ := ih (by omega)
    obtain ⟨u, hcall, hu, hside', hst'⟩ := insert_main hs hside hn hst
    exact ⟨_, u, forall_mem_append.2 ⟨hcalls, forall_mem_singleton.2 ⟨_, rfl⟩⟩, Run.snoc_iff.2 ⟨s, hrun, hcall⟩, hu, hside',
      hst'⟩

/-- With the last number the main blocks get ahead of the side block: the genesis block is not
canonical then. -/
theorem last_number_deletes_genesis :
    ∃ calls s, (∀ c ∈ calls, ∃ h, c = .insert ⟨[h], byLongTd, false, false⟩) ∧
      Run (HeaderChain.Calls longChain (.main 0)) (.genesis longChain (.main 0)) calls s ∧
      s.getCanonicalHash 0 = none ∧ ¬ ∃ a, s.getCanonicalHash 0 = some (longChain.hash a) := by
  obtain ⟨calls, s, hcalls, hrun, hs, hside, hst⟩ := insert_mains 18446744073709551614 (by decide)
  obtain ⟨u, hcall, hnone⟩ := reorg_last_number hs hside hst
  refine ⟨_, u, forall_mem_append.2 ⟨hcalls, forall_mem_singleton.2 ⟨_, rfl⟩⟩, Run.snoc_iff.2 ⟨s, hrun, hcall⟩, hnone, ?_⟩
  rintro ⟨a, ha⟩
  rw [hnone] at ha
  cases ha

end TurboOctopus.Core
