import TurboOctopus.Core.BlockChain
/-!
# The indexes of the canonical chain

After every block the canonical hashes are those of the head's ancestors, and the lookups
those of their transactions (`BlockChain.Linked`), as long as the head does not go back to a
lower block whose parent is canonical: then the hashes above it stay.
-/
namespace TurboOctopus.Core

open Lib List Finmap UInt64 HeaderDb

variable {B κ τ : Type}

/-! ## Branches -/

section
variable {v : HeaderFields B κ}

/-- The blocks from the first one down to the child of the second. -/
inductive HeaderFields.Path (v : HeaderFields B κ) : B → B → List B → Prop
  | nil (c : B) : v.Path c c []
  | cons {h p c : B} {l : List B} (hp : v.hash p = v.parentHash h) (hl : v.Path p c l) : v.Path h c (h :: l)

namespace HeaderFields.Path

variable {l : List B}

lemma descends {h c : B} (hl : v.Path h c l) : v.Descends h c := by
  induction hl with
  | nil c => exact .refl c
  | cons hp _ ih => exact .parent hp ih

lemma mem_iff {h c : B} (hl : v.Path h c l) {a : B} :
    a ∈ l ↔ v.Descends h a ∧ (v.number c).toNat < (v.number a).toNat := by
  induction hl with
  | nil c =>
    simp only [not_mem_nil, false_iff, not_and, Nat.not_lt]
    exact fun ha => ha.number_le
  | @cons h p c l hp hl ih =>
    have hlt := hl.descends.number_le
    have hnum := v.number_parent h p hp
    rw [mem_cons, ih]
    exact HeaderFields.Descends.above_iff hp (by omega)

/-- The ancestors of a block are those on the path and those of its end. -/
lemma descends_iff {h c : B} (hl : v.Path h c l) {a : B} : v.Descends h a ↔ a ∈ l ∨ v.Descends c a := by
  rw [hl.mem_iff]
  constructor
  · intro ha
    by_cases hlt : (v.number c).toNat < (v.number a).toNat
    · exact .inl ⟨ha, hlt⟩
    · exact .inr (hl.descends.of_number_le ha (Nat.not_lt.1 hlt))
  · rintro (⟨ha, -⟩ | ha)
    · exact ha
    · exact hl.descends.trans ha

lemma append {h c d : B} {l' : List B} (hl : v.Path h c l) (hl' : v.Path c d l') : v.Path h d (l ++ l') := by
  induction hl with
  | nil c => exact hl'
  | cons hp _ ih => exact .cons hp (ih hl')

end HeaderFields.Path
end

variable [DecidableEq κ] {v : BlockFields B κ τ} {g : B} {db : HeaderDb B κ}

variable {block c h o p : B} {fuel : Nat} {l₁ rest : List B} {n : UInt64} {tx : τ}

namespace HeaderDb

lemma Rooted.getBlock_parent (hr : db.Rooted v g) (hh : db.Stored v h) (hn : v.number h ≠ 0) : ∃ p, v.hash p =
      v.parentHash h ∧ db.Stored v p ∧ db.getBlock (v.parentHash h) (v.number h - 1) = some p := by
  obtain ⟨p, hp, hst⟩ := hr.parent_of_number hh hn
  refine ⟨p, hp, hst, ?_⟩
  rw [getBlock, ← hp, v.number_sub_one hp]
  exact hst

lemma Rooted.reduce (hr : db.Rooted v g) (missing : BlockError) {number : UInt64} (hh : db.Stored v h)
    (hle : number ≤ v.number h) (hfuel : (v.number h).toNat < fuel) (chain : List B) :
    ∃ c l, db.reduce v missing number fuel h chain = .ok (c, chain ++ l) ∧ v.Path h c l ∧ v.number c = number := by
  induction fuel generalizing h chain with
  | zero => omega
  | succ fuel ih =>
    rw [reduce]
    by_cases heq : v.number h = number
    · rw [if_pos heq]
      exact ⟨h, [], by rw [append_nil], .nil h, heq⟩
    · rw [le_iff_toNat_le] at hle
      have hne : number.toNat ≠ (v.number h).toNat := fun hc => heq (UInt64.toNat.inj hc.symm)
      have hzero : v.number h ≠ 0 := by
        intro hzero
        rw [hzero, UInt64.toNat_zero] at hle hne
        omega
      obtain ⟨p, hp, hst, hget⟩ := hr.getBlock_parent hh hzero
      have hnum := v.number_parent h p hp
      obtain ⟨c, l, hrun, hpath, hc⟩ := ih hst (le_iff_toNat_le.2 (by omega)) (by omega) (chain ++ [h])
      rw [if_neg heq, hget]
      refine ⟨c, h :: l, ?_, .cons hp hpath, hc⟩
      simp only
      rw [hrun, append_assoc]
      rfl

lemma Rooted.findCommon (hr : db.Rooted v g) {n : B} (ho : db.Stored v o) (hn : db.Stored v n)
    (heq : v.number o = v.number n) (hfuel : (v.number o).toNat < fuel) (oldChain newChain : List B) :
    ∃ c l₁ l₂, db.findCommon v fuel o n oldChain newChain = .ok (oldChain ++ l₁, newChain ++ l₂) ∧ v.Path o c l₁ ∧
      v.Path n c l₂ := by
  induction fuel generalizing o n oldChain newChain with
  | zero => omega
  | succ fuel ih =>
    rw [findCommon]
    by_cases hhash : v.hash o = v.hash n
    · cases v.hash_inj o n hhash
      rw [if_pos hhash]
      exact ⟨o, [], [], by rw [append_nil, append_nil], .nil o, .nil o⟩
    · have hzero : v.number o ≠ 0 := by
        intro hzero
        -- both are the genesis block
        have hgen : ∀ {x}, db.Stored v x → v.number x = 0 → x = g := by
          intro x hx hx0
          exact (hr.descends_genesis hx).eq_of_number_eq (.refl x) (hr.zero.trans hx0.symm) |>.symm
        rw [hgen ho hzero, hgen hn (heq ▸ hzero)] at hhash
        exact hhash rfl
      obtain ⟨p, hp, hst, hget⟩ := hr.getBlock_parent ho hzero
      obtain ⟨q, hq, hst', hget'⟩ := hr.getBlock_parent hn (heq ▸ hzero)
      have hnum := v.number_parent o p hp
      have hnum' := v.number_parent n q hq
      have heq' : v.number p = v.number q := by
        rw [← v.number_sub_one hp, ← v.number_sub_one hq, heq]
      obtain ⟨c, l₁, l₂, hrun, h₁, h₂⟩ := ih hst hst' heq' (by omega) (oldChain ++ [o]) (newChain ++ [n])
      rw [if_neg hhash, hget, hget']
      refine ⟨c, o :: l₁, n :: l₂, ?_, .cons hp h₁, .cons hq h₂⟩
      simp only
      rw [hrun, append_assoc, append_assoc]
      rfl

lemma Rooted.branches (hr : db.Rooted v g) {n : B} (ho : db.Stored v o) (hn : db.Stored v n) :
    ∃ c l₁ l₂, db.branches v o n = .ok (l₁, l₂) ∧ v.Path o c l₁ ∧ v.Path n c l₂ := by
  unfold HeaderDb.branches
  by_cases hlt : v.number n < v.number o
  · rw [if_pos hlt]
    obtain ⟨o', l, hrun, hpath, hnum⟩ := hr.reduce .invalidOldChain ho (UInt64.le_of_lt hlt) (Nat.lt_succ_self _) []
    obtain ⟨c, l₁, l₂, hrun', h₁, h₂⟩ := hr.findCommon (hr.stored_of_descends hpath.descends ho) hn hnum
      (Nat.lt_succ_self _) ([] ++ l) []
    refine ⟨c, l ++ l₁, l₂, ?_, hpath.append h₁, h₂⟩
    rw [hrun, ok_bind]
    exact hrun'
  · rw [if_neg hlt]
    obtain ⟨n', l, hrun, hpath, hnum⟩ := hr.reduce .invalidNewChain hn (UInt64.not_lt.1 hlt) (Nat.lt_succ_self _) []
    obtain ⟨c, l₁, l₂, hrun', h₁, h₂⟩ := hr.findCommon ho (hr.stored_of_descends hpath.descends hn) hnum.symm
      (Nat.lt_succ_self _) [] ([] ++ l)
    refine ⟨c, l₁, l ++ l₂, ?_, h₁, hpath.append h₂⟩
    rw [hrun, ok_bind]
    exact hrun'

/-! ## Writing heads -/

omit [DecidableEq κ] in
/-- Where all numbers up to one have a hash, the loop deletes those above its start. -/
lemma mem_assignedFrom_iff {top p : UInt64} (hfull : ∀ n, n ∈ db.canonical ↔ n ≤ top) (htop : top.toNat + 1 < 2 ^ 64)
    (hp : p.toNat + 1 < 2 ^ 64) : n ∈ db.assignedFrom (p + 1) ↔ p < n ∧ n ≤ top := by
  have hsucc := u64_succ hp
  constructor
  · intro hn
    have hmem := mem_takeWhile_imp hn
    refine ⟨lt_iff_toNat_lt.2 (lt_of_mem_takeWhile_succ hp (fun m hm => ?_) hn), (hfull n).1 (of_decide_eq_true hmem)⟩
    have := le_iff_toNat_le.1 ((hfull m).1 (of_decide_eq_true hm))
    omega
  · rintro ⟨hlt, hle⟩
    rw [lt_iff_toNat_lt] at hlt
    have hbelow : ∀ m, p + 1 ≤ m → m ≤ n → m ∈ db.canonical := by
      intro m _ hm
      rw [hfull]
      exact UInt64.le_trans hm hle
    refine mem_takeWhile_counting (s := db.canonical.keys) ?_ ?_ ?_ (le_refl _)
    · rw [le_iff_toNat_le]
      omega
    · intro m hlow hm
      exact decide_eq_true (hbelow m hlow hm)
    · intro m hlow hm
      exact mem_keys.2 (hbelow m hlow hm)

end HeaderDb

variable [DecidableEq τ] {s t : BlockChain B κ τ}

omit [DecidableEq κ] in
lemma lookup_insertAll (m : GoMap τ UInt64) (txs : List τ) (n : UInt64) (tx : τ) :
    (txs.foldl (fun m t => m.insert t n) m).lookup tx = if tx ∈ txs then some n else m.lookup tx := by
  induction txs generalizing m with
  | nil => simp
  | cons t txs ih =>
    rw [foldl_cons, ih]
    by_cases hmem : tx ∈ txs
    · simp [hmem]
    · by_cases heq : tx = t
      · subst heq
        simp [hmem, lookup_insert]
      · simp [hmem, heq, lookup_insert_of_ne m heq]

open BlockChain

namespace BlockChain

lemma db_writeHeadBlocks (s : BlockChain B κ τ) (bs : List B) :
    (bs.foldl (writeHeadBlock v) s).db = s.db.write v (bs.map v.toHeaderFields.link) := by
  induction bs generalizing s with
  | nil => rfl
  | cons b bs ih => exact ih _

lemma current_writeHeadBlocks (s : BlockChain B κ τ) (bs : List B) (b : B) :
    ((bs ++ [b]).foldl (writeHeadBlock v) s).currentBlock = b := by
  rw [foldl_append]
  rfl

/-- Blocks that share no transactions are indexed, and the rest stays. -/
lemma lookups_writeHeadBlocks (s : BlockChain B κ τ) {bs : List B}
    (honce : ∀ a ∈ bs, ∀ b ∈ bs, ∀ t, t ∈ v.txs a → t ∈ v.txs b → a = b) :
    (bs.foldl (writeHeadBlock v) s).lookups.lookup tx = some n ↔
      (∃ b ∈ bs, tx ∈ v.txs b ∧ v.number b = n) ∨ ((∀ b ∈ bs, tx ∉ v.txs b) ∧ s.lookups.lookup tx = some n) := by
  induction bs generalizing s with
  | nil => simp
  | cons b bs ih =>
    have hrest : ∀ a ∈ bs, ∀ b ∈ bs, ∀ t, t ∈ v.txs a → t ∈ v.txs b → a = b := fun a ha b hb =>
      honce a (mem_cons_of_mem _ ha) b (mem_cons_of_mem _ hb)
    rw [foldl_cons, ih _ hrest, writeHeadBlock, lookup_insertAll]
    by_cases hmem : tx ∈ v.txs b
    · rw [if_pos hmem]
      have hother : ∀ a ∈ bs, tx ∈ v.txs a → a = b := fun a ha hta =>
        honce a (mem_cons_of_mem _ ha) b mem_cons_self tx hta hmem
      constructor
      · rintro (⟨a, ha, hta, rfl⟩ | ⟨-, hn⟩)
        · exact .inl ⟨a, mem_cons_of_mem _ ha, hta, rfl⟩
        · cases hn
          exact .inl ⟨b, mem_cons_self, hmem, rfl⟩
      · rintro (⟨a, ha, hta, rfl⟩ | ⟨hnone, -⟩)
        · by_cases hex : ∃ a ∈ bs, tx ∈ v.txs a
          · obtain ⟨x, hx, htx⟩ := hex
            refine .inl ⟨x, hx, htx, ?_⟩
            rw [hother x hx htx]
            rcases mem_cons.1 ha with rfl | ha
            · rfl
            · rw [hother a ha hta]
          · refine .inr ⟨fun x hx htx => hex ⟨x, hx, htx⟩, ?_⟩
            rcases mem_cons.1 ha with rfl | ha
            · rfl
            · exact absurd ⟨a, ha, hta⟩ hex
        · exact absurd hmem (hnone b mem_cons_self)
    · rw [if_neg hmem]
      simp only [forall_mem_cons, exists_mem_cons_iff, hmem, false_and, false_or, not_false_eq_true, true_and]

/-! ## The chain between calls -/

variable (v g) in
/-- The indexes are those of the current block's ancestors, and every block is stored with its
parent and its total difficulty. No number is the last one. -/
structure Linked (s : BlockChain B κ τ) : Prop where
  sound : s.db.Sound v.toHeaderFields
  rooted : s.db.Rooted v.toHeaderFields g
  tds : ∀ n k td, s.db.tds.lookup (n, k) = some td → ∃ h, v.hash h = k ∧ s.db.Stored v.toHeaderFields h
  current : s.db.Stored v.toHeaderFields s.currentBlock
  below : ∀ h, s.db.Stored v.toHeaderFields h → (v.number h).toNat + 1 < 2 ^ 64
  assigns : s.db.Assigns v.toHeaderFields s.currentBlock
  lookups : ∀ t n, s.lookups.lookup t = some n ↔ ∃ a, v.Descends s.currentBlock a ∧ t ∈ v.txs a ∧ v.number a = n

lemma Linked.mem_canonical_iff (hs : s.Linked v g) : n ∈ s.db.canonical ↔ n ≤ v.number s.currentBlock := by
  constructor
  · intro hn
    obtain ⟨k, hk⟩ := Option.isSome_iff_exists.1 (lookup_isSome.2 hn)
    obtain ⟨a, ha, rfl, -⟩ := (hs.assigns n k).1 hk
    exact le_iff_toNat_le.2 ha.number_le
  · intro hn
    obtain ⟨a, ha, han⟩ := hs.rooted.exists_ancestor hs.current hn
    exact mem_of_lookup_eq_some ((hs.assigns n (v.hash a)).2 ⟨a, ha, han, rfl⟩)

variable (v) in
/-- But for the entries of one block, the indexes are those of its parent's ancestors. -/
structure Ready (s : BlockChain B κ τ) (block p : B) : Prop where
  parent : v.hash p = v.parentHash block
  canonical : ∀ n k, n ≠ v.number block →
    (s.db.canonical.lookup n = some k ↔ ∃ a, v.Descends p a ∧ v.number a = n ∧ v.hash a = k)
  lookups : ∀ t n, t ∉ v.txs block →
    (s.lookups.lookup t = some n ↔ ∃ a, v.Descends p a ∧ t ∈ v.txs a ∧ v.number a = n)

end BlockChain

omit [DecidableEq κ] [DecidableEq τ] in
lemma HeaderFields.descends_child {v : HeaderFields B κ} {a : B} (hp : v.hash p = v.parentHash block) :
    v.Descends block a ↔ a = block ∨ v.Descends p a := by
  constructor
  · intro ha
    cases ha with
    | refl => exact .inl rfl
    | parent hq ha =>
      cases v.hash_inj _ _ (hp.trans hq.symm)
      exact .inr ha
  · rintro (rfl | ha)
    · exact .refl a
    · exact .parent hp ha

lemma BlockChain.Ready.writeHeadBlock (h : s.Ready v block p) : (s.writeHeadBlock v block).db.Assigns v block ∧
      ∀ t n, (s.writeHeadBlock v block).lookups.lookup t = some n ↔ ∃ a, v.Descends block a ∧ t ∈ v.txs a ∧ v.number a =
      n := by
  constructor
  · intro n k
    have hlookup : (s.writeHeadBlock v block).db.canonical.lookup n = some k ↔
        (n = v.number block ∧ k = v.hash block) ∨ (n ≠ v.number block ∧ s.db.canonical.lookup n = some k) :=
      lookup_insert_iff
    rw [hlookup]
    by_cases hn : n = v.number block
    · subst hn
      constructor
      · rintro (⟨-, rfl⟩ | ⟨hne, -⟩)
        · exact ⟨block, .refl block, rfl, rfl⟩
        · exact absurd rfl hne
      · rintro ⟨a, ha, han, rfl⟩
        cases ha.eq_of_number_eq (.refl block) han
        exact .inl ⟨rfl, rfl⟩
    · rw [h.canonical n k hn]
      simp only [HeaderFields.descends_child h.parent]
      constructor
      · rintro (⟨rfl, -⟩ | ⟨-, a, ha, han, hak⟩)
        · exact absurd rfl hn
        · exact ⟨a, .inr ha, han, hak⟩
      · rintro ⟨a, rfl | ha, han, hak⟩
        · exact absurd han.symm hn
        · exact .inr ⟨hn, a, ha, han, hak⟩
  · intro t n
    rw [BlockChain.writeHeadBlock, lookup_insertAll]
    by_cases ht : t ∈ v.txs block
    · rw [if_pos ht]
      constructor
      · rintro ⟨⟩
        exact ⟨block, .refl block, ht, rfl⟩
      · rintro ⟨a, ha, hta, rfl⟩
        rw [v.txs_once block a block t ha (.refl block) hta ht]
    · rw [if_neg ht, h.lookups t n ht]
      simp only [HeaderFields.descends_child h.parent]
      constructor
      · rintro ⟨a, ha, hta, han⟩
        exact ⟨a, .inr ha, hta, han⟩
      · rintro ⟨a, rfl | ha, hta, han⟩
        · exact absurd hta ht
        · exact ⟨a, ha, hta, han⟩

/-! ## Reorg -/

omit [DecidableEq τ] in
lemma lookup_canonical_delete (nums : List UInt64) (n : UInt64) :
    (db.write v (nums.map .deleteCanonicalHash)).canonical.lookup n =
      if n ∈ nums then none else db.canonical.lookup n := by
  rw [canonical_delete, lookup_eraseAll]

/-- The lookups after a reorg: those of the blocks that went are deleted, unless they are in
one that came. -/
lemma BlockChain.Linked.lookups_reorg (hs : s.Linked v g)
    (h₁ : v.Path s.currentBlock c l₁) (h₂ : v.Path p c rest) :
    (eraseAll (rest.reverse.foldl (writeHeadBlock v) s).lookups
      (hashDifference (l₁.flatMap v.txs) (rest.reverse.flatMap v.txs))).lookup tx = some n ↔
      ∃ a, v.Descends p a ∧ tx ∈ v.txs a ∧ v.number a = n := by
  have hrest : ∀ b ∈ rest.reverse, v.Descends p b := fun b hb => (h₂.mem_iff.1 (mem_reverse.1 hb)).1
  have honce : ∀ a ∈ rest.reverse, ∀ b ∈ rest.reverse, ∀ t, t ∈ v.txs a → t ∈ v.txs b → a = b := fun a ha b hb t =>
    v.txs_once p a b t (hrest a ha) (hrest b hb)
  have hdiff : tx ∈ hashDifference (l₁.flatMap v.txs) (rest.reverse.flatMap v.txs) ↔
      (∃ x ∈ l₁, tx ∈ v.txs x) ∧ ∀ b ∈ rest.reverse, tx ∉ v.txs b := by
    simp [hashDifference, mem_flatMap]
  rw [lookup_eraseAll]
  by_cases hdel : tx ∈ hashDifference (l₁.flatMap v.txs) (rest.reverse.flatMap v.txs)
  · rw [if_pos hdel]
    obtain ⟨⟨x, hx, htx⟩, hnone⟩ := hdiff.1 hdel
    simp only [reduceCtorEq, false_iff]
    rintro ⟨a, ha, hta, -⟩
    rcases h₂.descends_iff.1 ha with ha | ha
    · exact hnone a (mem_reverse.2 ha) hta
    · -- it would be twice in the old chain
      have hx' := h₁.mem_iff.1 hx
      cases v.txs_once _ a x tx (h₁.descends.trans ha) hx'.1 hta htx
      exact Nat.not_le.2 hx'.2 ha.number_le
  · rw [if_neg hdel, lookups_writeHeadBlocks s honce, hs.lookups]
    constructor
    · rintro (⟨b, hb, htb, hn⟩ | ⟨hnone, a, ha, hta, hn⟩)
      · exact ⟨b, hrest b hb, htb, hn⟩
      · rcases h₁.descends_iff.1 ha with ha | ha
        · exact absurd (hdiff.2 ⟨⟨a, ha, hta⟩, hnone⟩) hdel
        · exact ⟨a, h₂.descends.trans ha, hta, hn⟩
    · rintro ⟨a, ha, hta, hn⟩
      rcases h₂.descends_iff.1 ha with ha' | ha'
      · exact .inl ⟨a, mem_reverse.2 ha', hta, hn⟩
      · refine .inr ⟨fun b hb htb => ?_, a, h₁.descends.trans ha', hta, hn⟩
        cases v.txs_once p a b tx ha (hrest b hb) hta htb
        exact Nat.not_le.2 (h₂.mem_iff.1 (mem_reverse.1 hb)).2 ha'.number_le

omit [DecidableEq τ] in
/-- The canonical hashes with the blocks of a branch written. -/
lemma HeaderFields.Path.lookup_links (h : v.Path p c rest) (db : HeaderDb B κ) (n : UInt64)
    (k : κ) : (db.write v (rest.reverse.map v.toHeaderFields.link)).canonical.lookup n = some k ↔
      (∃ a ∈ rest.reverse, v.number a = n ∧ v.hash a = k) ∨
        ((∀ a ∈ rest.reverse, v.number a ≠ n) ∧ db.canonical.lookup n = some k) := by
  have hrest : ∀ b ∈ rest.reverse, v.Descends p b := fun b hb => (h.mem_iff.1 (mem_reverse.1 hb)).1
  exact lookup_canonical_link fun a ha b hb => (hrest a ha).eq_of_number_eq (hrest b hb)

namespace BlockChain

/-- With the blocks of a branch written, every number up to the higher one of the two heads has
a hash. -/
lemma Linked.mem_linked_iff (hs : s.Linked v g) (h₁ : v.Path s.currentBlock c l₁) (h₂ : v.Path p c rest)
    (hp : s.db.Stored v p) : n ∈ (s.db.write v (rest.reverse.map v.toHeaderFields.link)).canonical ↔ n ≤ v.number p ∨
      n ≤ v.number s.currentBlock := by
  have hrest : ∀ b ∈ rest.reverse, v.Descends p b := fun b hb => (h₂.mem_iff.1 (mem_reverse.1 hb)).1
  rw [← hs.mem_canonical_iff]
  constructor
  · intro hn
    obtain ⟨k, hk⟩ := Option.isSome_iff_exists.1 (lookup_isSome.2 hn)
    rcases (h₂.lookup_links s.db n k).1 hk with ⟨b, hb, rfl, -⟩ | ⟨-, hk⟩
    · exact .inl (le_iff_toNat_le.2 (hrest b hb).number_le)
    · exact .inr (mem_of_lookup_eq_some hk)
  · intro hor
    by_cases hex : ∃ b ∈ rest.reverse, v.number b = n
    · obtain ⟨b, hb, hbn⟩ := hex
      exact mem_of_lookup_eq_some ((h₂.lookup_links s.db n (v.hash b)).2 (.inl ⟨b, hb, hbn, rfl⟩))
    · have hcanonical : n ∈ s.db.canonical := by
        refine hor.elim (fun hle => ?_) id
        obtain ⟨a, ha, han⟩ := hs.rooted.exists_ancestor hp hle
        rcases h₂.descends_iff.1 ha with hmem | hca
        · exact absurd ⟨a, mem_reverse.2 hmem, han⟩ hex
        · rw [hs.mem_canonical_iff, ← han]
          exact le_iff_toNat_le.2 (h₁.descends.trans hca).number_le
      obtain ⟨k, hk⟩ := Option.isSome_iff_exists.1 (lookup_isSome.2 hcanonical)
      exact mem_of_lookup_eq_some ((h₂.lookup_links s.db n k).2 (.inr ⟨fun b hb hbn => hex ⟨b, hb, hbn⟩, hk⟩))

/-- The canonical hashes after the new chain's blocks but the head were written and those
above its parent were deleted. -/
lemma Linked.canonical_reorg (hs : s.Linked v g)
    (h₁ : v.Path s.currentBlock c l₁) (h₂ : v.Path p c rest) (hp : s.db.Stored v p) {k : κ} :
    ((s.db.write v (rest.reverse.map v.toHeaderFields.link)).write v.toHeaderFields
      (((s.db.write v (rest.reverse.map v.toHeaderFields.link)).assignedFrom (v.number p + 1)).map
        .deleteCanonicalHash)).canonical.lookup n = some k ↔ ∃ a, v.Descends p a ∧ v.number a = n ∧ v.hash a = k := by
  have hrest : ∀ b ∈ rest.reverse, v.Descends p b := fun b hb => (h₂.mem_iff.1 (mem_reverse.1 hb)).1
  obtain ⟨top, htop, hlt⟩ : ∃ top : UInt64, (∀ n, n ≤ v.number p ∨ n ≤ v.number s.currentBlock ↔ n ≤ top) ∧
      top.toNat + 1 < 2 ^ 64 := by
    rcases UInt64.le_total (v.number p) (v.number s.currentBlock) with hle | hle
    · exact ⟨_, fun n => or_iff_right_of_imp fun hn => UInt64.le_trans hn hle, hs.below _ hs.current⟩
    · exact ⟨_, fun n => or_iff_left_of_imp fun hn => UInt64.le_trans hn hle, hs.below p hp⟩
  have hdels := mem_assignedFrom_iff (fun n => (hs.mem_linked_iff h₁ h₂ hp).trans (htop n)) hlt (hs.below p hp)
    (n := n)
  rw [lookup_canonical_delete]
  by_cases hle : n ≤ v.number p
  · rw [if_neg (fun hmem => UInt64.not_lt.2 hle (hdels.1 hmem).1), h₂.lookup_links]
    constructor
    · rintro (⟨b, hb, hbn, hbk⟩ | ⟨hnone, hk⟩)
      · exact ⟨b, hrest b hb, hbn, hbk⟩
      · obtain ⟨a, ha, han, hak⟩ := (hs.assigns n k).1 hk
        obtain ⟨b, hb, hbn⟩ := hs.rooted.exists_ancestor hp hle
        -- the new chain's block of this number is not above the common ancestor
        rcases h₂.descends_iff.1 hb with hmem | hcb
        · exact absurd hbn (hnone b (mem_reverse.2 hmem))
        · cases ha.eq_of_number_eq (h₁.descends.trans hcb) (han.trans hbn.symm)
          exact ⟨a, hb, han, hak⟩
    · rintro ⟨a, ha, han, hak⟩
      rcases h₂.descends_iff.1 ha with hmem | hca
      · exact .inl ⟨a, mem_reverse.2 hmem, han, hak⟩
      · refine .inr ⟨fun b hb hbn => ?_, (hs.assigns n k).2 ⟨a, h₁.descends.trans hca, han, hak⟩⟩
        cases (hrest b hb).eq_of_number_eq ha (hbn.trans han.symm)
        exact Nat.not_le.2 (h₂.mem_iff.1 (mem_reverse.1 hb)).2 hca.number_le
  · have hnone : ¬ ∃ a, v.Descends p a ∧ v.number a = n ∧ v.hash a = k := by
      rintro ⟨a, ha, rfl, -⟩
      exact hle (le_iff_toNat_le.2 ha.number_le)
    rw [iff_false_right hnone]
    split
    · exact Option.some_ne_none k |>.symm
    next hmem =>
    intro hk
    refine hmem (hdels.2 ⟨UInt64.not_le.1 hle, ?_⟩)
    exact (htop n).1 ((hs.mem_linked_iff h₁ h₂ hp).1 (mem_of_lookup_eq_some hk))

variable (v) in
/-- The block is lower than the head, and its parent is canonical. -/
def Strands (s : BlockChain B κ τ) (block : B) : Prop :=
  v.number block < v.number s.currentBlock ∧ s.db.canonical.lookup (v.number block - 1) = some (v.parentHash block)

/-- With no new block but the head, nothing is deleted of the canonical hashes. -/
lemma Linked.delete_none (hs : s.Linked v g) (deletedTxs addedTxs : List τ) :
    ((s.deleteIndexes v deletedTxs addedTxs).db.canonical) = s.db.canonical := by
  have hdels : s.db.assignedFrom (v.number s.currentBlock + 1) = [] := by
    refine eq_nil_iff_forall_not_mem.2 fun n hn => ?_
    have hmem := (mem_assignedFrom_iff (fun _ => hs.mem_canonical_iff) (hs.below _ hs.current)
      (hs.below _ hs.current)).1 hn
    exact UInt64.not_lt.2 hmem.2 hmem.1
  rw [deleteIndexes, hdels]
  rfl

/-- What a reorg does not write. -/
lemma deleteIndexes_frame (s : BlockChain B κ τ) (bs : List B) (deletedTxs addedTxs : List τ) :
    ((bs.foldl (writeHeadBlock v) s).deleteIndexes v deletedTxs addedTxs).db.headers = s.db.headers ∧
    ((bs.foldl (writeHeadBlock v) s).deleteIndexes v deletedTxs addedTxs).db.tds = s.db.tds ∧
    ((bs.foldl (writeHeadBlock v) s).deleteIndexes v deletedTxs addedTxs).db.numbers = s.db.numbers := by
  have hlink : ∀ w ∈ bs.map v.toHeaderFields.link, w.IsCanonical :=
    forall_mem_map.2 fun _ _ => trivial
  have hdel : ∀ nums : List UInt64, ∀ w ∈ (nums.map .deleteCanonicalHash : List (DbWrite B κ)), w.IsCanonical :=
    fun _ => forall_mem_map.2 fun _ _ => trivial
  obtain ⟨h₁, h₂, h₃⟩ := write_canonical (v := v) hlink s.db
  rw [deleteIndexes, db_writeHeadBlocks]
  obtain ⟨h₁', h₂', h₃'⟩ := write_canonical (v := v) (hdel _)
    (s.db.write v (bs.map v.toHeaderFields.link))
  exact ⟨h₁'.trans h₁, h₂'.trans h₂, h₃'.trans h₃⟩

/-- The canonical hashes of the new head's parent are there before its own. -/
lemma Linked.strands_of_descends (hs : s.Linked v g) (hp : v.hash p = v.parentHash block)
    (hdesc : v.Descends s.currentBlock p) (hnot : ¬ s.Strands v block) :
    (v.number s.currentBlock).toNat ≤ (v.number block).toNat := by
  by_contra hlt
  refine hnot ⟨lt_iff_toNat_lt.2 (Nat.not_le.1 hlt), ?_⟩
  rw [hs.assigns]
  exact ⟨p, hdesc, (v.number_sub_one hp).symm, hp⟩

/-- After the reorg the indexes wait for the new head only. -/
lemma Linked.reorg (hs : s.Linked v g) (hb : s.db.Stored v block) (hp : v.hash p = v.parentHash block)
    (hst : s.db.Stored v p) (hnot : ¬ s.Strands v block) : ∃ t, reorg v s.currentBlock block s = .ok () t ∧
      t.Ready v block p ∧ t.db.headers = s.db.headers ∧ t.db.tds = s.db.tds ∧ t.db.numbers = s.db.numbers := by
  obtain ⟨c, l₁, l₂, hrun, h₁, h₂⟩ := hs.rooted.branches hs.current hb
  have hreorg : BlockChain.reorg v s.currentBlock block s = .ok () (((l₂.drop 1).reverse.foldl
      (writeHeadBlock v) s).deleteIndexes v (l₁.flatMap v.txs) ((l₂.drop 1).reverse.flatMap v.txs)) := by
    rw [BlockChain.reorg, hrun]
  refine ⟨_, hreorg, ?_, deleteIndexes_frame s _ _ _⟩
  have hnum := v.number_parent block p hp
  cases h₂ with
  | nil =>
    -- the block is the head already
    have hle := hs.strands_of_descends hp (h₁.descends.trans (.parent hp (.refl p))) hnot
    have hnil : l₁ = [] := by
      refine eq_nil_iff_forall_not_mem.2 fun a ha => ?_
      have := (h₁.mem_iff.1 ha).1.number_le
      have := (h₁.mem_iff.1 ha).2
      omega
    subst hnil
    cases h₁
    refine ⟨hp, fun n k hn => ?_, fun t n ht => ?_⟩
    · show (s.deleteIndexes v _ _).db.canonical.lookup n = some k ↔ _
      rw [hs.delete_none, hs.assigns]
      simp only [HeaderFields.descends_child hp]
      constructor
      · rintro ⟨a, rfl | ha, han, hak⟩
        · exact absurd han.symm hn
        · exact ⟨a, ha, han, hak⟩
      · rintro ⟨a, ha, han, hak⟩
        exact ⟨a, .inr ha, han, hak⟩
    · refine (hs.lookups t n).trans ?_
      simp only [HeaderFields.descends_child hp]
      constructor
      · rintro ⟨a, rfl | ha, hta, han⟩
        · exact absurd hta ht
        · exact ⟨a, ha, hta, han⟩
      · rintro ⟨a, ha, hta, han⟩
        exact ⟨a, .inr ha, hta, han⟩
  | @cons _ q _ rest hq hrest =>
    cases v.hash_inj _ _ (hp.trans hq.symm)
    refine ⟨hp, fun n k hn => ?_, fun t n _ => hs.lookups_reorg h₁ hrest⟩
    cases rest with
    | nil =>
      -- the current block is still the old head
      cases hrest
      have hle := hs.strands_of_descends hp h₁.descends hnot
      show (s.deleteIndexes v _ _).db.canonical.lookup n = some k ↔ _
      rw [hs.delete_none, hs.assigns]
      constructor
      · rintro ⟨a, ha, rfl, hak⟩
        rcases h₁.descends_iff.1 ha with hmem | ha
        · have := (h₁.mem_iff.1 hmem).2
          have := ha.number_le
          exact absurd (UInt64.toNat.inj (by omega)) hn
        · exact ⟨a, ha, rfl, hak⟩
      · rintro ⟨a, ha, han, hak⟩
        exact ⟨a, h₁.descends.trans ha, han, hak⟩
    | cons b rest =>
      obtain rfl : b = p := by
        cases hrest
        rfl
      have hcur : (((b :: rest).reverse).foldl (writeHeadBlock v) s).currentBlock = b := by
        rw [reverse_cons]
        exact current_writeHeadBlocks s _ b
      have hfinal := hs.canonical_reorg h₁ hrest hst (n := n) (k := k)
      rw [← hfinal]
      simp only [drop_succ_cons, drop_zero, deleteIndexes, db_writeHeadBlocks, hcur]

end BlockChain

/-! ## Calls -/

structure BlockWrite (B : Type) where
  block : B
  forker : ForkChoice B
  commits : Bool

variable (v) in
/-- No block has the last number, and none that the fork choice takes strands the chain. -/
structure BlockWrite.Allowed (s : BlockChain B κ τ) (w : BlockWrite B) : Prop where
  below : (v.number w.block).toNat + 1 < 2 ^ 64
  strands : w.forker.prefers v.toHeaderFields (v.total (v.hash s.currentBlock)) (v.total (v.hash w.block)) s.currentBlock
    w.block = true → ¬ s.Strands v w.block

variable (v) in
def BlockWrite.run (s : BlockChain B κ τ) (w : BlockWrite B) : BlockChain B κ τ :=
  stateOf (BlockChain.writeBlockAndSetHead v w.block w.forker w.commits s)

namespace BlockChain.Linked

section
variable (hs : s.Linked v g)
include hs

/-- The block is stored with its total difficulty. -/
lemma store (hp : v.hash p = v.parentHash block) (hst : s.db.Stored v p)
    (hbelow : (v.number block).toNat + 1 < 2 ^ 64) : BlockChain.Linked v g { s with db := s.db.store v block } := by
  have hstored := s.db.stored_store_iff (v := v) block
  refine ⟨hs.sound.store block, ⟨hs.rooted.zero, (hstored g).2 (.inr hs.rooted.genesis), ?_⟩, ?_,
    (hstored _).2 (.inr hs.current), ?_, hs.assigns, hs.lookups⟩
  · intro h hh hne
    rcases (hstored h).1 hh with rfl | hh
    · exact ⟨p, hp, (hstored p).2 (.inr hst)⟩
    · obtain ⟨q, hq, hq'⟩ := hs.rooted.parent h hh hne
      exact ⟨q, hq, (hstored q).2 (.inr hq')⟩
  · intro n k td htd
    rcases (s.db.lookup_tds_store block).1 htd with ⟨hkey, -⟩ | ⟨-, htd⟩
    · exact ⟨block, (Prod.ext_iff.1 hkey).2.symm, (hstored block).2 (.inl rfl)⟩
    · obtain ⟨h, hh, hst⟩ := hs.tds n k td htd
      exact ⟨h, hh, (hstored h).2 (.inr hst)⟩
  · intro h hh
    rcases (hstored h).1 hh with rfl | hh
    · exact hbelow
    · exact hs.below h hh

lemma writeHead (hb : s.db.Stored v block)
    (hready : t.Ready v block p) (hheaders : t.db.headers = s.db.headers) (htds : t.db.tds = s.db.tds)
    (hnumbers : t.db.numbers = s.db.numbers) : (t.writeHeadBlock v block).Linked v g := by
  obtain ⟨hassigns, hlookups⟩ := hready.writeHeadBlock
  have hheaders' : (t.writeHeadBlock v block).db.headers = s.db.headers := hheaders
  have htds' : (t.writeHeadBlock v block).db.tds = s.db.tds := htds
  have hnumbers' : (t.writeHeadBlock v block).db.numbers = s.db.numbers := hnumbers
  have hstored : ∀ h, (t.writeHeadBlock v block).db.Stored v h ↔ s.db.Stored v h := by
    intro h
    rw [HeaderDb.Stored, hheaders', HeaderDb.Stored]
  refine ⟨⟨?_, ?_, ?_, ?_⟩, ⟨hs.rooted.zero, (hstored g).2 hs.rooted.genesis, ?_⟩, ?_, (hstored block).2 hb, ?_, hassigns,
    hlookups⟩
  · rw [hheaders']
    exact hs.sound.header
  · rw [hheaders', hnumbers']
    exact hs.sound.number
  · rw [htds']
    exact hs.sound.td
  · intro h hh
    rw [htds']
    exact hs.sound.td_of_stored h ((hstored h).1 hh)
  · intro h hh hne
    obtain ⟨q, hq, hst⟩ := hs.rooted.parent h ((hstored h).1 hh) hne
    exact ⟨q, hq, (hstored q).2 hst⟩
  · intro n k td htd
    rw [htds'] at htd
    obtain ⟨h, hh, hst⟩ := hs.tds n k td htd
    exact ⟨h, hh, (hstored h).2 hst⟩
  · intro h hh
    exact hs.below h ((hstored h).1 hh)

lemma ready (hp : v.hash s.currentBlock = v.parentHash block) :
    s.Ready v block s.currentBlock := ⟨hp, fun n k _ => hs.assigns n k, fun t n _ => hs.lookups t n⟩

lemma blockNeeded (hb : s.db.Stored v block)
    (forker : ForkChoice B) : forker.blockNeeded v s.db s.currentBlock block =
      .ok (forker.prefers v.toHeaderFields (v.total (v.hash s.currentBlock)) (v.total (v.hash block)) s.currentBlock block) := by
  rw [ForkChoice.blockNeeded, hs.sound.td_of_stored _ hs.current, hs.sound.td_of_stored _ hb]

lemma setHeadBlock (hb : s.db.Stored v block)
    (hp : v.hash p = v.parentHash block) (hst : s.db.Stored v p) (hnot : ¬ s.Strands v block) :
    ∃ t, setHeadBlock v block s = .ok .canonStatTy t ∧ t.Linked v g := by
  unfold BlockChain.setHeadBlock
  by_cases hparent : v.parentHash block = v.hash s.currentBlock
  · rw [if_pos hparent]
    exact ⟨_, rfl, hs.writeHead hb (hs.ready hparent.symm) rfl rfl rfl⟩
  · obtain ⟨t, hrun, hready, hheaders, htds, hnumbers⟩ := hs.reorg hb hp hst hnot
    rw [if_neg hparent, hrun]
    exact ⟨_, rfl, hs.writeHead hb hready hheaders htds hnumbers⟩

lemma run {w : BlockWrite B} (hw : w.Allowed v s) : (w.run v s).Linked v g := by
  obtain ⟨block, forker, commits⟩ := w
  unfold BlockWrite.run writeBlockAndSetHead writeBlockWithState
  cases htd : s.db.tds.lookup (v.number block - 1, v.parentHash block) with
  | none => exact hs
  | some ptd =>
    obtain ⟨p, hp, hst⟩ := hs.tds _ _ _ htd
    have hstore : s.db.write v [.td (v.hash block) (v.number block) (ptd + v.difficulty block), .header block] =
        s.db.store v block := by
      rw [(hs.sound.td _ _ _ htd).1, ← v.total_hash]
      rfl
    have hs' := hs.store hp hst hw.below
    have hb : (s.db.store v block).Stored v block := (s.db.stored_store_iff block block).2 (.inl rfl)
    have hst' : (s.db.store v block).Stored v p := (s.db.stored_store_iff block p).2 (.inr hst)
    cases commits with
    | false =>
      simp only [hstore, Bool.false_eq_true, if_false]
      exact hs'
    | true =>
      simp only [hstore, if_true]
      have hneeded := hs'.blockNeeded hb forker
      rw [hneeded]
      cases hprefers : forker.prefers v.toHeaderFields (v.total (v.hash s.currentBlock)) (v.total (v.hash block))
        s.currentBlock block with
      | false => exact hs'
      | true =>
        obtain ⟨t, hrun, ht⟩ := hs'.setHeadBlock hb hp hst' (hw.strands hprefers)
        rw [hrun]
        exact ht

end

lemma genesis (hzero : v.number g = 0) : (genesis v g).Linked v g := by
  have hlinked : (HeaderChain.genesis v.toHeaderFields g).Linked v.toHeaderFields g := .genesis hzero
  have hdown : ∀ {a}, v.Descends g a → a = g := fun ha => by
    have hle := ha.number_le
    rw [hzero, UInt64.toNat_zero, Nat.le_zero] at hle
    exact ha.eq_of_number_eq (.refl g) (UInt64.toNat.inj (by rw [hle, hzero]; rfl))
  refine ⟨hlinked.sound.db, hlinked.rooted, fun n k td htd => ?_, hlinked.sound.current, hlinked.below, hlinked.assigns,
    fun t n => ?_⟩
  · rcases (lookup_tds_store ⟨∅, ∅, ∅, ∅⟩ g).1 htd with ⟨hkey, -⟩ | ⟨-, htd⟩
    · exact ⟨g, (Prod.ext_iff.1 hkey).2.symm, hlinked.rooted.genesis⟩
    · cases htd
  · rw [BlockChain.genesis, lookup_insertAll]
    constructor
    · intro hn
      split at hn
      · cases hn
        exact ⟨g, .refl g, ‹_›, rfl⟩
      · cases hn
    · rintro ⟨a, ha, hta, rfl⟩
      cases hdown ha
      rw [if_pos hta]

end BlockChain.Linked

/-- After every block that was written, of which none strands the chain: the canonical hash of
each number up to the head is that of its ancestor, there is none above it, and a transaction
has a lookup entry if it is in a canonical block, with that block's number. -/
theorem canonical_indexes (hzero : v.number g = 0) {writes : List (BlockWrite B)}
    (hrun : Run (fun s w t => BlockWrite.Allowed v s w ∧ t = w.run v s) (.genesis v g) writes s) :
    (∀ n ≤ v.number s.currentBlock, ∃ a, v.Descends s.currentBlock a ∧ v.number a = n ∧
      s.db.canonical.lookup n = some (v.hash a)) ∧
    (∀ n, v.number s.currentBlock < n → s.db.canonical.lookup n = none) ∧
    ∀ t n, s.lookups.lookup t = some n ↔ ∃ a, s.db.canonical.lookup n = some (v.hash a) ∧ v.number a = n ∧ t ∈ v.txs a := by
  have hs : s.Linked v g := by
    apply hrun.inv (fun s => s.Linked v g) (.genesis hzero)
    rintro s w t hs ⟨hw, rfl⟩
    exact hs.run hw
  refine ⟨fun n hn => ?_, fun n hn => ?_, fun t n => ?_⟩
  · obtain ⟨a, ha, han⟩ := hs.rooted.exists_ancestor hs.current hn
    exact ⟨a, ha, han, (hs.assigns _ _).2 ⟨a, ha, han, rfl⟩⟩
  · apply Option.eq_none_iff_forall_ne_some.2
    intro k hk
    exact UInt64.not_lt.2 (hs.mem_canonical_iff.1 (mem_of_lookup_eq_some hk)) hn
  · rw [hs.lookups]
    constructor
    · rintro ⟨a, ha, hta, rfl⟩
      exact ⟨a, (hs.assigns _ _).2 ⟨a, ha, rfl, rfl⟩, rfl, hta⟩
    · rintro ⟨a, hk, rfl, hta⟩
      obtain ⟨b, hb, -, hbk⟩ := (hs.assigns _ _).1 hk
      cases v.hash_inj b a hbk
      exact ⟨_, hb, hta, rfl⟩

/-! ## Four blocks -/

/-- A genesis block, two blocks of difficulty 1 on it, and one of difficulty 2 beside them. -/
inductive ForkBlock
  | genesis
  | first
  | second
  | rival
deriving DecidableEq

def forkHeaders : HeaderFields ForkBlock Nat where
  hash
    | .genesis => 1
    | .first => 2
    | .second => 3
    | .rival => 4
  parentHash
    | .genesis => 0
    | .first => 1
    | .second => 2
    | .rival => 1
  number
    | .genesis => 0
    | .first => 1
    | .second => 2
    | .rival => 1
  difficulty
    | .rival => 2
    | _ => 1
  total k := if k = 4 then 3 else k
  hash_inj h h' := by cases h <;> cases h' <;> decide
  number_parent h p := by cases h <;> cases p <;> decide
  total_hash h := by cases h <;> decide

/-- The first transaction is in both branches. -/
def forkBlocks : BlockFields ForkBlock Nat Nat where
  toHeaderFields := forkHeaders
  txs
    | .genesis => []
    | .first => [10]
    | .second => [20]
    | .rival => [10]
  txs_once := by
    intro h a b t ha hb hta htb
    refine ha.eq_of_number_eq hb ?_
    cases a <;> cases b <;> simp_all [forkHeaders]

def forkByTd : ForkChoice ForkBlock := ⟨none, none, false⟩

def forkRun (blocks : List ForkBlock) : BlockChain ForkBlock Nat Nat :=
  blocks.foldl (fun s block => BlockWrite.run forkBlocks s ⟨block, forkByTd, true⟩) (.genesis forkBlocks .genesis)

theorem canonical_indexes_rival : (forkRun [.first, .rival]).currentBlock = .rival ∧
    (∀ n, 1 < n → (forkRun [.first, .rival]).db.canonical.lookup n = none) ∧
    (forkRun [.first, .rival]).lookups.lookup 10 = some 1 := by
  have hfirst : BlockWrite.Allowed forkBlocks (.genesis forkBlocks .genesis) ⟨.first, forkByTd, true⟩ :=
    ⟨by decide, fun _ h => absurd h.1 (by decide)⟩
  have hrival : BlockWrite.Allowed forkBlocks (forkRun [.first]) ⟨.rival, forkByTd, true⟩ :=
    ⟨by decide, fun _ h => absurd h.1 (by decide +kernel)⟩
  have hrun : Run (fun s w t => BlockWrite.Allowed forkBlocks s w ∧ t = w.run forkBlocks s) (.genesis forkBlocks .genesis)
      [⟨.first, forkByTd, true⟩, ⟨.rival, forkByTd, true⟩] (forkRun [.first, .rival]) :=
    .cons ⟨hfirst, rfl⟩ (.single ⟨hrival, rfl⟩)
  have hhead : (forkRun [.first, .rival]).currentBlock = .rival := by decide +kernel
  obtain ⟨-, hnone, hlookups⟩ := canonical_indexes rfl hrun
  rw [hhead] at hnone
  exact ⟨hhead, hnone, (hlookups 10 1).2 ⟨.rival, by decide +kernel, rfl, by decide⟩⟩

/-- The rival has the total difficulty of the two blocks, so it becomes the head, at number 1;
the hash at number 2 stays. -/
theorem shorter_branch_leaves_hash : (forkRun [.first, .second, .rival]).currentBlock = .rival ∧
    (forkRun [.first, .second, .rival]).db.canonical.lookup 1 = some 4 ∧
    (forkRun [.first, .second, .rival]).db.canonical.lookup 2 = some 3 := by decide +kernel

end TurboOctopus.Core
