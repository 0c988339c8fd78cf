import TurboOctopus.Trie.Stacking
import Mathlib.Data.List.Pairwise
/-!
# The stack trie and the trie

Pairs in order give a stack trie and, in any order, a trie for the same tree: the roots
are equal, and a commit puts the same nodes. `DeriveSha` puts the indexes of a list into
the order of their encodings.
-/
namespace TurboOctopus.Trie

open Lib Lib.Rlp Lib.Patricia TurboOctopus.Types List
open Lib.Patricia.Tree hiding value

/-! ## A stack trie and its tree -/

/-- The tree of a stack trie, of which the finished part has been put. -/
def Holds (C : Crypto) (st : StackTrie) (t : HexTree) : Prop :=
  (t = .nil ∧ st.node = .empty ∧ ∀ log, st.db = some log → log = []) ∨
    ∃ done, Stacks C st.node t done ∧ Open st.node ∧ ∀ log, st.db = some log → ∀ p, p ∈ log ↔ done p

section Holds
variable {C : Crypto} {st : StackTrie} {t : HexTree}

lemma holds_new (C : Crypto) : Holds C (.new none) .nil ∧ Holds C (.new (some [])) .nil := by
  constructor
  · exact .inl ⟨rfl, rfl, by simp [StackTrie.new]⟩
  · exact .inl ⟨rfl, rfl, by simp [StackTrie.new]⟩

lemma keybytesToHex_eq_hexKey (key : List UInt8) : keybytesToHex key = hexKey (keyNibbles key) := by
  have hnibbles : nibbles key = (keyNibbles key).map Fin.castSucc := by
    induction key with
    | nil => rfl
    | cons b key ih =>
      have hb := b.toNat_lt
      simp only [nibbles, keyNibbles, flatMap_cons, map_append] at ih ⊢
      rw [ih]
      congr 1
      simp only [map_cons, map_nil, List.cons.injEq, and_true, Fin.ext_iff, Fin.val_castSucc, Fin.val_ofNat]
      omega
  rw [keybytesToHex_eq, hnibbles]
  rfl

lemma below_keyNibbles {a b : List UInt8} (h : Below a b) : Below (keyNibbles a) (keyNibbles b) := by
  induction a generalizing b with
  | nil => exact h.elim
  | cons x a ih =>
    cases b with
    | nil => exact h.elim
    | cons y b =>
      have hx := x.toNat_lt
      have hy := y.toNat_lt
      simp only [keyNibbles, flatMap_cons, cons_append, nil_append, below_cons, Fin.lt_def, Fin.ext_iff, Fin.val_ofNat]
      rcases below_cons.1 h with hlt | ⟨rfl, htail⟩
      · rw [UInt8.lt_iff_toNat_lt] at hlt
        by_cases hhigh : x.toNat / 16 < y.toNat / 16
        · left
          omega
        · right
          refine ⟨by omega, .inl ?_⟩
          omega
      · exact .inr ⟨rfl, .inr ⟨rfl, ih htail⟩⟩

lemma Holds.tryUpdate (h : Holds C st t) {key value : List UInt8} (hvalue : value ≠ []) (hcanonical : t.Canonical)
    (hunder : Under t (keyNibbles key)) : ∃ st', st.tryUpdate C key value = .ok st' ∧
      Holds C st' (t.insert (keybytesToHex key) value) ∧ (st'.db.isSome = st.db.isSome) := by
  have hlen : ¬ value.length = 0 := by simpa using hvalue
  rw [keybytesToHex_eq_hexKey, StackTrie.tryUpdate, if_neg hlen]
  rcases h with ⟨rfl, hnode, hlog⟩ | ⟨done, hstacks, hopen, hlog⟩
  · refine ⟨st.put (.leaf (keyNibbles key) value) [], by rw [hnode]; rfl, .inr ?_, by simp [StackTrie.put]⟩
    refine ⟨fun _ => False, ?_, trivial, ?_⟩
    · rw [Tree.insert, extend_hexKey]
      exact .leaf _ _
    · intro log hdb p
      simp only [StackTrie.put, append_nil, Option.map_eq_some_iff, exists_eq_right] at hdb
      simp [hlog log hdb]
  · obtain ⟨node, puts, done', hinsert, hstacks', hdone, hopen'⟩ := hstacks.insert value hopen hcanonical hunder
    refine ⟨st.put node puts, by rw [hinsert]; rfl, .inr ⟨done', hstacks', hopen', ?_⟩, by simp [StackTrie.put]⟩
    intro log hdb p
    simp only [StackTrie.put, Option.map_eq_some_iff] at hdb
    obtain ⟨log', hdb', rfl⟩ := hdb
    rw [mem_append, hlog log' hdb', hdone]

lemma stored_nodeOf (ht : Inner t) (hlong : 32 ≤ (encodeTree C t).length) : Stored C (nodeOf C t) t := by
  cases t with
  | nil => exact ht.elim
  | value v => exact ht.elim
  | short key t => exact .inr ⟨rfl, hlong⟩
  | full c => exact .inr ⟨rfl, hlong⟩

lemma open_ne_nil {st : StackNode} (h : Open st) : st ≠ .nil := by
  rintro rfl
  exact h

lemma Holds.hash (h : Holds C st t) : (st.hash C).1 = treeRoot C t := by
  rcases h with ⟨rfl, hnode, -⟩ | ⟨done, hstacks, hopen, -⟩
  · rw [StackTrie.hash, hnode]
    simp only [StackNode.hashRec, length_bytes, if_true]
    exact bytesToHash_bytes emptyRoot
  · have hinner := hstacks.inner (open_ne_nil hopen)
    have hval := (hstacks.hashRec (open_ne_nil hopen)).1
    rw [StackTrie.hash, treeRoot_of_inner hinner]
    dsimp only
    rw [hval, refBytes]
    by_cases hshort : (encodeTree C t).length < 32
    · rw [if_pos hshort, if_neg (by omega)]
    · rw [if_neg hshort, if_pos (length_bytes _)]
      exact bytesToHash_bytes _

lemma Holds.commit (h : Holds C st t) (hdb : st.db.isSome) :
    ∃ st' log, st.commit C = .ok (treeRoot C t, st') ∧ st'.db = some log ∧ ∀ p, p ∈ log ↔ Committed C p t := by
  obtain ⟨log, hlog⟩ := Option.isSome_iff_exists.1 hdb
  rcases h with ⟨rfl, hnode, hempty⟩ | ⟨done, hstacks, hopen, hdone⟩
  · refine ⟨st.put (.hashed (Hash.bytes emptyRoot)) [], [], ?_, ?_, by simp [Committed, Inner]⟩
    · rw [StackTrie.commit, hlog, hnode]
      simp only [StackNode.hashRec, length_bytes, if_true]
      rw [bytesToHash_bytes]
      rfl
    · simp [StackTrie.put, hlog, hempty log hlog]
  · have hne := open_ne_nil hopen
    have hinner := hstacks.inner hne
    obtain ⟨hval, hputs⟩ := hstacks.hashRec hne
    have hstored : ∀ p, p ∈ log ++ (st.node.hashRec C).2 ↔ Stored C p t := fun p => by
      rw [mem_append, hdone log hlog, or_comm, hputs]
    rw [StackTrie.commit, hlog, treeRoot_of_inner hinner]
    dsimp only
    by_cases hshort : (encodeTree C t).length < 32
    · rw [hval, refBytes, if_pos hshort, if_neg (by omega)]
      refine ⟨_, log ++ (st.node.hashRec C).2 ++ [nodeOf C t], rfl, by simp [StackTrie.put, hlog, nodeOf], fun p => ?_⟩
      rw [mem_append, hstored, mem_singleton, Committed]
      simp [hinner]
    · rw [hval, refBytes, if_neg hshort, if_pos (length_bytes _), bytesToHash_bytes]
      refine ⟨_, log ++ (st.node.hashRec C).2, rfl, by simp [StackTrie.put, hlog], fun p => ?_⟩
      rw [hstored, Committed, and_iff_right hinner]
      constructor
      · exact .inl
      · rintro (hp | rfl)
        · exact hp
        · exact stored_nodeOf hinner (by omega)

end Holds

/-! ## Runs of updates -/

abbrev Pair := List UInt8 × List UInt8

def stackUpdates (C : Crypto) (st : StackTrie) (pairs : List Pair) : Except StackPanic StackTrie :=
  pairs.foldlM (fun st p => st.tryUpdate C p.1 p.2) st

def updates (t : Trie) (pairs : List Pair) : Except TrieError Trie :=
  pairs.foldlM (fun t p => t.tryUpdate p.1 p.2) t

def Entries.put (m : Entries) (p : Pair) : Entries := Function.update m p.1 (some p.2)

section Runs
variable {C : Crypto} {st : StackTrie} {t : Trie} {tree : HexTree} {pairs : List Pair}

lemma Stands.inserts (h : Stands C t tree) (hfresh : Fresh t.root) (p : Pair) (hvalue : p.2 ≠ []) :
    ∃ t', t.tryUpdate p.1 p.2 = .ok t' ∧ Stands C t' (tree.insert (keybytesToHex p.1) p.2) ∧ Fresh t'.root := by
  obtain ⟨dirty, n', hinsert, hupdate, hstands⟩ := h.tryInsert p.1 hvalue
  exact ⟨_, hupdate, hstands, insert_fresh hinsert hfresh trivial⟩

lemma Stands.updates (h : Stands C t tree) (hfresh : Fresh t.root) (hvalues : ∀ p ∈ pairs, p.2 ≠ []) :
    ∃ t' tree', updates t pairs = .ok t' ∧ Stands C t' tree' ∧ Fresh t'.root ∧
      entries tree' = pairs.foldl Entries.put (entries tree) := by
  induction pairs generalizing t tree with
  | nil => exact ⟨t, tree, rfl, h, hfresh, rfl⟩
  | cons p pairs ih =>
    obtain ⟨hp, hvalues⟩ := forall_mem_cons.1 hvalues
    obtain ⟨t', hupdate, hstands, hfresh'⟩ := h.inserts hfresh p hp
    obtain ⟨t'', tree', hrun, hstands', hfresh'', hentries⟩ := ih hstands hfresh' hvalues
    refine ⟨t'', tree', ?_, hstands', hfresh'', ?_⟩
    · rw [Trie.updates, foldlM_cons, hupdate]
      exact hrun
    · rw [hentries, h.entries_insert]
      rfl

lemma Stands.under_insert (h : Stands C t tree) {key key' : List UInt8} (value : List UInt8)
    (hunder : Under tree (keyNibbles key')) (hbelow : Below key key') :
    Under (tree.insert (keybytesToHex key) value) (keyNibbles key') := by
  intro k hk
  rw [lookup_insert h.canonical (h.apart key)] at hk
  by_cases hkey : k = keybytesToHex key
  · exact ⟨keyNibbles key, hkey.trans (keybytesToHex_eq_hexKey key), below_keyNibbles hbelow⟩
  · rw [if_neg hkey] at hk
    exact hunder k hk

/-- Next to the stack trie runs a trie: the tree is the tree of both. -/
lemma Holds.updates (h : Holds C st tree) (hstands : Stands C t tree) (hvalues : ∀ p ∈ pairs, p.2 ≠ [])
    (hsorted : pairs.Pairwise fun p q => Below p.1 q.1) (hunder : ∀ p ∈ pairs, Under tree (keyNibbles p.1)) :
    ∃ st' t' tree', stackUpdates C st pairs = .ok st' ∧ Holds C st' tree' ∧ st'.db.isSome = st.db.isSome ∧
      Stands C t' tree' ∧ entries tree' = pairs.foldl Entries.put (entries tree) := by
  induction pairs generalizing st t tree with
  | nil => exact ⟨st, t, tree, rfl, h, rfl, hstands, rfl⟩
  | cons p pairs ih =>
    obtain ⟨hp, hvalues⟩ := forall_mem_cons.1 hvalues
    obtain ⟨hbelow, hsorted⟩ := pairwise_cons.1 hsorted
    obtain ⟨hfirst, hunder⟩ := forall_mem_cons.1 hunder
    obtain ⟨st', hstack, hholds, hdb⟩ := h.tryUpdate hp hstands.canonical hfirst
    obtain ⟨_, n', _, _, hstands'⟩ := hstands.tryInsert p.1 hp
    have hunder' : ∀ q ∈ pairs, Under (tree.insert (keybytesToHex p.1) p.2) (keyNibbles q.1) := fun q hq =>
      hstands.under_insert p.2 (hunder q hq) (hbelow q hq)
    obtain ⟨st'', t'', tree', hrun, hholds', hdb', hstands'', hentries⟩ := ih hholds hstands' hvalues hsorted hunder'
    refine ⟨st'', t'', tree', ?_, hholds', hdb'.trans hdb, hstands'', ?_⟩
    · rw [stackUpdates, foldlM_cons, hstack]
      exact hrun
    · rw [hentries, hstands.entries_insert]
      rfl

lemma foldl_put_perm {order : List Pair} (hperm : order.Perm pairs) (hkeys : pairs.Pairwise fun p q => p.1 ≠ q.1)
    (m : Entries) : order.foldl Entries.put m = pairs.foldl Entries.put m := by
  refine (hperm.symm.foldl_eq' (fun p hp q hq z => ?_) m).symm
  by_cases hpq : p = q
  · rw [hpq]
  · have : Std.Symm fun p q : Pair => p.1 ≠ q.1 := ⟨fun _ _ h => h.symm⟩
    have hne : p.1 ≠ q.1 := hkeys.forall hp hq hpq
    exact Function.update_comm hne (some p.2) (some q.2) z

lemma under_nil (key : List Nibble) : Under .nil key := fun _ hk => absurd rfl hk

/-- Both tries hold the one tree of the pairs. -/
lemma common_tree {order : List Pair} (db : NodeDb) (hst : Holds C st .nil) (hvalues : ∀ p ∈ pairs, p.2 ≠ [])
    (hsorted : pairs.Pairwise fun p q => Below p.1 q.1) (hperm : order.Perm pairs) :
    ∃ st' t' tree', stackUpdates C st pairs = .ok st' ∧ Holds C st' tree' ∧ st'.db.isSome = st.db.isSome ∧
      updates ⟨db, .empty⟩ order = .ok t' ∧ Stands C t' tree' ∧ Fresh t'.root := by
  have hempty := stands_empty C db
  obtain ⟨st', t', tree', hstack, hholds, hdb, hstands, hentries⟩ :=
    hst.updates hempty hvalues hsorted fun p _ => under_nil (keyNibbles p.1)
  have hvalues' : ∀ p ∈ order, p.2 ≠ [] := fun p hp => hvalues p (hperm.subset hp)
  obtain ⟨t'', tree'', hrun, hstands', hfresh, hentries'⟩ := hempty.updates trivial hvalues'
  have hkeys : pairs.Pairwise fun p q => p.1 ≠ q.1 :=
    hsorted.imp fun {p q} (hbelow : Below p.1 q.1) (heq : p.1 = q.1) => hbelow.apart.1 (heq ▸ prefix_rfl)
  have htree : tree'' = tree' := hstands'.ext hstands (by rw [hentries, hentries', foldl_put_perm hperm hkeys])
  subst htree
  exact ⟨st', t'', tree'', hstack, hholds, hdb, hrun, hstands', hfresh⟩

end Runs

/-! ## `DeriveSha` -/

def appendUint64 (b : List UInt8) (i : Nat) : List UInt8 :=
  if i = 0 then b ++ [0x80]
  else if i < 128 then b ++ [UInt8.ofNat i]
  else if i < 2 ^ 8 then b ++ 0x81 :: fixedBytes 1 i
  else if i < 2 ^ 16 then b ++ 0x82 :: fixedBytes 2 i
  else if i < 2 ^ 24 then b ++ 0x83 :: fixedBytes 3 i
  else if i < 2 ^ 32 then b ++ 0x84 :: fixedBytes 4 i
  else if i < 2 ^ 40 then b ++ 0x85 :: fixedBytes 5 i
  else if i < 2 ^ 48 then b ++ 0x86 :: fixedBytes 6 i
  else if i < 2 ^ 56 then b ++ 0x87 :: fixedBytes 7 i
  else b ++ 0x88 :: fixedBytes 8 i

/-- `TrieHasher`, of which `ε` are the panics. -/
structure TrieHasher (σ ε : Type) where
  reset : σ → σ
  update : σ → List UInt8 → List UInt8 → Except ε σ
  hash : σ → Except ε (Hash × σ)

/-- The length is an `int`. -/
structure DerivableList where
  len : Nat
  encodeIndex : Nat → List UInt8
  len_lt : len < 2 ^ 63

section DeriveSha
variable {σ ε : Type} (H : TrieHasher σ ε) (list : DerivableList)

def deriveIndex (hasher : σ) (i : Nat) : Except ε σ := H.update hasher (appendUint64 [] i) (list.encodeIndex i)

def deriveSha (hasher : σ) : Except ε (Hash × σ) := do
  let hasher ← (List.range' 1 (min list.len 0x80 - 1)).foldlM (deriveIndex H list) (H.reset hasher)
  let hasher ← if list.len > 0 then deriveIndex H list hasher 0 else pure hasher
  let hasher ← (List.range' 0x80 (list.len - 0x80)).foldlM (deriveIndex H list) hasher
  H.hash hasher

end DeriveSha

def stackHasher (C : Crypto) : TrieHasher StackTrie StackPanic where
  reset := StackTrie.reset
  update := StackTrie.tryUpdate C
  hash := fun st => .ok (st.hash C)

/-- `Update`: a missing node is logged, and the trie stays. -/
def update (t : Trie) (key value : List UInt8) : Except TrieError Trie :=
  match t.tryUpdate key value with
  | .error (.missingNode _ _) => .ok t
  | result => result

def trieHasher (C : Crypto) : TrieHasher Trie TrieError where
  reset := fun t => { t with root := .empty }
  update := update
  hash := fun t => t.hash C

/-! ## The order of the indexes -/

def deriveOrder (n : Nat) : List Nat :=
  List.range' 1 (min n 0x80 - 1) ++ (if n > 0 then [0] else []) ++ List.range' 0x80 (n - 0x80)

lemma deriveSha_eq {σ ε : Type} (H : TrieHasher σ ε) (list : DerivableList) (hasher : σ) :
    deriveSha H list hasher = (deriveOrder list.len).foldlM (deriveIndex H list) (H.reset hasher) >>= H.hash := by
  by_cases hpos : list.len > 0
  · simp only [deriveSha, deriveOrder, foldlM_append, if_pos hpos, foldlM_cons, foldlM_nil, bind_assoc, pure_bind]
  · simp only [deriveSha, deriveOrder, foldlM_append, if_neg hpos, foldlM_nil, bind_assoc, pure_bind]

lemma mem_deriveOrder {n i : Nat} : i ∈ deriveOrder n ↔ i < n := by
  rw [deriveOrder, mem_append, mem_append, mem_range'_1, mem_range'_1]
  split
  · rw [mem_singleton]
    omega
  · simp only [not_mem_nil, or_false]
    omega

/-- A long index is headed by its width, which is the least one. -/
lemma appendUint64_long {i : Nat} (hi : 128 ≤ i) (hlt : i < 2 ^ 64) : ∃ w, 1 ≤ w ∧ w ≤ 8 ∧ appendUint64 [] i =
      UInt8.ofNat (0x80 + w) :: fixedBytes w i ∧ i < 256 ^ w ∧ (w = 1 ∨ 256 ^ (w - 1) ≤ i) := by
  rw [appendUint64, if_neg (by omega), if_neg (by omega)]
  by_cases h1 : i < 2 ^ 8
  · exact ⟨1, by omega, by omega, by rw [if_pos h1]; rfl, by omega, .inl rfl⟩
  by_cases h2 : i < 2 ^ 16
  · exact ⟨2, by omega, by omega, by rw [if_neg h1, if_pos h2]; rfl, by omega, .inr (by omega)⟩
  by_cases h3 : i < 2 ^ 24
  · exact ⟨3, by omega, by omega, by rw [if_neg h1, if_neg h2, if_pos h3]; rfl, by omega, .inr (by omega)⟩
  by_cases h4 : i < 2 ^ 32
  · exact ⟨4, by omega, by omega, by rw [if_neg h1, if_neg h2, if_neg h3, if_pos h4]; rfl, by omega, .inr (by omega)⟩
  rw [if_neg h1, if_neg h2, if_neg h3, if_neg h4]
  by_cases h5 : i < 2 ^ 40
  · exact ⟨5, by omega, by omega, by rw [if_pos h5]; rfl, by omega, .inr (by omega)⟩
  by_cases h6 : i < 2 ^ 48
  · exact ⟨6, by omega, by omega, by rw [if_neg h5, if_pos h6]; rfl, by omega, .inr (by omega)⟩
  by_cases h7 : i < 2 ^ 56
  · exact ⟨7, by omega, by omega, by rw [if_neg h5, if_neg h6, if_pos h7]; rfl, by omega, .inr (by omega)⟩
  · exact ⟨8, by omega, by omega, by rw [if_neg h5, if_neg h6, if_neg h7]; rfl, by omega, .inr (by omega)⟩

lemma appendUint64_zero : appendUint64 [] 0 = [UInt8.ofNat 0x80] := rfl

lemma appendUint64_short {i : Nat} (hpos : 0 < i) (hi : i < 128) : appendUint64 [] i = [UInt8.ofNat i] := by
  rw [appendUint64, if_neg (by omega), if_pos hi]
  rfl

lemma ofNat_lt {x y : Nat} (hlt : x < y) (hy : y < 256) : UInt8.ofNat x < UInt8.ofNat y := by
  rw [UInt8.lt_iff_toNat_lt, UInt8.toNat_ofNat', UInt8.toNat_ofNat']
  omega

lemma below_appendUint64_long {i j : Nat} (hi : 128 ≤ i) (hlt : i < j) (hj : j < 2 ^ 64) :
    Below (appendUint64 [] i) (appendUint64 [] j) := by
  obtain ⟨w, hw, -, hencode, hbound, hleast⟩ := appendUint64_long hi (hlt.trans hj)
  obtain ⟨w', hw', hw8, hencode', hbound', -⟩ := appendUint64_long (hi.trans hlt.le) hj
  rw [hencode, hencode', below_cons]
  have hle : w ≤ w' := by
    by_contra hgt
    have hpow : 256 ^ w' ≤ 256 ^ (w - 1) := Nat.pow_le_pow_right (by omega) (by omega)
    omega
  rcases hle.lt_or_eq with hwidth | rfl
  · exact .inl (ofNat_lt (by omega) (by omega))
  · exact .inr ⟨rfl, below_fixedBytes hlt hbound'⟩

/-- The empty string `0x80` of index 0 is between the bytes and the longer strings. -/
lemma below_deriveOrder {n : Nat} (hn : n < 2 ^ 63) :
    (deriveOrder n).Pairwise fun i j => Below (appendUint64 [] i) (appendUint64 [] j) := by
  have hshort : ∀ i j, 0 < i → i < 128 → 128 ≤ j → j < 2 ^ 64 → Below (appendUint64 [] i) (appendUint64 [] j) := by
    intro i j hpos hi hj hlt
    obtain ⟨w, hw, hw8, hencode, -⟩ := appendUint64_long hj hlt
    rw [appendUint64_short hpos hi, hencode, below_cons]
    exact .inl (ofNat_lt (by omega) (by omega))
  rw [deriveOrder, pairwise_append, pairwise_append]
  refine ⟨⟨?_, ?_, ?_⟩, ?_, ?_⟩
  · refine List.Pairwise.imp_of_mem (fun {i j} hi hj hlt => ?_) pairwise_lt_range'
    rw [mem_range'_1] at hi hj
    rw [appendUint64_short (by omega) (by omega), appendUint64_short (by omega) (by omega), below_cons]
    exact .inl (ofNat_lt hlt (by omega))
  · split
    · exact pairwise_singleton _ 0
    · exact .nil
  · intro i hi j hj
    rw [mem_range'_1] at hi
    have hzero : j = 0 := by
      split at hj
      · exact mem_singleton.1 hj
      · cases hj
    rw [hzero, appendUint64_short (by omega) (by omega), appendUint64_zero, below_cons]
    exact .inl (ofNat_lt (by omega) (by omega))
  · refine List.Pairwise.imp_of_mem (fun {i j} hi hj hlt => ?_) pairwise_lt_range'
    rw [mem_range'_1] at hi hj
    exact below_appendUint64_long (by omega) hlt (by omega)
  · intro i hi j hj
    rw [mem_range'_1] at hj
    rw [mem_append, mem_range'_1] at hi
    rcases hi with hi | hi
    · exact hshort i j (by omega) (by omega) (by omega) (by omega)
    · have hzero : i = 0 := by
        split at hi
        · exact mem_singleton.1 hi
        · cases hi
      obtain ⟨w, hw, hw8, hencode, -⟩ := appendUint64_long (i := j) (by omega) (by omega)
      rw [hzero, hencode, appendUint64_zero, below_cons]
      exact .inl (ofNat_lt (by omega) (by omega))

lemma deriveOrder_perm {n : Nat} (hn : n < 2 ^ 63) : (deriveOrder n).Perm (List.range n) := by
  have hnodup : (deriveOrder n).Nodup := (below_deriveOrder hn).imp fun {i j} (hbelow : Below _ _) (heq : i = j) =>
    hbelow.apart.1 (heq ▸ prefix_rfl)
  rw [perm_ext_iff_of_nodup hnodup nodup_range]
  intro i
  rw [mem_deriveOrder, mem_range]

/-! ## The two hashers -/

section Equal
variable {C : Crypto} {pairs : List Pair} {list : DerivableList}

def derivePairs (list : DerivableList) : List Pair :=
  (deriveOrder list.len).map fun i => (appendUint64 [] i, list.encodeIndex i)

lemma below_derivePairs (list : DerivableList) : (derivePairs list).Pairwise fun p q => Below p.1 q.1 :=
  pairwise_map.2 (below_deriveOrder list.len_lt)

lemma derivePairs_ne_nil (hencode : ∀ i < list.len, list.encodeIndex i ≠ []) : ∀ p ∈ derivePairs list, p.2 ≠ [] :=
  forall_mem_map.2 fun i hi => hencode i (mem_deriveOrder.1 hi)

lemma stackHasher_run (C : Crypto) (list : DerivableList) (st : StackTrie) :
    (deriveOrder list.len).foldlM (deriveIndex (stackHasher C) list) st = stackUpdates C st (derivePairs list) := by
  rw [stackUpdates, derivePairs, foldlM_map]
  rfl

lemma update_of_ok {t t' : Trie} {key value : List UInt8} (h : t.tryUpdate key value = .ok t') :
    t.update key value = .ok t' := by
  rw [update, h]

lemma trieHasher_run {t t' : Trie} (h : updates t (derivePairs list) = .ok t') :
    (deriveOrder list.len).foldlM (deriveIndex (trieHasher C) list) t = .ok t' := by
  rw [updates, derivePairs, foldlM_map] at h
  generalize deriveOrder list.len = indexes at h ⊢
  induction indexes generalizing t with
  | nil => exact h
  | cons i indexes ih =>
    rw [foldlM_cons] at h ⊢
    cases hupdate : t.tryUpdate (appendUint64 [] i) (list.encodeIndex i) with
    | error e =>
      rw [hupdate] at h
      cases h
    | ok u =>
      rw [hupdate] at h
      have hindex : deriveIndex (trieHasher C) list t i = .ok u := update_of_ok hupdate
      rw [hindex]
      exact ih h

lemma below_of_sorted (hlength : ∀ p ∈ pairs, ∀ q ∈ pairs, p.1.length = q.1.length)
    (hsorted : pairs.Pairwise fun p q => p.1 < q.1) : pairs.Pairwise fun p q => Below p.1 q.1 :=
  hsorted.imp_of_mem fun {p q} hp hq hlt => below_of_length hlt (hlength p hp q hq)

lemma deriveSha_both (hencode : ∀ i < list.len, list.encodeIndex i ≠ []) (st : StackTrie) (t : Trie) :
    ∃ root st' t', deriveSha (stackHasher C) list st = .ok (root, st') ∧
      deriveSha (trieHasher C) list t = .ok (root, t') := by
  obtain ⟨st', t', tree, hstack, hholds, -, hrun, hstands, -⟩ := common_tree t.db (holds_new C).1
    (derivePairs_ne_nil hencode) (below_derivePairs list) (.refl _)
  obtain ⟨t'', hhash, -⟩ := hstands.hash
  refine ⟨treeRoot C tree, (st'.hash C).2, t'', ?_, ?_⟩
  · rw [deriveSha_eq, stackHasher_run]
    have hreset : (stackHasher C).reset st = .new none := rfl
    rw [hreset, hstack, ← hholds.hash]
    rfl
  · rw [deriveSha_eq]
    have hreset : (trieHasher C).reset t = ⟨t.db, .empty⟩ := rfl
    rw [hreset, trieHasher_run hrun]
    exact hhash

end Equal

/-- Two keys that fork in their last nibble, and a list of two. -/
def twoPairs : List Pair := [([0x12], [1]), ([0x13], [2])]
def twoItems : DerivableList := ⟨2, fun i => [0xc1, .ofNat i], by decide⟩
def byValue : Crypto := ⟨fun b => .ofNat 256 (beNat b), fun _ _ => none⟩

end TurboOctopus.Trie
