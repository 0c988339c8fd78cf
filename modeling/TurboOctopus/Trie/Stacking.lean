import TurboOctopus.Lib.KeyOrder
import TurboOctopus.Trie.Committer
import TurboOctopus.Trie.Compact
/-!
# What a stack trie stands for

A stack trie stands for a tree of which some subtrees are there by their hash only. The
last key inserted goes through nodes that are not hashed, and so does every later key, as
it is above all of the others. The nodes of the hashed subtrees have been put.
-/
namespace TurboOctopus.Trie

open Lib Lib.Rlp Lib.Patricia TurboOctopus.Types Rlp Function List
open Lib.Patricia.Tree hiding value

/-- What a hashed node has as its value. -/
def refBytes (C : Crypto) (t : HexTree) : List UInt8 :=
  if (encodeTree C t).length < 32 then encodeTree C t else Hash.bytes (C.keccak256 (encodeTree C t))

/-- The tree of a node, and the nodes that have been put for it. -/
inductive Stacks (C : Crypto) : StackNode → HexTree → (Put → Prop) → Prop
  | nil : Stacks C .nil .nil fun _ => False
  | leaf (key : List Nibble) (v : List UInt8) : Stacks C (.leaf key v) (.short (hexKey key) (.value v)) fun _ => False
  | ext {key : List Nibble} {child : StackNode} {c : HexDigit → HexTree} {done : Put → Prop} (hkey : key ≠ [])
      (hchild : Stacks C child (.full c) done) : Stacks C (.ext key child) (.short (key.map Fin.castSucc) (.full c)) done
  | branch {children : Nibble → StackNode} {c : HexDigit → HexTree} {done : Nibble → Put → Prop}
      (hchildren : ∀ i, Stacks C (children i) (c i.castSucc) (done i)) (hend : c 16 = .nil) :
      Stacks C (.branch children) (.full c) fun p => ∃ i, done i p
  | hashed {t : HexTree} (ht : Inner t) : Stacks C (.hashed (refBytes C t)) t fun p => Stored C p t

/-- The last key is not hashed. -/
def Open : StackNode → Prop
  | .nil => False
  | .empty => False
  | .leaf _ _ => True
  | .ext _ child => Open child
  | .branch children => ∃ i, Open (children i) ∧ ∀ j, i < j → children j = .nil
  | .hashed _ => False

section Stacks
variable {C : Crypto} {st : StackNode} {t : HexTree} {done : Put → Prop}

lemma Stacks.inner (h : Stacks C st t done) (hst : st ≠ .nil) : Inner t := by
  cases h with
  | nil => exact absurd rfl hst
  | leaf => trivial
  | ext => trivial
  | branch => trivial
  | hashed ht => exact ht

lemma Stacks.eq_nil (h : Stacks C st t done) (ht : t = .nil) : st = .nil := by
  by_contra hst
  have hinner := h.inner hst
  rw [ht] at hinner
  exact hinner

lemma Stacks.isNil (h : Stacks C st t done) : st.isNil = true ↔ t = .nil := by
  constructor
  · intro hnil
    cases h with
    | nil => rfl
    | _ => cases hnil
  · intro ht
    rw [h.eq_nil ht]
    rfl

lemma Stacks.of_nil (h : Stacks C .nil t done) : t = .nil ∧ ∀ p, ¬ done p := by
  cases h with
  | nil => exact ⟨rfl, fun _ => id⟩

/-! ## Hashing -/

lemma rawChild_refBytes (ht : Inner t) : rawChild (refBytes C t) = (hashTree C t false).item.encode := by
  by_cases hlong : 32 ≤ (encodeTree C t).length
  · rw [hashTree_of_inner ht fun _ => hlong, refBytes, if_neg (by omega), rawChild, if_neg (by rw [length_bytes]; omega)]
    rfl
  · rw [hashTree_of_short ht (by simpa using hlong), refBytes, if_pos (by omega), rawChild, if_pos (by omega)]
    rfl

lemma sealNode_eq (puts : List Put) : ∃ puts', sealNode C (encodeTree C t) puts = (refBytes C t, puts') ∧
      ∀ p, p ∈ puts' ↔ p ∈ puts ∨ (p = nodeOf C t ∧ 32 ≤ (encodeTree C t).length) := by
  rw [sealNode, refBytes]
  split
  · next hshort =>
    refine ⟨puts, rfl, fun p => ?_⟩
    have : ¬ 32 ≤ (encodeTree C t).length := by omega
    simp [this]
  · next hlong =>
    refine ⟨puts ++ [nodeOf C t], rfl, fun p => ?_⟩
    rw [mem_append, mem_singleton, and_iff_left (by omega)]

lemma encodeRaw_eq (items : List Item) : encodeRaw (items.map Item.encode) = (Item.list items).encode := by
  rw [encode_list, encodeRaw, encodeList, encodeList, flatMap_def]

/-- An empty child is encoded as the empty string. -/
lemma encode_hashTree_nil : (hashTree C .nil false).item.encode = [0x80] := rfl

lemma Stacks.hashRec (h : Stacks C st t done) (hst : st ≠ .nil) :
    (st.hashRec C).1 = refBytes C t ∧ ∀ p, p ∈ (st.hashRec C).2 ∨ done p ↔ Stored C p t := by
  induction h with
  | nil => exact absurd rfl hst
  | hashed ht => exact ⟨rfl, fun p => by simp [StackNode.hashRec]⟩
  | leaf key v =>
    have henc : encodeRaw [writeBytes (compactInPlace (nibbleBytes key ++ [16])), writeBytes v] =
        encodeTree C (.short (hexKey key) (.value v)) := by
      rw [compactInPlace_leaf]
      exact encodeRaw_eq [.str _, .str v]
    obtain ⟨puts, hseal, hmem⟩ := sealNode_eq (C := C) (t := .short (hexKey key) (.value v)) []
    rw [StackNode.hashRec]
    rw [henc, hseal]
    refine ⟨rfl, fun p => ?_⟩
    rw [hmem, Stored, Stored]
    simp
  | @ext key child c done hkey hchild ih =>
    have hne : child ≠ .nil := by
      rintro rfl
      cases hchild
    obtain ⟨hval, hputs⟩ := ih hne
    have henc : encodeRaw [writeBytes (compactInPlace (nibbleBytes key)), rawChild (child.hashRec C).1] =
        encodeTree C (.short (key.map Fin.castSucc) (.full c)) := by
      rw [compactInPlace_ext hkey, hval, rawChild_refBytes (t := .full c) trivial]
      exact encodeRaw_eq [.str _, _]
    obtain ⟨puts, hseal, hmem⟩ := sealNode_eq (C := C) (t := .short (key.map Fin.castSucc) (.full c)) (child.hashRec C).2
    rw [StackNode.hashRec, henc, hseal]
    refine ⟨rfl, fun p => ?_⟩
    rw [hmem, Stored, ← hputs]
    exact or_right_comm
  | @branch children c done hchildren hend ih =>
    have hchild : ∀ i, (if (children i).isNil then [0x80] else rawChild ((children i).hashRec C).1) =
        (hashTree C (c i.castSucc) false).item.encode := by
      intro i
      split
      · next hnil =>
        rw [(hchildren i).isNil.1 hnil, encode_hashTree_nil]
      · next hnil =>
        have hne : children i ≠ .nil := fun h => hnil (by rw [h]; rfl)
        rw [(ih i hne).1, rawChild_refBytes ((hchildren i).inner hne)]
    have henc : encodeRaw (((List.finRange 16).map fun i =>
        if (children i).isNil then [0x80] else rawChild ((children i).hashRec C).1) ++ [[0x80]]) = encodeTree C (.full c) := by
      have hitems := encodeRaw_eq ((List.finRange 17).map fun i => (hashTree C (c i) false).item)
      rw [finRange_succ_last, map_append, map_append, map_map, map_map] at hitems
      rw [map_congr_left fun i _ => hchild i]
      have hlast : c (Fin.last 16) = .nil := hend
      have hlast' : ([Fin.last 16].map (fun i => (hashTree C (c i) false).item)).map Item.encode = [[0x80]] := by
        rw [map_singleton, map_singleton, hlast, encode_hashTree_nil]
      rw [hlast'] at hitems
      rw [encodeTree, collapse, finRange_succ_last, map_append, map_map]
      exact hitems
    obtain ⟨puts, hseal, hmem⟩ := sealNode_eq (C := C) (t := .full c)
      ((List.finRange 16).flatMap fun i => ((children i).hashRec C).2)
    rw [StackNode.hashRec]
    rw [henc, hseal]
    refine ⟨rfl, fun p => ?_⟩
    have hputs : ∀ i, p ∈ ((children i).hashRec C).2 ∨ done i p ↔ Stored C p (c i.castSucc) := by
      intro i
      by_cases hne : children i = .nil
      · have hchild := hchildren i
        rw [hne] at hchild
        obtain ⟨hnil, hdone⟩ := hchild.of_nil
        rw [hne, hnil]
        simp [StackNode.hashRec, Stored, hdone]
      · exact (ih i hne).2 p
    have hlast : ¬ Stored C p (c (Fin.last 16)) := by
      rw [show c (Fin.last 16) = .nil from hend]
      exact id
    have hsplit : (∃ i, Stored C p (c i)) ↔ (∃ i : Nibble, Stored C p (c i.castSucc)) ∨ Stored C p (c (Fin.last 16)) :=
      Fin.exists_fin_succ'
    rw [hmem, Stored, hsplit, or_iff_left hlast]
    simp only [← hputs, mem_flatMap, mem_finRange, true_and, exists_or]
    exact or_right_comm

lemma Stacks.hash (h : Stacks C st t done) (hst : st ≠ .nil) :
    Stacks C (st.hash C).1 t (fun p => Stored C p t) ∧ ∀ p, Stored C p t ↔ done p ∨ p ∈ (st.hash C).2 := by
  obtain ⟨hval, hputs⟩ := h.hashRec hst
  refine ⟨?_, fun p => by rw [← hputs p, or_comm]; rfl⟩
  rw [StackNode.hash, hval]
  exact .hashed (h.inner hst)

/-! ## Inserting -/

/-- All entries are below a key, and end. -/
def Under (t : HexTree) (key : List Nibble) : Prop :=
  ∀ k, t.lookup k ≠ none → ∃ k', k = hexKey k' ∧ Below k' key

lemma castSucc_ne (i : Nibble) : i.castSucc ≠ 16 := (Fin.castSucc_lt_last i).ne

lemma hexKey_cons (x : Nibble) (key : List Nibble) : hexKey (x :: key) = x.castSucc :: hexKey key := rfl

lemma hexKey_append (q key : List Nibble) : hexKey (q ++ key) = q.map Fin.castSucc ++ hexKey key := by
  simp [hexKey]

lemma hexKey_ne_nil (key : List Nibble) : hexKey key ≠ [] := by
  simp [hexKey]

lemma extend_hexKey (key : List Nibble) (t : HexTree) : extend (hexKey key) t = .short (hexKey key) t := by
  rw [Tree.extend, if_neg (hexKey_ne_nil key)]

variable {c : HexDigit → HexTree} {children : Nibble → StackNode} {done' : Put → Prop} {k key q : List Nibble}
  {r : List HexDigit} {x : Nibble}

lemma hexKey_inj {k' : List Nibble} (h : hexKey k = hexKey k') : k = k' :=
  map_injective_iff.2 (Fin.castSucc_injective 16) (append_cancel_right h)

lemma hexKey_eq_cons (h : x.castSucc :: r = hexKey k) : ∃ k', k = x :: k' ∧ r = hexKey k' := by
  cases k with
  | nil =>
    rw [hexKey, map_nil, nil_append, List.cons.injEq] at h
    exact absurd h.1 (castSucc_ne x)
  | cons y k =>
    rw [hexKey_cons, List.cons.injEq] at h
    exact ⟨k, by rw [Fin.castSucc_injective 16 h.1], h.2⟩

lemma hexKey_eq_append (h : q.map Fin.castSucc ++ r = hexKey k) : ∃ k', k = q ++ k' ∧ r = hexKey k' := by
  induction q generalizing k with
  | nil => exact ⟨k, rfl, h⟩
  | cons x q ih =>
    obtain ⟨k', rfl, hk'⟩ := hexKey_eq_cons h
    obtain ⟨k'', rfl, hr⟩ := ih hk'
    exact ⟨k'', rfl, hr⟩

lemma Under.tail (h : Under (.full c) (x :: key)) : Under (c x.castSucc) key := by
  intro k hk
  obtain ⟨k', hk', hbelow⟩ := h (x.castSucc :: k) (by rwa [lookup_full_cons])
  obtain ⟨k'', rfl, rfl⟩ := hexKey_eq_cons hk'
  rcases below_cons.1 hbelow with hlt | ⟨-, hbelow⟩
  · exact absurd hlt (lt_irrefl x)
  · exact ⟨k'', rfl, hbelow⟩

lemma Under.drop (h : Under (.short (q.map Fin.castSucc) t) (q ++ key)) : Under t key := by
  intro k hk
  obtain ⟨k', hk', hbelow⟩ := h (q.map Fin.castSucc ++ k) (by rwa [lookup_short_append])
  obtain ⟨k'', rfl, rfl⟩ := hexKey_eq_append hk'
  exact ⟨k'', rfl, (below_append q).1 hbelow⟩

lemma Under.le {i : Nibble} (h : Under (.full c) (x :: key))
    (hcanonical : (Tree.full c).Canonical) (hi : c i.castSucc ≠ .nil) : i ≤ x := by
  obtain ⟨k, v, hk⟩ := (hcanonical.1 i.castSucc).exists_entry hi
  obtain ⟨k', hk', hbelow⟩ := h (i.castSucc :: k) (by rw [lookup_full_cons, hk]; simp)
  obtain ⟨k'', rfl, -⟩ := hexKey_eq_cons hk'
  rcases below_cons.1 hbelow with hlt | ⟨heq, -⟩
  · exact hlt.le
  · exact heq.le

lemma Under.key_ne_nil (h : Under t key) (hcanonical : t.Canonical) (ht : t ≠ .nil) : key ≠ [] := by
  rintro rfl
  obtain ⟨k, v, hk⟩ := hcanonical.exists_entry ht
  obtain ⟨k', -, hbelow⟩ := h k (by rw [hk]; simp)
  exact not_below_nil hbelow

lemma getDiffIndex_append (nkey key : List Nibble) : getDiffIndex nkey (nkey ++ key) = .ok nkey.length := by
  induction nkey with
  | nil => rfl
  | cons x nkey ih =>
    rw [cons_append, getDiffIndex, if_neg (by simp), ih]
    rfl

lemma getDiffIndex_split (q : List Nibble) {y : Nibble} {nrest krest : List Nibble} (hne : y ≠ x) :
    getDiffIndex (q ++ y :: nrest) (q ++ x :: krest) = .ok q.length := by
  induction q with
  | nil => rw [nil_append, nil_append, getDiffIndex, if_pos hne]; rfl
  | cons z q ih =>
    rw [cons_append, cons_append, getDiffIndex, if_neg (by simp), ih]
    rfl

lemma stacks_update {done : Nibble → Put → Prop} (h : ∀ i, Stacks C (children i) (c i.castSucc) (done i)) (x : Nibble)
    (hx : Stacks C st t done') (i : Nibble) :
    Stacks C (update children x st i) (update c x.castSucc t i.castSucc) (update done x done' i) := by
  by_cases hi : i = x
  · subst hi
    rwa [update_self, update_self, update_self]
  · have hne : i.castSucc ≠ x.castSucc := fun h => hi (Fin.castSucc_injective 16 h)
    rw [update_of_ne hi, update_of_ne hne, update_of_ne hi]
    exact h i

/-- A child for which more has been put. -/
lemma exists_update {done : Nibble → Put → Prop} {p : Put} {more : Prop}
    (h : done' p ↔ done x p ∨ more) : (∃ i, update done x done' i p) ↔ (∃ i, done i p) ∨ more := by
  constructor
  · rintro ⟨i, hi⟩
    by_cases hix : i = x
    · subst hix
      rw [update_self, h] at hi
      exact hi.imp_left fun hi => ⟨i, hi⟩
    · rw [update_of_ne hix] at hi
      exact .inl ⟨i, hi⟩
  · rintro (⟨i, hi⟩ | hmore)
    · by_cases hix : i = x
      · subst hix
        exact ⟨i, by rw [update_self, h]; exact .inl hi⟩
      · exact ⟨i, by rwa [update_of_ne hix]⟩
    · exact ⟨x, by rw [update_self, h]; exact .inr hmore⟩

lemma unresolveElder_spec {done : Nibble → Put → Prop} (h : ∀ i, Stacks C (children i) (c i.castSucc) (done i))
    {n : Nat} (hn : n ≤ 16) : ∃ done' : Nibble → Put →
      Prop, (∀ i, Stacks C ((unresolveElder C children n).1 i) (c i.castSucc) (done' i)) ∧
      (∀ p, (∃ i, done' i p) ↔ (∃ i, done i p) ∨ p ∈ (unresolveElder C children n).2) ∧ ∀ i : Nibble, n ≤ i.val →
      (unresolveElder C children n).1 i = children i ∧ done' i = done i := by
  induction n with
  | zero => exact ⟨done, h, by simp [unresolveElder], fun _ _ => ⟨rfl, rfl⟩⟩
  | succ n ih =>
    obtain ⟨done', hstacks, hdone, hkeep⟩ := ih (by omega)
    rw [unresolveElder]
    split
    · exact ⟨done', hstacks, hdone, fun i hi => hkeep i (by omega)⟩
    · exact ⟨done, h, by simp, fun _ _ => ⟨rfl, rfl⟩⟩
    · next hnil _ =>
      obtain ⟨hhash, hstored⟩ := (h (Fin.ofNat 16 n)).hash hnil
      refine ⟨update done (Fin.ofNat 16 n) fun p => Stored C p (c (Fin.ofNat 16 n).castSucc), ?_, ?_, ?_⟩
      · intro i
        have hupdate := stacks_update h (Fin.ofNat 16 n) hhash i
        rwa [update_eq_self] at hupdate
      · intro p
        exact exists_update (hstored p)
      · intro i hi
        have hne : i ≠ Fin.ofNat 16 n := by
          rintro rfl
          rw [Fin.val_ofNat, Nat.mod_eq_of_lt (by omega)] at hi
          omega
        exact ⟨update_of_ne hne _ _, update_of_ne hne _ _⟩

/-- A node that is hashed and a new leaf in a branch, the run before it if there is one, and
what has been put. -/
lemma stacks_fork {old new : Nibble} (q krest : List Nibble) (v : List UInt8) (h : Stacks C st t done) (hst : st ≠ .nil)
    (hlt : old < new) :
    let branch := .branch (update (update (fun _ => .nil) old (st.hash C).1) new (.leaf krest v))
    let fork := if q.length = 0 then branch else .ext q branch
    ∃ done', Stacks C fork (extend (q.map Fin.castSucc) (.full (update (update (fun _ => .nil) old.castSucc t)
        new.castSucc (.short (hexKey krest) (.value v))))) done' ∧
      (∀ p, done' p ↔ done p ∨ p ∈ (st.hash C).2) ∧ Open fork := by
  intro branch fork
  obtain ⟨hhash, hstored⟩ := h.hash hst
  have hold := stacks_update (c := fun _ => .nil) (fun _ => .nil) old hhash
  have hbranch := Stacks.branch (stacks_update hold new (.leaf krest v))
    (by rw [update_of_ne (castSucc_ne new).symm, update_of_ne (castSucc_ne old).symm])
  have hlast : Open branch := by
    refine ⟨new, by rw [update_self]; trivial, fun j hj => ?_⟩
    rw [update_of_ne hj.ne', update_of_ne (hlt.trans hj).ne']
  have hrun {c : HexDigit → HexTree} {done : Put → Prop} (hc : Stacks C branch (.full c) done) :
      Stacks C fork (extend (q.map Fin.castSucc) (.full c)) done := by
    by_cases hq : q = []
    · simpa [fork, hq, Tree.extend] using hc
    · simpa [fork, hq, Tree.extend] using Stacks.ext hq hc
  refine ⟨_, hrun hbranch, fun p => ?_, ?_⟩
  · have hput : (∃ i, update (fun _ _ => False) old (Stored C · t) i p) ↔ (∃ i : Nibble, False) ∨ Stored C p t :=
      exists_update (by simp)
    rw [exists_update (by rw [update_of_ne hlt.ne']; simp : False ↔ _ ∨ False), hput, hstored]
    simp
  · unfold fork
    split <;> exact hlast

/-- A key that parts from the run of a short node. -/
lemma insert_parted {old new : Nibble} (hlt : old < new) (q krest : List Nibble) (n : List HexDigit) (t : HexTree)
    (v : List UInt8) : (Tree.short (q.map Fin.castSucc ++ old.castSucc :: n) t).insert (hexKey (q ++ new :: krest)) v =
      extend (q.map Fin.castSucc) (.full (update (update (fun _ => .nil) old.castSucc (extend n t))
        new.castSucc (.short (hexKey krest) (.value v)))) := by
  have hne : old.castSucc ≠ new.castSucc := fun h => hlt.ne (Fin.castSucc_injective 16 h)
  have hnot : ¬ q.map Fin.castSucc ++ old.castSucc :: n <+: hexKey (q ++ new :: krest) := by
    rw [hexKey_append, prefix_append_right_inj, hexKey_cons, cons_prefix_cons]
    exact fun h => hne h.1
  rw [Tree.insert, if_neg hnot, hexKey_append, hexKey_cons, split_eq _ _ (prefixLen_apart _ hne.symm), extend_hexKey]

lemma Stacks.insert (h : Stacks C st t done) (v : List UInt8) (hopen : Open st) (hcanonical : t.Canonical)
    (hunder : Under t key) : ∃ st' puts done', st.insert C key v = .ok (st', puts) ∧
      Stacks C st' (t.insert (hexKey key) v) done' ∧ (∀ p, done' p ↔ done p ∨ p ∈ puts) ∧ Open st' := by
  induction h generalizing key with
  | nil => exact hopen.elim
  | hashed => exact hopen.elim
  | leaf nkey w =>
    obtain ⟨k', hk', hbelow⟩ := hunder (hexKey nkey) (by
      have := lookup_short_append (hexKey nkey) [] (.value w : HexTree)
      rw [append_nil] at this
      rw [this]
      simp)
    obtain rfl := hexKey_inj hk'
    obtain ⟨q, old, new, nrest, krest, rfl, rfl, hlt⟩ := hbelow.split
    obtain ⟨both, hstacks, hboth, hlast⟩ := stacks_fork q krest v (Stacks.leaf (C := C) nrest w) (by simp) hlt
    refine ⟨_, ((StackNode.leaf nrest w).hash C).2, both, ?_, ?_, hboth, hlast⟩
    · rw [StackNode.insert, getDiffIndex_split q hlt.ne, ok_bind, drop_left, drop_left, take_left]
      rfl
    · rw [hexKey_append q (old :: nrest), hexKey_cons, insert_parted hlt, extend_hexKey]
      exact hstacks
  | @ext nkey child c done hkey hchild ih =>
    by_cases hp : nkey <+: key
    · obtain ⟨r, rfl⟩ := hp
      obtain ⟨st', puts, done', hinsert, hstacks, hdone, hlast⟩ := ih hopen hcanonical.2.2 hunder.drop
      have hne : child ≠ .nil := by
        rintro rfl
        cases hchild
      obtain ⟨c', hc'⟩ : ∃ c', (Tree.full c).insert (hexKey r) v = .full c' := by
        obtain ⟨digit, rest, hr⟩ := exists_cons_of_ne_nil (hexKey_ne_nil r)
        exact ⟨_, by rw [hr, Tree.insert]⟩
      refine ⟨.ext nkey st', puts, done', ?_, ?_, hdone, hlast⟩
      · rw [StackNode.insert, getDiffIndex_append, ok_bind, if_pos rfl, drop_left, hinsert]
        rfl
      · rw [Tree.insert, hexKey_append, if_pos (prefix_append _ _), drop_left, hc']
        rw [hc'] at hstacks
        exact .ext hkey hstacks
    · -- the new key parts from the run, above it
      obtain ⟨k, w, hk⟩ := hcanonical.2.2.exists_entry (by simp)
      obtain ⟨k', hk', hbelow⟩ := hunder (nkey.map Fin.castSucc ++ k) (by rw [lookup_short_append, hk]; simp)
      obtain ⟨k'', rfl, -⟩ := hexKey_eq_append hk'
      have hbelow : Below nkey key := by
        rcases hbelow.of_append with ⟨r, rfl, -⟩ | hbelow
        · exact absurd (prefix_append nkey r) hp
        · exact hbelow
      obtain ⟨q, old, new, nrest, krest, rfl, rfl, hlt⟩ := hbelow.split
      have hrest : Stacks C (if q.length < (q ++ old :: nrest).length - 1 then .ext nrest child else child)
          (extend (nrest.map Fin.castSucc) (.full c)) done := by
        rw [Tree.extend]
        by_cases hnrest : nrest = []
        · simpa [hnrest] using hchild
        · have hpos : 0 < nrest.length := length_pos_iff.2 hnrest
          rw [if_pos (by simp; omega), if_neg (by simpa using hnrest)]
          exact .ext hnrest hchild
      have hne : (if q.length < (q ++ old :: nrest).length - 1 then .ext nrest child else child) ≠ .nil := by
        split
        · simp
        · rintro rfl
          cases hchild
      obtain ⟨both, hstacks, hboth, hlast⟩ := stacks_fork q krest v hrest hne hlt
      refine ⟨_, _, both, ?_, ?_, hboth, hlast⟩
      · rw [StackNode.insert, getDiffIndex_split q hlt.ne, ok_bind, if_neg (by simp), drop_left, drop_left, take_left]
        rfl
      · rw [map_append, map_cons, insert_parted hlt]
        exact hstacks
  | @branch children c done hchildren hend ih =>
    obtain ⟨x, rest, rfl⟩ := exists_cons_of_ne_nil (hunder.key_ne_nil hcanonical (by simp))
    obtain ⟨done₁, hstacks₁, hdone₁, hkeep⟩ := unresolveElder_spec hchildren x.isLt.le
    -- the children above are nil, as their keys would be above this one
    have habove : ∀ j, x < j → children j = .nil := by
      intro j hj
      apply (hchildren j).eq_nil
      by_contra hne
      exact absurd (hunder.le hcanonical hne) (not_le.2 hj)
    have hx := hkeep x le_rfl
    have hend' : ∀ t', update c x.castSucc t' 16 = .nil := fun t' => by
      rw [update_of_ne (castSucc_ne x).symm, hend]
    have hlast' : ∀ st', Open st' →
        Open (.branch (update (unresolveElder C children x.val).1 x st')) := fun st' hst' => by
      refine ⟨x, by rwa [update_self], fun j hj => ?_⟩
      rw [update_of_ne hj.ne', (hkeep j (Fin.le_iff_val_le_val.1 hj.le)).1, habove j hj]
    rw [hexKey_cons, Tree.insert]
    by_cases hnil : (children x).isNil = true
    · -- a new leaf
      have hcx := (hchildren x).isNil.1 hnil
      have hdone : ∀ p, ¬ done x p := by
        have hchild := hchildren x
        rw [hchild.eq_nil hcx] at hchild
        exact hchild.of_nil.2
      have hleaf : Stacks C (.leaf rest v) ((c x.castSucc).insert (hexKey rest) v) fun _ => False := by
        rw [hcx, Tree.insert, extend_hexKey]
        exact .leaf rest v
      refine ⟨_, (unresolveElder C children x.val).2, _, by rw [StackNode.insert]; exact if_pos hnil, .branch (stacks_update hstacks₁ x hleaf) (hend' _), ?_,
        hlast' _ trivial⟩
      intro p
      rw [exists_update (by rw [hx.2]; simp [hdone p] : False ↔ done₁ x p ∨ False), hdone₁]
      simp
    · have hopenx : Open (children x) := by
        obtain ⟨i, hi, hnone⟩ := hopen
        have hci : c i.castSucc ≠ .nil := fun h => by
          rw [(hchildren i).eq_nil h] at hi
          exact hi
        rcases (hunder.le hcanonical hci).lt_or_eq with hlt | rfl
        · rw [hnone x hlt] at hnil
          exact absurd rfl hnil
        · exact hi
      obtain ⟨st', puts, done', hinsert, hstacks, hdone, hlast⟩ := ih x hopenx (hcanonical.1 _) hunder.tail
      refine ⟨_, (unresolveElder C children x.val).2 ++ puts, _, ?_, .branch (stacks_update hstacks₁ x hstacks) (hend' _), ?_,
        hlast' _ hlast⟩
      · rw [StackNode.insert]
        dsimp only
        rw [if_neg hnil, hinsert]
        rfl
      · intro p
        rw [exists_update (by rw [hx.2]; exact hdone p), hdone₁, mem_append, or_assoc]

end Stacks

end TurboOctopus.Trie
