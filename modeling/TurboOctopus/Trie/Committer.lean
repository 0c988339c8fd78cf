import TurboOctopus.Trie.History
/-!
# Committing a trie

The committer goes through the nodes that are not in the database yet, after all of them
have been hashed, and stores those that have a hash. What is stored is exactly the nodes
of the tree of 32 bytes or more, and the root.
-/
open TurboOctopus.Lib TurboOctopus.Lib.Rlp TurboOctopus.Lib.Patricia TurboOctopus.Types

namespace TurboOctopus.Trie

/-- `store`: a node without a hash stays in its parent. -/
def store (flags : NodeFlag) (collapsed : Item) (puts : List Put) : Hashed × List Put :=
  match flags.hash with
  | none => (.node collapsed, puts)
  | some h => (.hash h, puts ++ [(h, collapsed.encode)])

/-- A child below 16 of a full node. -/
def commitChild (child : Node) (committed : Except TrieError (Hashed × List Put)) : Except TrieError (Hashed × List Put) :=
  match child with
  | .empty => .ok (.node (.str []), [])
  | .hash h => .ok (.hash h, [])
  | _ => committed

/-- The node as it is in its parent, and what is stored. -/
def Node.commit : Node → Except TrieError (Hashed × List Put)
  | short key val flags =>
    match flags.hash, flags.dirty with
    | some h, false => .ok (.hash h, [])
    | _, _ =>
      match val with
      | full _ _ => do
        let (child, puts) ← val.commit
        return store flags (.list [.str (hexToCompact key), child.item]) puts
      | val => .ok (store flags (.list [.str (hexToCompact key), val.encode]) [])
  | full children flags =>
    match flags.hash, flags.dirty with
    | some h, false => .ok (.hash h, [])
    | _, _ => do
      let hashedKids ← (List.finRange 17).mapM fun i =>
        if i = 16 then .ok (.node (children i).encode, []) else commitChild (children i) (children i).commit
      return store flags (.list (hashedKids.map fun kid => kid.1.item)) (hashedKids.flatMap fun kid => kid.2)
  | hash h => .ok (.hash h, [])
  | _ => .error .invalid

def Node.dirty : Node → Bool
  | short _ _ flags => flags.dirty
  | full _ flags => flags.dirty
  | _ => true

end TurboOctopus.Trie

namespace TurboOctopus

open Trie

/-- `Trie.Commit`: the root, what is stored, and the trie with its nodes unloaded. -/
def Trie.commit (C : Crypto) (t : Trie) : Except TrieError (Hash × List Put × Trie) := do
  match t.root with
  | .empty => return (emptyRoot, [], t)
  | _ =>
    let (rootHash, t) ← t.hash C
    if t.root.dirty then
      match ← t.root.commit with
      | (.hash h, puts) => return (rootHash, puts, { t with root := .hash h })
      | (.node _, _) => throw .invalid
    else return (rootHash, [], t)

end TurboOctopus

namespace TurboOctopus.Trie

section Stored
variable (C : Crypto)

def nodeOf (t : HexTree) : Put := (C.keccak256 (encodeTree C t), encodeTree C t)

/-- The nodes of a tree that are stored by their hash, wherever the tree is. -/
def Stored (p : Put) : HexTree → Prop
  | .nil => False
  | .value _ => False
  | .short key t => Stored p t ∨ (p = nodeOf C (.short key t) ∧ 32 ≤ (encodeTree C (.short key t)).length)
  | .full c => (∃ i, Stored p (c i)) ∨ (p = nodeOf C (.full c) ∧ 32 ≤ (encodeTree C (.full c)).length)

end Stored

/-- Nodes as the calls make them: nothing is hashed or unloaded. -/
def Fresh : Node → Prop
  | .empty => True
  | .value _ => True
  | .hash _ => False
  | .short _ val flags => flags = newFlag ∧ Fresh val
  | .full children flags => flags = newFlag ∧ ∀ i, Fresh (children i)

section Commit
variable {C : Crypto} {db : NodeDb} {top : Bool} {n : Node} {t : HexTree}

/-- The hash is there if the node is long enough or the root. -/
lemma store_cached (ht : Inner t) (top : Bool) (puts : List Put) :
    ∃ puts', store (newFlag.cache (hashTree C t top)) (collapse C t) puts = (hashTree C t top, puts') ∧
      ∀ p, p ∈ puts' ↔ p ∈ puts ∨ p = nodeOf C t ∧ (top = false → 32 ≤ (encodeTree C t).length) := by
  by_cases hlong : top = false → 32 ≤ (encodeTree C t).length
  · rw [hashTree_of_inner ht hlong]
    refine ⟨puts ++ [nodeOf C t], rfl, fun p => ?_⟩
    rw [List.mem_append, List.mem_singleton, and_iff_left hlong]
  · rw [hashTree_of_short ht hlong]
    refine ⟨puts, rfl, fun p => ?_⟩
    simp [hlong]

variable {key : List HexDigit}

variable {flags : NodeFlag}

lemma commit_short_value {v : List UInt8} (hdirty : flags.dirty = true) :
    (Node.short key (.value v) flags).commit = .ok (store flags (.list [.str (hexToCompact key), .str v]) []) := by
  rw [Node.commit, hdirty]
  · cases flags.hash <;> rfl
  · simp

variable {children : HexDigit → Node}

lemma commit_short_full {flags' : NodeFlag} {child : Hashed}
    {puts : List Put} (hdirty : flags.dirty = true) (hchild : (Node.full children flags').commit = .ok (child, puts)) :
    (Node.short key (.full children flags') flags).commit =
      .ok (store flags (.list [.str (hexToCompact key), child.item]) puts) := by
  rw [Node.commit, hdirty, hchild]
  cases flags.hash <;> rfl

lemma commit_full (children : HexDigit → Node) (kids : HexDigit → Hashed × List Put)
    (hdirty : flags.dirty = true) (hend : kids 16 = (.node (children 16).encode, []))
    (hkids : ∀ i, i ≠ 16 → commitChild (children i) (children i).commit = .ok (kids i)) :
    (Node.full children flags).commit =
      .ok (store flags (.list ((List.finRange 17).map fun i => (kids i).1.item)) ((List.finRange 17).flatMap fun i => (kids i).2)) := by
  have hmap : ((List.finRange 17).mapM fun i => if i = 16 then
      (.ok (.node (children i).encode, []) : Except TrieError (Hashed × List Put))
      else commitChild (children i) (children i).commit) = .ok ((List.finRange 17).map kids) := by
    apply mapM_ok
    intro i _
    split
    · next hi => rw [hi, hend]
    · next hi => exact hkids i hi
  rw [Node.commit, hdirty, hmap]
  cases flags.hash <;> simp [List.flatMap_map, Function.comp_def]

lemma hashed_short {val : Node} (hval : (val.hashed C false).1 = hashTree C t false) :
    (Node.short key val newFlag).hashed C top =
      (hashTree C (.short key t) top, .short key (val.hashed C false).2 (newFlag.cache (hashTree C (.short key t) top))) := by
  have hcollapse : hashTree C (.short key t) top =
      nodeToHash C (.list [.str (hexToCompact key), (val.hashed C false).1.item]) top := by
    rw [hval]
    rfl
  rw [hcollapse]
  rfl

lemma dirty_cache (hashed : Hashed) : (newFlag.cache hashed).dirty = true := by
  cases hashed <;> rfl

section
variable {c : HexDigit → HexTree} (hend : hashTree C (c 16) false = .node (children 16).encode)
  (hchildren : ∀ i, ((children i).hashed C false).1 = hashTree C (c i) false)
include hend hchildren

lemma item_children :
    (fun i => if i = 16 then (children i).encode else ((children i).hashed C false).1.item) =
      fun i => (hashTree C (c i) false).item := by
  funext i
  split
  · next hi =>
    rw [hi, hend]
    rfl
  · rw [hchildren i]

lemma hashed_full :
    (Node.full children newFlag).hashed C top =
      (hashTree C (.full c) top, .full (fun i => if i = 16 then children i else ((children i).hashed C false).2)
        (newFlag.cache (hashTree C (.full c) top))) := by
  have hcollapse : hashTree C (.full c) top = nodeToHash C (.list ((List.finRange 17).map fun i =>
      if i = 16 then (children i).encode else ((children i).hashed C false).1.item)) top := by
    rw [item_children hend hchildren]
    rfl
  rw [hcollapse]
  rfl

end

lemma commitChild_of_ne_empty (hn : n ≠ .empty) : commitChild n n.commit = n.commit := by
  cases n with
  | empty => exact absurd rfl hn
  | hash h => rfl
  | _ => rfl

lemma not_stored (ht : ¬ Inner t) (p : Put) : ¬ Stored C p t := by
  cases t with
  | nil => exact id
  | value v => exact id
  | short key t => exact absurd trivial ht
  | full c => exact absurd trivial ht

lemma stored_or_root (own : Prop) (top : Bool) (p : Put) :
    own ∨ (p = nodeOf C t ∧ (top = false → 32 ≤ (encodeTree C t).length)) ↔
      (own ∨ (p = nodeOf C t ∧ 32 ≤ (encodeTree C t).length)) ∨ (top = true ∧ p = nodeOf C t) := by
  cases top with
  | true => tauto
  | false => simp

/-- A node that was made by calls, after hashing. -/
lemma Loads.commit (hn : Loads C db top n t) (hfresh : Fresh n) (hcanonical : t.Canonical) (hended : Ended t)
    (ht : Inner t) : ∃ puts, (n.hashed C top).2.commit = .ok (hashTree C t top, puts) ∧ ∀ p, p ∈ puts ↔ Stored C p t ∨
      (top = true ∧ p = nodeOf C t) := by
  induction hn with
  | empty => exact ht.elim
  | value => exact ht.elim
  | hash => exact hfresh.elim
  | @short top key val flags t hval hflags ih =>
    obtain ⟨rfl, hfresh⟩ := hfresh
    rw [hashed_short (hval.hashed hended).1]
    cases hval with
    | empty => exact hcanonical.2.1.elim
    | hash => exact hfresh.elim
    | short => exact hcanonical.2.1.elim
    | value _ v =>
      obtain ⟨puts, hstore, hmem⟩ := store_cached (C := C) (t := .short key (.value v)) trivial top []
      refine ⟨puts, ?_, fun p => (hmem p).trans ?_⟩
      · exact (commit_short_value (dirty_cache _)).trans (congrArg _ hstore)
      · rw [Stored, Stored, stored_or_root]
        simp
    | @full _ children flags c hchildren hflags =>
      obtain ⟨puts, hcommit, hmem⟩ := ih hfresh hcanonical.2.2 hended trivial
      obtain ⟨rfl, -⟩ := hfresh
      obtain ⟨puts', hstore, hmem'⟩ := store_cached (C := C) (t := .short key (.full c)) trivial top puts
      refine ⟨puts', ?_, fun p => (hmem' p).trans ?_⟩
      · exact (commit_short_full (dirty_cache _) hcommit).trans (congrArg _ hstore)
      · rw [Stored, stored_or_root, hmem]
        simp
  | @full top children flags c hchildren hflags ih =>
    obtain ⟨rfl, hfresh⟩ := hfresh
    have hend := (hchildren 16).encode hended.2.1
    have hkids : ∀ i, ∃ puts, (i = 16 → puts = []) ∧ (i ≠ 16 →
        commitChild ((children i).hashed C false).2 ((children i).hashed C false).2.commit =
          .ok (hashTree C (c i) false, puts)) ∧ ∀ p, p ∈ puts ↔ Stored C p (c i) := by
      intro i
      by_cases hinner : Inner (c i)
      · obtain ⟨puts, hcommit, hmem⟩ := ih i (hfresh i) (hcanonical.1 i) (hended.1 i) hinner
        refine ⟨puts, fun hi => absurd (hi ▸ hinner) hended.2.1, fun _ => ?_, by simpa using hmem⟩
        rw [← hcommit]
        apply commitChild_of_ne_empty
        intro hempty
        exact hinner.ne_nil (((hchildren i).hashed (hended.1 i)).2.isEmpty.1 (by rw [hempty]; rfl))
      · refine ⟨[], fun _ => rfl, fun hi => ?_, fun p => ?_⟩
        · have hvalue := hended.2.2 i hi
          have hchild := hchildren i
          generalize c i = t at hinner hvalue hchild
          generalize children i = n at hchild
          cases hchild with
          | empty => rfl
          | value _ v => exact absurd rfl (hvalue v)
          | short => exact absurd trivial hinner
          | full => exact absurd trivial hinner
          | hash _ _ _ ht => exact absurd ht hinner
        · simp [not_stored hinner p]
    choose puts hnone hcommit hmem using hkids
    obtain ⟨puts', hstore, hmem'⟩ := store_cached (C := C) (t := .full c) trivial top ((List.finRange 17).flatMap puts)
    rw [hashed_full hend fun i => ((hchildren i).hashed (hended.1 i)).1]
    refine ⟨puts', ?_, fun p => (hmem' p).trans ?_⟩
    · have hfull := commit_full (fun i => if i = 16 then children i else ((children i).hashed C false).2)
        (fun i => (hashTree C (c i) false, puts i)) (dirty_cache (hashTree C (.full c) top))
        (by simp [hend, hnone 16]) fun i hi => by simpa [hi] using hcommit i hi
      exact hfull.trans (congrArg _ hstore)
    · rw [Stored, stored_or_root]
      simp [hmem]

lemma insert_end {fuel : Nat} {path : List HexDigit} {leaf n' : Node} {dirty : Bool}
    (hinsert : n.insert db (fuel + 1) path [] leaf = .ok (dirty, n')) : n' = leaf := by
  cases n <;> cases leaf <;> cases hinsert <;> rfl

lemma fresh_update (hchildren : ∀ i, Fresh (children i)) (digit : HexDigit) (hn : Fresh n)
    (i : HexDigit) : Fresh (Function.update children digit n i) := by
  by_cases hi : i = digit
  · subst hi
    rwa [Function.update_self]
  · rw [Function.update_of_ne hi]
    exact hchildren i

/-- Calls that insert leave nothing hashed or unloaded. -/
lemma insert_fresh {fuel : Nat} {path : List HexDigit} {leaf n' : Node} {dirty : Bool}
    (hinsert : n.insert db fuel path key leaf = .ok (dirty, n')) (hn : Fresh n) (hleaf : Fresh leaf) : Fresh n' := by
  induction fuel generalizing n path key leaf dirty n' with
  | zero => cases hinsert
  | succ fuel ih =>
    cases key with
    | nil =>
      rw [insert_end hinsert]
      exact hleaf
    | cons digit rest =>
      cases n with
      | empty =>
        rw [Node.insert] at hinsert
        cases hinsert
        exact ⟨rfl, hleaf⟩
      | value v => cases hinsert
      | hash h => exact hn.elim
      | full children flags =>
        rw [Node.insert] at hinsert
        obtain ⟨⟨dirty', nn⟩, hchild, hresult⟩ := bind_ok_iff.1 hinsert
        have hnn := ih hchild (hn.2 digit) hleaf
        cases dirty' with
        | false =>
          cases hresult
          exact hn
        | true =>
          cases hresult
          exact ⟨rfl, fresh_update hn.2 digit hnn⟩
      | short nkey val flags =>
        rw [Node.insert] at hinsert
        split at hinsert
        · obtain ⟨⟨dirty', nn⟩, hchild, hresult⟩ := bind_ok_iff.1 hinsert
          have hnn := ih hchild hn.2 hleaf
          cases dirty' with
          | false =>
            cases hresult
            exact hn
          | true =>
            cases hresult
            exact ⟨rfl, hnn⟩
        · split at hinsert
          · next old nrest new krest _ _ =>
            obtain ⟨⟨_, oldChild⟩, hold, hrest⟩ := bind_ok_iff.1 hinsert
            obtain ⟨⟨_, newChild⟩, hnew, hresult⟩ := bind_ok_iff.1 hrest
            have hempty : ∀ i : HexDigit, Fresh .empty := fun _ => trivial
            have hbranch := fresh_update (fresh_update hempty old (ih hold trivial hn.2)) new (ih hnew trivial hleaf)
            cases hresult
            split
            · exact ⟨rfl, hbranch⟩
            · exact ⟨rfl, rfl, hbranch⟩
          · cases hinsert

lemma Fresh.dirty (hn : Fresh n) (force : Bool) : (n.hashed C force).2.dirty = true := by
  cases n with
  | empty => rfl
  | value v => rfl
  | hash h => rfl
  | short key val flags =>
    obtain ⟨rfl, -⟩ := hn
    exact dirty_cache _
  | full children flags =>
    obtain ⟨rfl, -⟩ := hn
    exact dirty_cache _

end Commit

/-- What committing a trie with this tree stores. -/
def Committed (C : Crypto) (p : Put) (tree : HexTree) : Prop := Inner tree ∧ (Stored C p tree ∨ p = nodeOf C tree)

lemma Stands.commit {C : Crypto} {t : Trie} {tree : HexTree} (h : Stands C t tree) (hfresh : Fresh t.root) :
    ∃ puts t', t.commit C = .ok (treeRoot C tree, puts, t') ∧ ∀ p, p ∈ puts ↔ Committed C p tree := by
  by_cases ht : Inner tree
  · obtain ⟨puts, hcommit, hmem⟩ := h.loads.commit hfresh h.canonical h.ended ht
    have hhash := hash_of_inner h.loads h.ended ht
    refine ⟨puts, { t with root := .hash (C.keccak256 (encodeTree C tree)) }, ?_, fun p => ?_⟩
    · have hroot : t.root ≠ .empty := by
        intro hempty
        exact ht.ne_nil (h.loads.isEmpty.1 (by rw [hempty]; rfl))
      rw [hashTree_of_inner ht (by simp)] at hcommit
      rw [Trie.commit]
      split
      · next hempty => exact absurd hempty hroot
      · rw [hhash, ok_bind]
        dsimp only
        rw [if_pos (hfresh.dirty true), hcommit]
        rfl
    · rw [hmem, Committed]
      simp [ht]
  · have hempty := h.loads.empty_of_not_inner h.ne_value ht
    refine ⟨[], t, ?_, fun p => by simp [Committed, ht]⟩
    rw [Trie.commit, hempty.1, hempty.2]
    rfl

end TurboOctopus.Trie
