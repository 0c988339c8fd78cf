import TurboOctopus.Trie.Node
/-!
# Hashing

A collapsed node is the RLP item that it is written as: children of 32 bytes or more are
there by their hash, smaller ones are embedded. What a node is hashed to is a function of
the tree that it stands for, whatever part of it is loaded and whatever hashes are cached.
-/
open TurboOctopus.Lib TurboOctopus.Lib.Rlp TurboOctopus.Lib.Patricia TurboOctopus.Types

namespace TurboOctopus.Trie

/-! ## The hasher -/

/-- What `encode` writes for a node as it stands. -/
def Node.encode : Node → Item
  | empty => .str []
  | value v => .str v
  | hash h => .str (Hash.bytes h)
  | short key val _ => .list [.str (key.map fun digit => UInt8.ofNat digit.val), val.encode]
  | full children _ => .list ((List.finRange 17).map fun i => (children i).encode)

/-- What `hasher.hash` makes of a node: the node, collapsed, or its hash. -/
inductive Hashed
  | node (item : Item)
  | hash (h : Hash)

def Hashed.item : Hashed → Item
  | node item => item
  | hash h => .str (Hash.bytes h)

section Hasher
variable (C : Crypto)

/-- `shortnodeToHash` and `fullnodeToHash`. -/
def nodeToHash (collapsed : Item) (force : Bool) : Hashed :=
  if collapsed.encode.length < 32 ∧ force = false then .node collapsed
  else .hash (C.keccak256 collapsed.encode)

/-- The flags of the cached node. -/
def NodeFlag.cache (flags : NodeFlag) : Hashed → NodeFlag
  | .hash h => { flags with hash := some h }
  | .node _ => { flags with hash := none }

/-- `hasher.hash`: what goes into the parent, and the node with its hashes cached. The
value of a full node stays as it is. -/
def Node.hashed : Node → Bool → Hashed × Node
  | empty, _ => (.node (.str []), empty)
  | value v, _ => (.node (.str v), value v)
  | hash h, _ => (.hash h, hash h)
  | short key val flags, force =>
    match flags.hash with
    | some h => (.hash h, short key val flags)
    | none =>
      let child := val.hashed false
      let hashed := nodeToHash C (.list [.str (hexToCompact key), child.1.item]) force
      (hashed, short key child.2 (flags.cache hashed))
  | full children flags, force =>
    match flags.hash with
    | some h => (.hash h, full children flags)
    | none =>
      let child := fun i => (children i).hashed false
      let collapsed := fun i => if i = 16 then (children i).encode else (child i).1.item
      let hashed := nodeToHash C (.list ((List.finRange 17).map collapsed)) force
      (hashed, full (fun i => if i = 16 then children i else (child i).2) (flags.cache hashed))

end Hasher

/-- A key and a value for the database. -/
abbrev Put := Hash × List UInt8

/-- The root of a trie without entries. -/
def emptyRoot : Hash := 0x56e81f171bcc55a6ff8345e692c0f86e5b48e01b996cadc001622fb5e363b421

end TurboOctopus.Trie

namespace TurboOctopus

open Trie

/-- `Trie.Hash`. A root that is a value has no hash. -/
def Trie.hash (C : Crypto) (t : Trie) : Except TrieError (Hash × Trie) :=
  match t.root with
  | .empty => .ok (emptyRoot, t)
  | root =>
    match root.hashed C true with
    | (.hash h, cached) => .ok (h, { t with root := cached })
    | (.node _, _) => .error .invalid

end TurboOctopus

namespace TurboOctopus.Trie

/-! ## Trees -/

/-- A trie with all of its nodes loaded. -/
abbrev HexTree := Tree HexDigit (List UInt8)

section Trees
variable (C : Crypto)

/-- What a tree with this encoding is hashed to. -/
def hashAs (t : HexTree) (collapsed : Item) (force : Bool) : Hashed :=
  match t with
  | .nil => .node collapsed
  | .value _ => .node collapsed
  | .short _ _ => nodeToHash C collapsed force
  | .full _ => nodeToHash C collapsed force

def collapse : HexTree → Item
  | .nil => .str []
  | .value v => .str v
  | .short key t => .list [.str (hexToCompact key), (hashAs C t (collapse t) false).item]
  | .full c => .list ((List.finRange 17).map fun i => (hashAs C (c i) (collapse (c i)) false).item)

def hashTree (t : HexTree) (force : Bool) : Hashed := hashAs C t (collapse C t) force

def encodeTree (t : HexTree) : List UInt8 := (collapse C t).encode

def treeRoot (t : HexTree) : Hash :=
  match t with
  | .nil => emptyRoot
  | t => C.keccak256 (encodeTree C t)

end Trees

/-- A tree that is a node of its own in the database. -/
def Inner : HexTree → Prop
  | .nil => False
  | .value _ => False
  | .short _ _ => True
  | .full _ => True

/-- Nothing goes on after the end of a key, and values are nowhere else. -/
def Ended : HexTree → Prop
  | .nil => True
  | .value _ => True
  | .short _ t => Ended t
  | .full c => (∀ i, Ended (c i)) ∧ ¬ Inner (c 16) ∧ ∀ i, i ≠ 16 → ∀ v, c i ≠ .value v

section Loads
variable {C : Crypto} {db : NodeDb} {top : Bool} {n : Node} {t : HexTree} {h : Hash}

lemma hashTree_of_inner (ht : Inner t) (hlong : top = false → 32 ≤ (encodeTree C t).length) :
    hashTree C t top = .hash (C.keccak256 (encodeTree C t)) := by
  have hforce : ¬ ((collapse C t).encode.length < 32 ∧ top = false) := by
    rintro ⟨hshort, htop⟩
    have := hlong htop
    rw [encodeTree] at this
    omega
  cases t with
  | nil => exact ht.elim
  | value v => exact ht.elim
  | short key t => rw [hashTree, hashAs, nodeToHash, if_neg hforce, encodeTree]
  | full c => rw [hashTree, hashAs, nodeToHash, if_neg hforce, encodeTree]

lemma hashTree_of_short (ht : Inner t) (hshort : ¬ (top = false → 32 ≤ (encodeTree C t).length)) :
    hashTree C t top = .node (collapse C t) := by
  rw [Classical.not_imp, not_le, encodeTree] at hshort
  cases t with
  | nil => exact ht.elim
  | value v => exact ht.elim
  | short key t => rw [hashTree, hashAs, nodeToHash, if_pos hshort.symm]
  | full c => rw [hashTree, hashAs, nodeToHash, if_pos hshort.symm]

/-- Only nodes of 32 bytes or more have their hash cached, apart from the root. -/
def Cached (C : Crypto) (top : Bool) (flags : NodeFlag) (t : HexTree) : Prop :=
  ∀ h, flags.hash = some h → h = C.keccak256 (encodeTree C t) ∧ (top = false → 32 ≤ (encodeTree C t).length)

/-- A node, with the database for its hash nodes, is a tree. -/
inductive Loads (C : Crypto) (db : NodeDb) : Bool → Node → HexTree → Prop
  | empty (top : Bool) : Loads C db top .empty .nil
  | value (top : Bool) (v : List UInt8) : Loads C db top (.value v) (.value v)
  | short {top : Bool} {key : List HexDigit} {val : Node} {flags : NodeFlag} {t : HexTree}
      (hval : Loads C db false val t) (hflags : Cached C top flags (.short key t)) :
      Loads C db top (.short key val flags) (.short key t)
  | full {top : Bool} {children : HexDigit → Node} {flags : NodeFlag} {c : HexDigit → HexTree}
      (hchildren : ∀ i, Loads C db false (children i) (c i)) (hflags : Cached C top flags (.full c)) :
      Loads C db top (.full children flags) (.full c)
  | hash {top : Bool} {h : Hash} {n : Node} {t : HexTree} (hdb : db h = some n) (hn : Loads C db true n t)
      (hnode : ∀ h', n ≠ .hash h') (ht : Inner t) (hh : h = C.keccak256 (encodeTree C t))
      (hlong : top = false → 32 ≤ (encodeTree C t).length) : Loads C db top (.hash h) t

lemma cached_newFlag (top : Bool) (t : HexTree) : Cached C top newFlag t := by
  intro h hh
  simp [newFlag] at hh

variable {top' : Bool}

lemma Cached.relax (hc : Cached C top flags t) (hlong : top' = false → 32 ≤ (encodeTree C t).length) :
    Cached C top' flags t := fun h hh => ⟨(hc h hh).1, hlong⟩

/-- The root may become a child if it is long enough. -/
lemma Loads.relax (hn : Loads C db top n t) (hlong : top' = false → 32 ≤ (encodeTree C t).length) :
    Loads C db top' n t := by
  cases hn with
  | empty => exact .empty top'
  | value => exact .value top' _
  | short hval hflags => exact .short hval (hflags.relax hlong)
  | full hchildren hflags => exact .full hchildren (hflags.relax hlong)
  | hash hdb hn hnode ht hh _ => exact .hash hdb hn hnode ht hh hlong

/-- What is loaded does not leave a choice. -/
lemma Loads.unique (hn : Loads C db top n t) {t' : HexTree} (hn' : Loads C db top' n t') : t = t' := by
  induction hn generalizing top' t' with
  | empty => cases hn'; rfl
  | value => cases hn'; rfl
  | short _ _ ih =>
    cases hn' with
    | short hval _ => rw [ih hval]
  | full _ _ ih =>
    cases hn' with
    | full hchildren _ => rw [funext fun i => ih i (hchildren i)]
  | hash hdb _ _ _ _ _ ih =>
    cases hn' with
    | hash hdb' hn' _ _ _ _ =>
      rw [hdb, Option.some.injEq] at hdb'
      subst hdb'
      exact ih hn'

lemma Loads.isEmpty (hn : Loads C db top n t) : n.isEmpty = true ↔ t = .nil := by
  cases hn with
  | empty => simp [Node.isEmpty]
  | value => simp [Node.isEmpty]
  | short => simp [Node.isEmpty]
  | full => simp [Node.isEmpty]
  | hash _ _ _ ht _ _ =>
    have : t ≠ .nil := by
      rintro rfl
      exact ht
    simp [Node.isEmpty, this]

/-! ## What is hashed -/

/-- A node that is no node of the database is written as it stands. -/
lemma Loads.encode (hn : Loads C db top n t) (ht : ¬ Inner t) : hashTree C t false = .node n.encode := by
  cases hn with
  | empty => rfl
  | value => rfl
  | short => exact absurd trivial ht
  | full => exact absurd trivial ht
  | hash _ _ _ hinner => exact absurd hinner ht

lemma cached_cache (flags : NodeFlag) (t : HexTree) (ht : Inner t) (top : Bool) :
    Cached C top (flags.cache (hashTree C t top)) t := by
  intro h hh
  by_cases hlong : top = false → 32 ≤ (encodeTree C t).length
  · rw [hashTree_of_inner ht hlong] at hh
    simp only [NodeFlag.cache, Option.some.injEq] at hh
    exact ⟨hh.symm, hlong⟩
  · -- the node is embedded, and nothing is cached
    simp [hashTree_of_short ht hlong, NodeFlag.cache] at hh

lemma Loads.hashed (hn : Loads C db top n t) (hended : Ended t) :
    (n.hashed C top).1 = hashTree C t top ∧ Loads C db top (n.hashed C top).2 t := by
  induction hn with
  | empty => exact ⟨rfl, .empty _⟩
  | value => exact ⟨rfl, .value _ _⟩
  | @short top key val flags t hval hflags ih =>
    rw [Node.hashed]
    split
    · next h hh =>
      obtain ⟨hkeccak, hlong⟩ := hflags h hh
      rw [hashTree_of_inner (t := .short key t) trivial hlong, hkeccak]
      exact ⟨rfl, .short hval hflags⟩
    · obtain ⟨hchild, hcached⟩ := ih hended
      have hcollapse : nodeToHash C (.list [.str (hexToCompact key), (val.hashed C false).1.item]) top =
          hashTree C (.short key t) top := by
        rw [hchild]
        rfl
      dsimp only
      rw [hcollapse]
      exact ⟨rfl, .short hcached (cached_cache flags (.short key t) trivial top)⟩
  | @full top children flags c hchildren hflags ih =>
    rw [Node.hashed]
    split
    · next h hh =>
      obtain ⟨hkeccak, hlong⟩ := hflags h hh
      rw [hashTree_of_inner (t := .full c) trivial hlong, hkeccak]
      exact ⟨rfl, .full hchildren hflags⟩
    · have hitem : (fun i => if i = 16 then (children i).encode else ((children i).hashed C false).1.item) =
          fun i => (hashTree C (c i) false).item := by
        funext i
        split
        · next hi =>
          rw [hi, (hchildren 16).encode hended.2.1]
          rfl
        · rw [(ih i (hended.1 i)).1]
      have hcollapse : nodeToHash C (.list ((List.finRange 17).map fun i =>
          if i = 16 then (children i).encode else ((children i).hashed C false).1.item)) top =
          hashTree C (.full c) top := by
        rw [hitem]
        rfl
      dsimp only
      rw [hcollapse]
      refine ⟨rfl, .full (fun i => ?_) (cached_cache flags (.full c) trivial top)⟩
      split
      · exact hchildren i
      · exact (ih i (hended.1 i)).2
  | hash hdb hn hnode ht hh hlong =>
    rw [Node.hashed, hashTree_of_inner ht hlong, hh]
    refine ⟨rfl, ?_⟩
    rw [← hh]
    exact .hash hdb hn hnode ht hh hlong

end Loads

section Root
variable {C : Crypto} {t : Trie} {tree : HexTree}

lemma treeRoot_of_inner (ht : Inner tree) : treeRoot C tree = C.keccak256 (encodeTree C tree) := by
  cases tree with
  | nil => exact ht.elim
  | value v => exact ht.elim
  | short key t => rfl
  | full c => rfl

lemma hash_of_inner (hroot : Loads C t.db true t.root tree) (hended : Ended tree) (ht : Inner tree) :
    t.hash C = .ok (treeRoot C tree, { t with root := (t.root.hashed C true).2 }) := by
  have hhash := (hroot.hashed hended).1
  rw [hashTree_of_inner ht (by simp)] at hhash
  rw [Trie.hash, treeRoot_of_inner ht]
  split
  · next hempty =>
    have hnil : tree = .nil := hroot.isEmpty.1 (by rw [hempty]; rfl)
    rw [hnil] at ht
    exact ht.elim
  · split
    · next heq =>
      rw [heq] at hhash
      cases hhash
      rw [heq]
    · next heq =>
      rw [heq] at hhash
      cases hhash

lemma Loads.empty_of_not_inner {db : NodeDb} {top : Bool} {n : Node} (h : Loads C db top n tree)
    (hvalue : ∀ v, tree ≠ .value v) (ht : ¬ Inner tree) : n = .empty ∧ tree = .nil := by
  cases h with
  | empty => exact ⟨rfl, rfl⟩
  | value _ v => exact absurd rfl (hvalue v)
  | short => exact absurd trivial ht
  | full => exact absurd trivial ht
  | hash _ _ _ hinner => exact absurd hinner ht

lemma hash_loads (hroot : Loads C t.db true t.root tree) (hended : Ended tree) (hvalue : ∀ v, tree ≠ .value v) :
    ∃ t', t.hash C = .ok (treeRoot C tree, t') ∧ Loads C t'.db true t'.root tree := by
  by_cases ht : Inner tree
  · exact ⟨_, hash_of_inner hroot hended ht, (hroot.hashed hended).2⟩
  · have hempty := hroot.empty_of_not_inner hvalue ht
    refine ⟨t, ?_, hroot⟩
    rw [Trie.hash, hempty.1, hempty.2]
    rfl

end Root

end TurboOctopus.Trie
