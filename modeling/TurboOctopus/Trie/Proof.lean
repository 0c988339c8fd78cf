import TurboOctopus.Trie.DecodeNode
import TurboOctopus.Trie.Committer
/-!
# Proofs of single keys

`Prove` writes the nodes on the path of a key, and `VerifyProof` follows them from the root
hash. With hashes that name their bytes, the verifier can only meet the nodes of the tree.
-/
namespace TurboOctopus.Trie

open Lib Lib.Rlp Lib.Patricia TurboOctopus.Types Rlp List Node
open Lib.Patricia.Tree hiding value

/-! ## `Prove` -/

/-- The loop of `Prove`: the nodes on the path, without the hash nodes. -/
def Node.provePath (db : NodeDb) : Nat → Node → List HexDigit → Except TrieError (List Node)
  | 0, _, _ => .error .endless
  | fuel + 1, n, key =>
    if key.length = 0 then .ok []
    else
      match n with
      | .empty => .ok []
      | .short nkey val _ =>
        if key.length < nkey.length ∨ nkey ≠ key.take nkey.length then .ok [n]
        else do
          let nodes ← Node.provePath db fuel val (key.drop nkey.length)
          return n :: nodes
      | .full children _ =>
        match key with
        | [] => .error .invalid
        | digit :: key => do
          let nodes ← Node.provePath db fuel (children digit) key
          return n :: nodes
      | .hash h => do
        let rn ← resolveHash db h []
        Node.provePath db fuel rn key
      | .value _ => .error .invalid

/-- The node, collapsed, and what it is hashed to. -/
def Node.proofHash (C : Crypto) : Node → Item × Hashed
  | .short key val _ =>
    let collapsed := Item.list [.str (hexToCompact key), (val.hashed C false).1.item]
    (collapsed, nodeToHash C collapsed false)
  | .full children _ =>
    let collapsed := Item.list ((List.finRange 17).map fun i =>
      if i = 16 then (children i).encode else ((children i).hashed C false).1.item)
    (collapsed, nodeToHash C collapsed false)
  | .hash h => (.str (Hash.bytes h), .hash h)
  | n => (n.encode, .node n.encode)

/-- What is put for the node at position `i`: the root also if it is small. -/
def proofElement (C : Crypto) (i : Nat) (n : Node) : List Put :=
  let (collapsed, hn) := n.proofHash C
  match hn with
  | .hash h => [(h, collapsed.encode)]
  | .node _ => if i = 0 then [(C.keccak256 collapsed.encode, collapsed.encode)] else []

def prove (C : Crypto) (t : Trie) (key : List UInt8) (fromLevel : Nat) : Except TrieError (List Put) := do
  let k := keybytesToHex key
  let nodes ← Node.provePath t.db (2 * k.length + 2) t.root k
  return (nodes.zipIdx.drop fromLevel).flatMap fun (n, i) => proofElement C i n

/-! ## `VerifyProof` -/

/-- The child on the path of the key; with `skipResolved`, the first that is no node. -/
def Node.get (skipResolved : Bool) : Node → List HexDigit → Except TrieError (List HexDigit × Node)
  | .short nkey val _, key =>
    if key.length < nkey.length ∨ nkey ≠ key.take nkey.length then .ok ([], .empty)
    else if skipResolved then val.get skipResolved (key.drop nkey.length)
    else .ok (key.drop nkey.length, val)
  | .full _ _, [] => .error .invalid
  | .full children _, digit :: key =>
    if skipResolved then (children digit).get skipResolved key else .ok (key, children digit)
  | .hash h, key => .ok (key, .hash h)
  | .empty, key => .ok (key, .empty)
  | .value v, _ => .ok ([], .value v)

inductive ProofError
  /-- `proof node … missing`. -/
  | missing (i : Nat) (hash : Hash)
  /-- `bad proof node …`. -/
  | bad (i : Nat) (err : NodeError)
  | panic (err : TrieError)
  /-- Out of fuel. -/
  | endless

/-- What `proofDb.Get` finds. -/
abbrev ProofDb := Hash → Option (List UInt8)

def verifyLoop (proofDb : ProofDb) : Nat → Nat → Hash → List HexDigit → Except ProofError (Option (List UInt8))
  | 0, _, _, _ => .error .endless
  | fuel + 1, i, wantHash, key =>
    match proofDb wantHash with
    | none => .error (.missing i wantHash)
    | some buf =>
      match decodeNode (buf.length + 1) (some wantHash) buf with
      | .error err => .error (.bad i err)
      | .ok n =>
        match n.get true key with
        | .error err => .error (.panic err)
        | .ok (_, .empty) => .ok none
        | .ok (keyrest, .hash cld) => verifyLoop proofDb fuel (i + 1) cld keyrest
        | .ok (_, .value cld) => .ok (some cld)
        -- no case of the switch: the same node again
        | .ok (_, _) => verifyLoop proofDb fuel (i + 1) wantHash key

def verifyProof (rootHash : Hash) (key : List UInt8) (proofDb : ProofDb) : Except ProofError (Option (List UInt8)) :=
  let k := keybytesToHex key
  verifyLoop proofDb (k.length + 1) 0 rootHash k

/-- The database that proof nodes were put to. -/
def proofDb (puts : List Put) : ProofDb := puts.foldl (fun db p => Function.update db p.1 (some p.2)) fun _ => none

lemma mem_of_proofDb {puts : List Put} {h : Hash} {b : List UInt8} (hdb : proofDb puts h = some b) :
    (h, b) ∈ puts := by
  induction puts using List.reverseRecOn with
  | nil => cases hdb
  | append_singleton puts p ih =>
    rw [proofDb, foldl_append] at hdb
    by_cases hp : h = p.1
    · simp only [foldl_cons, foldl_nil, hp, Function.update_self, Option.some.injEq] at hdb
      rw [hp, ← hdb]
      simp
    · simp only [foldl_cons, foldl_nil, Function.update_of_ne hp] at hdb
      exact mem_append_left _ (ih hdb)

lemma proofDb_ne_none {puts : List Put} {p : Put} (hp : p ∈ puts) : proofDb puts p.1 ≠ none := by
  induction puts using List.reverseRecOn with
  | nil => cases hp
  | append_singleton puts q ih =>
    rw [proofDb, foldl_append]
    by_cases hq : p.1 = q.1
    · simp [hq]
    · simp only [foldl_cons, foldl_nil, Function.update_of_ne hq]
      apply ih
      rcases mem_append.1 hp with hp | hp
      · exact hp
      · rw [mem_singleton.1 hp] at hq
        exact absurd rfl hq

/-! ## The path of a key -/

/-- The nodes of a tree on the path of a key. -/
def visited : HexTree → List HexDigit → List HexTree
  | .nil, _ => []
  | .value _, _ => []
  | .short p t, key => .short p t :: if p <+: key then visited t (key.drop p.length) else []
  | .full c, [] => [.full c]
  | .full c, digit :: key => .full c :: visited (c digit) key

lemma visited_inner {s t : HexTree} {key : List HexDigit} (h : s ∈ visited t key) : Inner s ∧ Part s t := by
  induction t generalizing key with
  | nil => cases h
  | value v => cases h
  | short p t ih =>
    rw [visited, mem_cons] at h
    rcases h with rfl | h
    · exact ⟨trivial, .inl rfl⟩
    · split at h
      · exact ⟨(ih h).1, .inr (ih h).2⟩
      · cases h
  | full c ih =>
    cases key with
    | nil =>
      rw [visited, mem_singleton] at h
      rw [h]
      exact ⟨trivial, .inl rfl⟩
    | cons digit key =>
      rw [visited, mem_cons] at h
      rcases h with rfl | h
      · exact ⟨trivial, .inl rfl⟩
      · exact ⟨(ih digit h).1, .inr ⟨digit, (ih digit h).2⟩⟩

lemma head_visited {t : HexTree} (ht : Inner t) (key : List HexDigit) : (visited t key)[0]? = some t := by
  cases t with
  | nil => exact ht.elim
  | value v => exact ht.elim
  | short p t => rfl
  | full c =>
    cases key with
    | nil => rfl
    | cons digit key => rfl

/-- A key that does not go on with the run. -/
lemma run_mismatch_iff (p key : List HexDigit) : (key.length < p.length ∨ p ≠ key.take p.length) ↔ ¬ p <+: key := by
  rw [prefix_iff_eq_take]
  constructor
  · rintro (h | h) heq
    · have := congrArg List.length heq
      rw [length_take] at this
      omega
    · exact h heq
  · exact .inr

section Prove
variable {C : Crypto} {db : NodeDb} {top : Bool} {n : Node} {t : HexTree} {key : List HexDigit}

lemma Loads.proofHash (hn : Loads C db top n t) (hended : Ended t) (ht : Inner t) (hnode : ∀ h, n ≠ .hash h) :
    n.proofHash C = (collapse C t, hashTree C t false) := by
  cases hn with
  | empty => exact ht.elim
  | value => exact ht.elim
  | hash => exact absurd rfl (hnode _)
  | @short _ nkey val flags t hval hflags =>
    rw [proofHash, (hval.hashed hended).1]
    rfl
  | @full _ children flags c hchildren hflags =>
    rw [proofHash, item_children ((hchildren 16).encode hended.2.1) fun i => ((hchildren i).hashed (hended.1 i)).1]
    rfl

/-- A node of the path and its tree. -/
structure OnPath (C : Crypto) (n : Node) (s : HexTree) : Prop where
  inner : Inner s
  proofHash : n.proofHash C = (collapse C s, hashTree C s false)

lemma Loads.onPath (hn : Loads C db top n t) (hended : Ended t) (ht : Inner t) (hnode : ∀ h, n ≠ .hash h) :
    OnPath C n t := ⟨ht, hn.proofHash hended ht hnode⟩

lemma Loads.provePath (fuel : Nat) (hn : Loads C db top n t) (hcanonical : t.Canonical) (hended : Ended t)
    (hapart : t.Apart key) (hfuel : 2 * key.length + n.cost ≤ fuel) :
    ∃ nodes, n.provePath db fuel key = .ok nodes ∧ List.Forall₂ (OnPath C) nodes (visited t key) := by
  induction fuel generalizing n t top key with
  | zero =>
    have := n.cost_pos
    omega
  | succ fuel ih =>
    cases hn with
    | empty =>
      refine ⟨[], ?_, .nil⟩
      rw [provePath, ite_self]
    | value _ v =>
      refine ⟨[], ?_, .nil⟩
      rw [hapart.value]
      rfl
    | @short _ nkey val flags t hval hflags =>
      have hne := Inner.key_ne_nil (t := .short nkey t) trivial hcanonical hapart
      have hnode : OnPath C (.short nkey val flags) (.short nkey t) :=
        (Loads.short hval hflags).onPath hended trivial (by simp)
      rw [provePath, if_neg (by simpa using hne), visited]
      by_cases hp : nkey <+: key
      · obtain ⟨r, rfl⟩ := hp
        have hpos : 0 < nkey.length := length_pos_iff.2 hcanonical.1
        have hcost := val.cost_le
        simp only [cost, length_append] at hfuel
        obtain ⟨nodes, hrun, hnodes⟩ := ih hval hcanonical.2.2 hended hapart.drop (by omega)
        rw [if_neg (by rw [run_mismatch_iff]; simp), if_pos (prefix_append _ _), drop_left, hrun]
        exact ⟨_, rfl, .cons hnode hnodes⟩
      · rw [if_pos ((run_mismatch_iff nkey key).2 hp), if_neg hp]
        exact ⟨_, rfl, .cons hnode .nil⟩
    | @full _ children flags c hchildren hflags =>
      have hnode : OnPath C (.full children flags) (.full c) :=
        (Loads.full hchildren hflags).onPath hended trivial (by simp)
      obtain ⟨digit, key, rfl⟩ :=
        exists_cons_of_ne_nil (Inner.key_ne_nil (t := .full c) trivial hcanonical hapart)
      have hcost := (children digit).cost_le
      simp only [cost, length_cons] at hfuel
      obtain ⟨nodes, hrun, hnodes⟩ :=
        ih (hchildren digit) (hcanonical.1 digit) (hended.1 digit) hapart.tail (by omega)
      rw [provePath, if_neg (by simp), visited]
      rw [hrun]
      exact ⟨_, rfl, .cons hnode hnodes⟩
    | @hash _ h rn _ hdb hrn hnode hinner hh hlong =>
      have hne := hinner.key_ne_nil hcanonical hapart
      simp only [cost] at hfuel
      obtain ⟨nodes, hrun, hnodes⟩ := ih hrn hcanonical hended hapart (by rw [cost_resolved hnode]; omega)
      refine ⟨nodes, ?_, hnodes⟩
      rw [provePath, if_neg (by simpa using hne), Trie.resolveHash, hdb]
      exact hrun

lemma OnPath.proofElement {s : HexTree} (h : OnPath C n s) (i : Nat) :
    proofElement C i n = if 32 ≤ (encodeTree C s).length ∨ i = 0 then [nodeOf C s] else [] := by
  rw [Trie.proofElement, h.proofHash]
  by_cases hlong : 32 ≤ (encodeTree C s).length
  · rw [hashTree_of_inner h.inner fun _ => hlong]
    simp only [hlong, true_or, if_true]
    rfl
  · rw [hashTree_of_short h.inner (by simpa using hlong)]
    simp only [hlong, false_or]
    rfl

lemma forall₂_getElem? {α β : Type} {R : α → β → Prop} {l : List α} {l' : List β} (h : List.Forall₂ R l l') (i : Nat) :
    (l[i]? = none ∧ l'[i]? = none) ∨ ∃ a b, l[i]? = some a ∧ l'[i]? = some b ∧ R a b := by
  induction h generalizing i with
  | nil => exact .inl ⟨rfl, rfl⟩
  | cons hab _ ih =>
    cases i with
    | zero => exact .inr ⟨_, _, rfl, rfl, hab⟩
    | succ i => simpa using ih i

/-- The nodes of the path that are put: the root, and those that are stored by their hash. -/
lemma Stands.prove {t : Trie} {tree : HexTree} (h : Stands C t tree) (key : List UInt8) :
    ∃ puts, t.prove C key 0 = .ok puts ∧ ∀ p, p ∈ puts ↔ ∃ i s, (visited tree (keybytesToHex key))[i]? = some s ∧
      (32 ≤ (encodeTree C s).length ∨ i = 0) ∧ p = nodeOf C s := by
  obtain ⟨nodes, hrun, hnodes⟩ :=
    h.loads.provePath _ h.canonical h.ended (h.apart key) (t.root.fuel_le (keybytesToHex key))
  refine ⟨nodes.zipIdx.flatMap fun p => Trie.proofElement C p.2 p.1, ?_, fun p => ?_⟩
  · rw [Trie.prove]
    rw [hrun]
    rfl
  · rw [mem_flatMap]
    constructor
    · rintro ⟨⟨n, i⟩, hmem, hp⟩
      rw [mem_zipIdx_iff_getElem?] at hmem
      rcases forall₂_getElem? hnodes i with ⟨hnone, -⟩ | ⟨n', s, hn', hs, hon⟩
      · rw [hnone] at hmem
        cases hmem
      cases hn'.symm.trans hmem
      rw [hon.proofElement] at hp
      split at hp
      · next hput => exact ⟨i, s, hs, hput, mem_singleton.1 hp⟩
      · cases hp
    · rintro ⟨i, s, hs, hput, rfl⟩
      rcases forall₂_getElem? hnodes i with ⟨-, hnone⟩ | ⟨n, s', hn, hs', hon⟩
      · rw [hnone] at hs
        cases hs
      cases hs'.symm.trans hs
      refine ⟨(n, i), mem_zipIdx_iff_getElem?.2 hn, ?_⟩
      rw [hon.proofElement, if_pos hput]
      exact mem_singleton_self _

end Prove

/-! ## What the verifier meets -/

section Verify
variable {C : Crypto} {t s : HexTree} {key rest : List HexDigit}

/-- A tree whose nodes can be read, and a key for it. -/
structure Readable (C : Crypto) (t : HexTree) (key : List HexDigit) : Prop where
  canonical : t.Canonical
  wire : Wire C t
  apart : t.Apart key

/-- The subtree of a stored node that the key of `t` goes on in. -/
structure Leads (C : Crypto) (t : HexTree) (key : List HexDigit) (s : HexTree) (rest : List HexDigit) : Prop where
  inner : Inner s
  long : 32 ≤ (encodeTree C s).length
  readable : Readable C s rest
  lookup : s.lookup rest = t.lookup key
  visited : ∀ u ∈ visited s rest, u ∈ visited t key

/-- What `get` stops at: nothing, the value, or the hash of a stored node. -/
inductive Found (C : Crypto) (t : HexTree) (key : List HexDigit) : List HexDigit → Node → Prop
  | absent (rest : List HexDigit) (h : t.lookup key = none) : Found C t key rest .empty
  | value {v : List UInt8} (h : t.lookup key = some v) : Found C t key [] (.value v)
  | hash {s : HexTree} {rest : List HexDigit} (h : Leads C t key s rest) :
      Found C t key rest (.hash (C.keccak256 (encodeTree C s)))

lemma Readable.drop {p : List HexDigit} (h : Readable C (.short p t) (p ++ key)) : Readable C t key :=
  ⟨h.canonical.2.2, h.wire.2.2, h.apart.drop⟩

lemma Readable.tail {c : HexDigit → HexTree} {digit : HexDigit} (h : Readable C (.full c) (digit :: key)) :
    Readable C (c digit) key :=
  ⟨h.canonical.1 digit, h.wire.2.2.2 digit, h.apart.tail⟩

lemma Found.short {n : Node} (p : List HexDigit) (h : Found C t key rest n) : Found C (.short p t) (p ++ key) rest n := by
  have hvisited : ∀ u ∈ visited t key, u ∈ visited (.short p t) (p ++ key) := fun u hu => by
    rw [visited, if_pos (prefix_append _ _), drop_left]
    exact mem_cons_of_mem _ hu
  cases h with
  | absent _ h => exact .absent rest (by rwa [lookup_short_append])
  | value h => exact .value (by rwa [lookup_short_append])
  | hash h =>
    exact .hash ⟨h.inner, h.long, h.readable, by rw [h.lookup, lookup_short_append],
      fun u hu => hvisited u (h.visited u hu)⟩

lemma Found.full {n : Node} {c : HexDigit → HexTree} {digit : HexDigit} (h : Found C (c digit) key rest n) :
    Found C (.full c) (digit :: key) rest n := by
  cases h with
  | absent _ h => exact .absent rest (by rwa [lookup_full_cons])
  | value h => exact .value (by rwa [lookup_full_cons])
  | hash h =>
    exact .hash ⟨h.inner, h.long, h.readable, by rw [h.lookup, lookup_full_cons],
      fun u hu => mem_cons_of_mem _ (h.visited u hu)⟩

/-- The child of a decoded node is a hash, or `get` goes on in it. -/
lemma get_embed (h : Readable C t key)
    (hget : ∃ rest n, (decoded C none t).get true key = .ok (rest, n) ∧ Found C t key rest n ∧ rest.length ≤ key.length) :
    ∃ rest n, (embed C t (decoded C none t)).get true key = .ok (rest, n) ∧ Found C t key rest n ∧
      rest.length ≤ key.length := by
  by_cases hlong : Inner t ∧ 32 ≤ (encodeTree C t).length
  · refine ⟨key, _, ?_, .hash ⟨hlong.1, hlong.2, h, rfl, fun _ => id⟩, le_rfl⟩
    rw [embed_long hlong.1 hlong.2]
    rfl
  · have hembed : embed C t (decoded C none t) = decoded C none t := by
      cases t with
      | nil => rfl
      | value v => rfl
      | short p t => exact embed_short (t := .short p t) trivial (fun hl => hlong ⟨trivial, hl⟩) _
      | full c => exact embed_short (t := .full c) trivial (fun hl => hlong ⟨trivial, hl⟩) _
    rwa [hembed]

/-- In the node of a tree, `get` follows the key; what is left is shorter. -/
lemma get_decoded (h : Readable C t key) (hash : Option Hash) : ∃ rest n, (decoded C hash t).get true key =
      .ok (rest, n) ∧ Found C t key rest n ∧ rest.length ≤ key.length ∧ (Inner t → rest.length < key.length) := by
  induction t generalizing key hash with
  | nil => exact ⟨key, .empty, rfl, .absent key (lookup_nil key), le_rfl, False.elim⟩
  | value v =>
    have hnil := h.apart.value
    subst hnil
    exact ⟨[], .value v, rfl, .value (lookup_value_nil v), le_rfl, False.elim⟩
  | short p t ih =>
    have hpos : 0 < p.length := length_pos_iff.2 h.canonical.1
    by_cases hp : p <+: key
    · obtain ⟨r, rfl⟩ := hp
      obtain ⟨rest, n, hget, hfound, hlen, -⟩ := ih h.drop none
      obtain ⟨rest, n, hget, hfound, hlen⟩ := get_embed h.drop ⟨rest, n, hget, hfound, hlen⟩
      refine ⟨rest, n, ?_, hfound.short p, ?_, fun _ => ?_⟩
      · rw [decoded, Node.get, if_neg (by rw [run_mismatch_iff]; simp), drop_left]
        exact hget
      · rw [length_append]
        omega
      · rw [length_append]
        omega
    · have hkey := Inner.key_ne_nil (t := .short p t) trivial h.canonical h.apart
      refine ⟨[], .empty, ?_, .absent [] (lookup_short_of_not t hp), Nat.zero_le _, fun _ => length_pos_iff.2 hkey⟩
      rw [decoded, Node.get, if_pos ((run_mismatch_iff p key).2 hp)]
  | full c ih =>
    obtain ⟨digit, key, rfl⟩ :=
      exists_cons_of_ne_nil (Inner.key_ne_nil (t := .full c) trivial h.canonical h.apart)
    obtain ⟨rest, n, hget, hfound, hlen, -⟩ := ih digit h.tail none
    obtain ⟨rest, n, hget, hfound, hlen⟩ := get_embed h.tail ⟨rest, n, hget, hfound, hlen⟩
    refine ⟨rest, n, ?_, hfound.full, ?_, fun _ => ?_⟩
    · rw [decoded, Node.get]
      exact hget
    · rw [length_cons]
      omega
    · rw [length_cons]
      omega

/-- A hash names the bytes of the node that it was made from. The empty tree has a root of
its own, the hash of the empty string's encoding. -/
structure CollisionFree (C : Crypto) (tree : HexTree) : Prop where
  root : ∀ b, C.keccak256 b = treeRoot C tree → b = encodeTree C tree
  nodes : ∀ s, Part s tree → Inner s → ∀ b, C.keccak256 b = C.keccak256 (encodeTree C s) → b = encodeTree C s

/-- From a node of the tree on, the verifier finds the entry, or misses a node of the path. -/
lemma verifyLoop_spec {db : ProofDb} (hdb : ∀ h b, db h = some b → C.keccak256 b = h) {fuel : Nat} (i : Nat)
    (ht : Inner t) (hread : Readable C t key)
    (hfree : ∀ s ∈ visited t key, ∀ b, C.keccak256 b = C.keccak256 (encodeTree C s) → b = encodeTree C s)
    (hfuel : key.length < fuel) :
    verifyLoop db fuel i (C.keccak256 (encodeTree C t)) key = .ok (t.lookup key) ∨
      ∃ j s, verifyLoop db fuel i (C.keccak256 (encodeTree C t)) key = .error (.missing j (C.keccak256 (encodeTree C s))) ∧
        db (C.keccak256 (encodeTree C s)) = none ∧ s ∈ visited t key ∧ (s = t ∨ 32 ≤ (encodeTree C s).length) := by
  induction fuel generalizing t key i with
  | zero => omega
  | succ fuel ih =>
    have hmem : t ∈ visited t key := mem_of_getElem? (head_visited ht key)
    cases hbuf : db (C.keccak256 (encodeTree C t)) with
    | none =>
      refine .inr ⟨i, t, ?_, hbuf, hmem, .inl rfl⟩
      rw [verifyLoop, hbuf]
    | some buf =>
      -- the bytes can only be the node's own
      obtain rfl := hfree t hmem buf (hdb _ _ hbuf)
      have hdecode := decodeNode_encode ht hread.wire (Nat.le_succ _) (some (C.keccak256 (encodeTree C t))) []
      rw [append_nil] at hdecode
      obtain ⟨rest, n, hget, hfound, -, hlen⟩ := get_decoded hread (some (C.keccak256 (encodeTree C t)))
      have hlen := hlen ht
      rw [verifyLoop, hbuf]
      dsimp only
      rw [hdecode]
      dsimp only
      rw [hget]
      cases hfound with
      | absent _ h => exact .inl (by rw [h])
      | value h => exact .inl (by rw [h])
      | @hash s _ h =>
        rcases ih (i + 1) h.inner h.readable (fun u hu => hfree u (h.visited u hu)) (by omega) with hok | hmiss
        · exact .inl (by rw [← h.lookup]; exact hok)
        · obtain ⟨j, u, hmiss, hnone, hu, hstored⟩ := hmiss
          refine .inr ⟨j, u, hmiss, hnone, h.visited u hu, .inr ?_⟩
          rcases hstored with rfl | hlong
          · exact h.long
          · exact hlong

end Verify

section Proofs
variable {C : Crypto} {t : Trie} {tree : HexTree}

/-- A trie whose values and encodings are slices: an empty value has been a deletion. -/
structure Provable (C : Crypto) (t : Trie) (tree : HexTree) : Prop extends Stands C t tree where
  values : ∀ key, entries tree key ≠ some []
  fits : ∀ s, Part s tree → (encodeTree C s).length < 2 ^ 64

lemma Provable.readable (h : Provable C t tree) (key : List UInt8) : Readable C tree (keybytesToHex key) where
  canonical := h.canonical
  wire := by
    refine wire_of_keys h.canonical (fun k hk => ?_) (fun k hk => ?_) h.fits
    · obtain ⟨key, rfl⟩ := h.keys k hk
      exact ending_keybytesToHex key
    · obtain ⟨key, rfl⟩ := h.keys k (by simp [hk])
      exact h.values key hk
  apart := h.apart key

lemma inner_of_ne_nil (h : Stands C t tree) (hnil : tree ≠ .nil) : Inner tree := by
  cases htree : tree with
  | nil => exact absurd htree hnil
  | value v => exact absurd htree (h.ne_value v)
  | short key t => trivial
  | full c => trivial

/-- What the verifier can answer at all, over any database of preimages. -/
lemma Provable.verify (h : Provable C t tree) (hfree : CollisionFree C tree) (hinner : Inner tree) {db : ProofDb}
    (hdb : ∀ h b, db h = some b → C.keccak256 b = h) (key : List UInt8) : verifyProof (treeRoot C tree) key db =
      .ok (entries tree key) ∨ ∃ j s, verifyProof (treeRoot C tree) key db =
      .error (.missing j (C.keccak256 (encodeTree C s))) ∧ db (C.keccak256 (encodeTree C s)) = none ∧
      s ∈ visited tree (keybytesToHex key) ∧ (s = tree ∨ 32 ≤ (encodeTree C s).length) := by
  rw [treeRoot_of_inner hinner]
  refine verifyLoop_spec hdb 0 hinner (h.readable key) (fun s hs => ?_) (Nat.lt_succ_self _)
  obtain ⟨hs, hpart⟩ := visited_inner hs
  exact hfree.nodes s hpart hs

lemma verifyProof_nil {db : ProofDb} (hfree : CollisionFree C .nil) (hdb : ∀ h b, db h = some b → C.keccak256 b = h)
    (key : List UInt8) :
    verifyProof emptyRoot key db = .error (.missing 0 emptyRoot) ∨ ∃ err, verifyProof emptyRoot key db = .error (.bad 0 err) := by
  rw [verifyProof, verifyLoop]
  cases hbuf : db emptyRoot with
  | none => exact .inl rfl
  | some buf =>
    obtain rfl : buf = [0x80] := hfree.root buf (hdb _ _ hbuf)
    exact .inr ⟨_, rfl⟩

/-- The proof of a key verifies to its value, and no proof verifies to another one. -/
theorem proofs_sound_and_complete (h : Provable C t tree) (hfree : CollisionFree C tree) (key : List UInt8) :
    ∃ root t' t'', t.hash C = .ok (root, t') ∧ t.tryGet key = .ok (entries tree key, t'') ∧
      (tree ≠ .nil → ∃ puts, t.prove C key 0 = .ok puts ∧ verifyProof root key (proofDb puts) = .ok (entries tree key)) ∧
      (tree = .nil → t.prove C key 0 = .ok [] ∧ verifyProof root key (proofDb []) = .error (.missing 0 root)) ∧
      ∀ db : ProofDb, (∀ h b, db h = some b → C.keccak256 b = h) →
        verifyProof root key db ≠ .error .endless ∧ (∀ err, verifyProof root key db ≠ .error (.panic err)) ∧
        ∀ value, verifyProof root key db = .ok value → value = entries tree key := by
  obtain ⟨t', hhash, -⟩ := h.hash
  obtain ⟨t'', hget, -⟩ := h.toStands.tryGet key
  obtain ⟨puts, hprove, hputs⟩ := h.toStands.prove key
  refine ⟨treeRoot C tree, t', t'', hhash, hget, fun hnil => ⟨puts, hprove, ?_⟩, ?_, fun db hdb => ?_⟩
  · have hinner := inner_of_ne_nil h.toStands hnil
    have hdb : ∀ h b, proofDb puts h = some b → C.keccak256 b = h := by
      intro h b hb
      obtain ⟨i, s, -, -, hp⟩ := (hputs _).1 (mem_of_proofDb hb)
      cases hp
      rfl
    rcases h.verify hfree hinner hdb key with hok | ⟨j, s, -, hnone, hs, hstored⟩
    · exact hok
    · -- every node that can be missed was put
      obtain ⟨i, hi⟩ := mem_iff_getElem?.1 hs
      have hput : nodeOf C s ∈ puts := by
        rw [hputs]
        rcases hstored with rfl | hlong
        · exact ⟨0, s, head_visited hinner _, .inr rfl, rfl⟩
        · exact ⟨i, s, hi, .inl hlong, rfl⟩
      exact absurd hnone (proofDb_ne_none hput)
  · rintro rfl
    have hempty : puts = [] := by
      apply eq_nil_iff_forall_not_mem.2
      intro p hp
      obtain ⟨i, s, hs, -⟩ := (hputs p).1 hp
      simp [visited] at hs
    rw [hempty] at hprove
    exact ⟨hprove, rfl⟩
  · by_cases hnil : tree = .nil
    · subst hnil
      have hroot : treeRoot C .nil = emptyRoot := rfl
      rw [hroot]
      rcases verifyProof_nil hfree hdb key with herr | ⟨err, herr⟩
      · rw [herr]
        exact ⟨nofun, nofun, nofun⟩
      · rw [herr]
        exact ⟨nofun, nofun, nofun⟩
    · rcases h.verify hfree (inner_of_ne_nil h.toStands hnil) hdb key with hok | ⟨j, s, herr, -⟩
      · rw [hok]
        refine ⟨nofun, nofun, fun value hvalue => ?_⟩
        cases hvalue
        rfl
      · rw [herr]
        exact ⟨nofun, nofun, nofun⟩

/-- With every node at hand, the verifier reads the entries off the root. -/
lemma Provable.answer (h : Provable C t tree) (hfree : CollisionFree C tree) (key : List UInt8) :
    (verifyProof (treeRoot C tree) key (Function.partialInv C.keccak256)).toOption.join = entries tree key := by
  have hdb : ∀ h b, Function.partialInv C.keccak256 h = some b → C.keccak256 b = h := by
    intro h b hb
    obtain ⟨hex, hb⟩ := Option.dite_none_right_eq_some.1 hb
    exact Option.some.inj hb ▸ hex.choose_spec
  by_cases hnil : tree = .nil
  · subst hnil
    change (verifyProof emptyRoot key _).toOption.join = none
    rcases verifyProof_nil hfree hdb key with herr | ⟨err, herr⟩ <;> rw [herr] <;> rfl
  · rcases h.verify hfree (inner_of_ne_nil h.toStands hnil) hdb key with hok | ⟨-, s, -, hnone, -⟩
    · rw [hok]
      rfl
    · simp [Function.partialInv] at hnone

/-- A root stands for what the trie answers. -/
theorem same_root_iff {t' : Trie} {tree' : HexTree} (h : Provable C t tree) (h' : Provable C t' tree')
    (hfree : CollisionFree C tree) (hfree' : CollisionFree C tree') : (t.hash C).map Prod.fst = (t'.hash C).map Prod.fst ↔
      ∀ key, (t.tryGet key).map Prod.fst = (t'.tryGet key).map Prod.fst := by
  obtain ⟨_, hhash, -⟩ := h.hash
  obtain ⟨_, hhash', -⟩ := h'.hash
  have hentries : (∀ key, (t.tryGet key).map Prod.fst = (t'.tryGet key).map Prod.fst) ↔ entries tree = entries tree' := by
    rw [funext_iff]
    refine forall_congr' fun key => ?_
    obtain ⟨_, hget, -⟩ := h.toStands.tryGet key
    obtain ⟨_, hget', -⟩ := h'.toStands.tryGet key
    simp [hget, hget', Except.map]
  rw [hhash, hhash', hentries]
  constructor
  · intro hroot
    have hsame : treeRoot C tree = treeRoot C tree' := Except.ok.inj hroot
    -- One table of nodes serves both roots.
    funext key
    rw [← h.answer hfree, ← h'.answer hfree', hsame]
  · intro heq
    rw [h.toStands.ext h'.toStands heq]
    rfl

end Proofs

/-- The empty trie has no node to put. -/
theorem empty_trie_proof_missing :
    (⟨fun _ => none, .empty⟩ : Trie).prove ⟨fun _ => 0, fun _ _ => none⟩ [1] 0 = .ok [] ∧
      (⟨fun _ => none, .empty⟩ : Trie).tryGet [1] = .ok (none, ⟨fun _ => none, .empty⟩) ∧
      (⟨fun _ => none, .empty⟩ : Trie).hash ⟨fun _ => 0, fun _ _ => none⟩ = .ok (emptyRoot, ⟨fun _ => none, .empty⟩) ∧
      verifyProof emptyRoot [1] (proofDb []) = .error (.missing 0 emptyRoot) :=
  ⟨rfl, rfl, rfl, rfl⟩

/-! ## A small trie -/

/-- The leaf of the key 0, which is stored by its hash. -/
def longLeaf : HexTree := .short [0, 16] (.value (replicate 32 7))

/-- The leaf of the key 16, which is part of the node above it. -/
def shortLeaf : HexTree := .short [0, 16] (.value [7])

def twoLeaves : HexTree := .full fun i => if i = 0 then longLeaf else if i = 1 then shortLeaf else .nil

/-- A hash that tells the nodes from all other bytes. -/
def leafCrypto : Crypto where
  keccak256 b :=
    if b = encodeTree ⟨fun _ => 0, fun _ _ => none⟩ longLeaf then 1
    else if b = encodeTree ⟨fun _ => 1, fun _ _ => none⟩ twoLeaves then 2
    else if b = encodeTree ⟨fun _ => 0, fun _ _ => none⟩ shortLeaf then 3 else 0
  ecrecover _ _ := none

def twoLeavesNode : Node :=
  .full (fun i => if i = 0 then .short [0, 16] (.value (replicate 32 7)) newFlag
    else if i = 1 then .short [0, 16] (.value [7]) newFlag else .empty) newFlag

lemma lookup_leaf {v w : List UInt8} {k : List HexDigit} (h : (.short [0, 16] (.value v) : HexTree).lookup k = some w) :
    k = [0, 16] ∧ w = v := by
  obtain ⟨r, rfl, hr⟩ := lookup_short_some h
  cases r with
  | nil => simpa [eq_comm] using hr
  | cons x r => simp at hr

lemma lookup_twoLeaves {k : List HexDigit} {v : List UInt8} (h : twoLeaves.lookup k = some v) :
    (∃ key, k = keybytesToHex key) ∧ v ≠ [] := by
  cases k with
  | nil => simp [twoLeaves] at h
  | cons i k =>
    change (if i = 0 then longLeaf else if i = 1 then shortLeaf else .nil : HexTree).lookup k = some v at h
    split_ifs at h with h0 h1
    · obtain ⟨rfl, rfl⟩ := lookup_leaf h
      exact ⟨⟨[0], by rw [h0]; decide⟩, by simp⟩
    · obtain ⟨rfl, rfl⟩ := lookup_leaf h
      exact ⟨⟨[16], by rw [h1]; decide⟩, by simp⟩
    · simp at h

lemma part_twoLeaves {s : HexTree} (hs : Part s twoLeaves) :
    s ∈ [twoLeaves, longLeaf, shortLeaf, .value (replicate 32 7), .value [7], .nil] := by
  rcases hs with rfl | ⟨i, hi⟩
  · exact mem_cons_self
  · dsimp only at hi
    split_ifs at hi
    · rcases hi with rfl | rfl <;> simp [longLeaf]
    · rcases hi with rfl | rfl <;> simp [shortLeaf]
    · simp [show s = .nil from hi]

/-- The trie with its nodes in memory, or under any root that loads as they do. -/
lemma twoLeaves_provable {t : Trie} (h : Loads leafCrypto t.db true t.root twoLeaves) : Provable leafCrypto t twoLeaves where
  loads := h
  canonical := by
    refine ⟨fun i => ?_, 0, 1, by decide, by simp [longLeaf], by simp [shortLeaf]⟩
    dsimp only
    split_ifs
    · exact ⟨by simp, trivial, trivial⟩
    · exact ⟨by simp, trivial, trivial⟩
    · trivial
  keys k hk := by
    obtain ⟨v, hv⟩ := Option.ne_none_iff_exists'.1 hk
    exact (lookup_twoLeaves hv).1
  values key hkey := (lookup_twoLeaves hkey).2 rfl
  fits s hs := (show ∀ s ∈ [twoLeaves, longLeaf, shortLeaf, .value (replicate 32 7), .value [7], .nil],
    (encodeTree leafCrypto s).length < 2 ^ 64 by decide +kernel) s (part_twoLeaves hs)

lemma twoLeaves_loads (db : NodeDb) : Loads leafCrypto db true twoLeavesNode twoLeaves := by
  refine .full (fun i => ?_) (cached_newFlag _ _)
  split_ifs
  · exact .short (.value _ _) (cached_newFlag _ _)
  · exact .short (.value _ _) (cached_newFlag _ _)
  · exact .empty _

lemma leafCrypto_inj {b b' : List UInt8} (h : leafCrypto.keccak256 b = leafCrypto.keccak256 b')
    (hb : leafCrypto.keccak256 b' ≠ 0) : b = b' := by
  simp only [leafCrypto] at h hb
  split_ifs at h hb <;> simp_all

lemma twoLeaves_collisionFree : CollisionFree leafCrypto twoLeaves := by
  have hnonzero : ∀ s ∈ [twoLeaves, longLeaf, shortLeaf], leafCrypto.keccak256 (encodeTree leafCrypto s) ≠ 0 := by
    decide +kernel
  refine ⟨fun b hb => leafCrypto_inj hb (hnonzero _ mem_cons_self), fun s hs hinner b hb => ?_⟩
  refine leafCrypto_inj hb (hnonzero s ?_)
  have hmem := part_twoLeaves hs
  simp only [mem_cons, not_mem_nil, or_false] at hmem ⊢
  rcases hmem with rfl | rfl | rfl | rfl | rfl | rfl
  · exact .inl rfl
  · exact .inr (.inl rfl)
  · exact .inr (.inr rfl)
  all_goals exact hinner.elim

/-- The proof of the first entry has two nodes, of which the second is found by its hash. -/
theorem linked_entry_proof : ∃ root t' puts, (⟨fun _ => none, twoLeavesNode⟩ : Trie).hash leafCrypto = .ok (root, t') ∧
    (⟨fun _ => none, twoLeavesNode⟩ : Trie).prove leafCrypto [0] 0 = .ok puts ∧ puts.length = 2 ∧
    verifyProof root [0] (proofDb puts) = .ok (some (replicate 32 7)) := by
  obtain ⟨root, t', -, hhash, -, hcomplete, -⟩ :=
    proofs_sound_and_complete (twoLeaves_provable (t := ⟨fun _ => none, twoLeavesNode⟩) (twoLeaves_loads _))
      twoLeaves_collisionFree [0]
  obtain ⟨puts, hprove, hverify⟩ := hcomplete (by simp [twoLeaves])
  have hlen : ((⟨fun _ => none, twoLeavesNode⟩ : Trie).prove leafCrypto [0] 0).map length = .ok 2 := by decide +kernel
  rw [hprove] at hlen
  exact ⟨root, t', puts, hhash, hprove, Except.ok.inj hlen, hverify⟩

/-- The nodes in memory, and the root alone. -/
theorem same_root_stored : ((⟨fun _ => none, twoLeavesNode⟩ : Trie).tryGet [0]).map Prod.fst =
    ((⟨fun _ => some twoLeavesNode, .hash 2⟩ : Trie).tryGet [0]).map Prod.fst := by
  have h := twoLeaves_provable (t := ⟨fun _ => none, twoLeavesNode⟩) (twoLeaves_loads _)
  have h' := twoLeaves_provable (t := ⟨fun _ => some twoLeavesNode, .hash 2⟩)
    (.hash rfl (twoLeaves_loads _) nofun trivial (by decide +kernel) nofun)
  refine (same_root_iff h h' twoLeaves_collisionFree twoLeaves_collisionFree).1 ?_ [0]
  obtain ⟨_, hhash, -⟩ := h.hash
  obtain ⟨_, hhash', -⟩ := h'.hash
  rw [hhash, hhash']
  rfl

end TurboOctopus.Trie
