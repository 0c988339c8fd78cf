import TurboOctopus.Trie.Compact
import TurboOctopus.Rlp.Raw
/-!
# Nodes from bytes

`decodeNode` and what it makes of the encoding of a tree: the node, with the children that
are stored by their hash as hash nodes and the embedded ones below it.
-/
namespace TurboOctopus.Trie

open Lib Lib.Rlp Lib.Patricia TurboOctopus.Types Rlp List
open Lib.Patricia.Tree hiding value

/-! ## Compact keys -/

def compactToHex (compact : List UInt8) : List HexDigit :=
  if compact.length = 0 then []
  else
    let base := keybytesToHex compact
    let flag := (base.headD 0).val
    -- the terminator goes if there is no flag for it, and the padding nibble if the length is even
    let base := if flag < 2 then base.dropLast else base
    base.drop (2 - flag % 2)

lemma keybytesToHex_cons (b : UInt8) (str : List UInt8) :
    keybytesToHex (b :: str) = Fin.ofNat 17 (b.toNat / 16) :: Fin.ofNat 17 (b.toNat % 16) :: keybytesToHex str := rfl

lemma keybytesToHex_pair (a b : Nibble) (str : List UInt8) :
    keybytesToHex (UInt8.ofNat (a.val * 16 + b.val) :: str) = a.castSucc :: b.castSucc :: keybytesToHex str := by
  have ha := a.isLt
  have hb := b.isLt
  rw [keybytesToHex_cons, UInt8.toNat_ofNat']
  congr 2
  · apply Fin.ext
    simp only [Fin.val_ofNat, Fin.val_castSucc]
    omega
  · apply Fin.ext
    simp only [Fin.val_ofNat, Fin.val_castSucc]
    omega

lemma keybytesToHex_decodeNibbles (key : List Nibble) (heven : key.length % 2 = 0) :
    keybytesToHex (decodeNibbles (key.map Fin.castSucc)) = hexKey key := by
  match key with
  | [] => rfl
  | [_] => cases heven
  | a :: b :: rest =>
    have hrest := keybytesToHex_decodeNibbles rest (by simp only [length_cons] at heven; omega)
    simp only [map_cons, decodeNibbles, Fin.val_castSucc]
    rw [keybytesToHex_pair, hrest]
    rfl

lemma dropLast_cons_concat {α : Type} (x y : α) (l : List α) : (x :: (l ++ [y])).dropLast = x :: l := by
  rw [← cons_append, dropLast_concat]

/-- The flag and its digit are taken off again. -/
lemma compactToHex_cons (key : List Nibble) (terminator : Fin 2) :
    compactToHex ((if key.length % 2 = 1 then UInt8.ofNat (terminator.val * 32 + 16 + (key.headD 0).val)
        else UInt8.ofNat (terminator.val * 32)) :: decodeNibbles ((key.drop (key.length % 2)).map Fin.castSucc)) =
      key.map Fin.castSucc ++ if terminator = 1 then [16] else [] := by
  have hterm := terminator.isLt
  rw [compactToHex, if_neg (by simp)]
  have hrest := keybytesToHex_decodeNibbles (key.drop (key.length % 2)) (by rw [length_drop]; omega)
  by_cases hodd : key.length % 2 = 1
  · obtain ⟨a, rest, rfl⟩ := exists_cons_of_ne_nil (show key ≠ [] by rintro rfl; cases hodd)
    have hflag : UInt8.ofNat (terminator.val * 32 + 16 + a.val) =
        UInt8.ofNat ((⟨terminator.val * 2 + 1, by omega⟩ : Nibble).val * 16 + a.val) := by
      congr 1
      dsimp only
      omega
    rw [hodd] at hrest ⊢
    simp only [headD_cons, if_true, drop_succ_cons, drop_zero] at hrest ⊢
    rw [hflag, keybytesToHex_pair, hrest]
    simp only [headD_cons, Fin.val_castSucc, hexKey]
    rcases Fin.exists_fin_two.1 ⟨terminator, rfl⟩ with rfl | rfl
    · simp [dropLast_cons_concat]
    · simp
  · have hzero : key.length % 2 = 0 := by omega
    have hflag : UInt8.ofNat (terminator.val * 32) =
        UInt8.ofNat ((⟨terminator.val * 2, by omega⟩ : Nibble).val * 16 + (0 : Nibble).val) := by
      congr 1
      simp
      omega
    rw [hzero] at hrest ⊢
    simp only [drop_zero] at hrest ⊢
    rw [if_neg (by omega), hflag, keybytesToHex_pair, hrest]
    simp only [headD_cons, Fin.val_castSucc, hexKey]
    rcases Fin.exists_fin_two.1 ⟨terminator, rfl⟩ with rfl | rfl
    · simp [dropLast_cons_concat]
    · simp

lemma compactToHex_leaf (key : List Nibble) : compactToHex (hexToCompact (hexKey key)) = hexKey key := by
  rw [hexToCompact_cons key 1 (by rw [hasTerm_hexKey]; rfl) (by rw [hasTerm_hexKey]; simp [hexKey])]
  exact compactToHex_cons key 1

lemma compactToHex_ext (key : List Nibble) :
    compactToHex (hexToCompact (key.map Fin.castSucc)) = key.map Fin.castSucc := by
  rw [hexToCompact_cons key 0 (by rw [hasTerm_map]; rfl) (by rw [hasTerm_map]; rfl)]
  exact (compactToHex_cons key 0).trans (append_nil _)

def hexToKeybytes (hex : List HexDigit) : Option (List UInt8) :=
  let hex := if hasTerm hex then hex.dropLast else hex
  -- `can't convert hex key of odd length`
  if hex.length % 2 ≠ 0 then none else some (decodeNibbles hex)

lemma hexToKeybytes_keybytesToHex (str : List UInt8) : hexToKeybytes (keybytesToHex str) = some str := by
  have hterm : hasTerm (nibbles str ++ [16]) = true := by simp [hasTerm]
  have hlen : (nibbles str).length % 2 = 0 := by simp [nibbles]
  rw [keybytesToHex_eq, hexToKeybytes, if_pos hterm, dropLast_concat, if_neg (not_not.2 hlen), decodeNibbles_nibbles]

theorem key_encodings_agree (key : List Nibble) (str : List UInt8) :
    (∀ hex ∈ [key.map Fin.castSucc, hexKey key], compactToHex (hexToCompact hex) = hex ∧
      (hex ≠ [] → compactInPlace (hex.map fun digit => UInt8.ofNat digit.val) = hexToCompact hex)) ∧
      hexToKeybytes (keybytesToHex str) = some str := by
  have hbytes : (key.map Fin.castSucc).map (fun digit => UInt8.ofNat digit.val) = nibbleBytes key := map_map ..
  refine ⟨?_, hexToKeybytes_keybytesToHex str⟩
  rw [forall_mem_cons, forall_mem_singleton]
  refine ⟨⟨compactToHex_ext key, fun hne => ?_⟩, compactToHex_leaf key, fun _ => ?_⟩
  · rw [hbytes, compactInPlace_ext fun h => hne (by rw [h]; rfl)]
  · rw [← compactInPlace_leaf, hexKey, map_append, hbytes]
    rfl

/-! ## The decoder -/

inductive NodeError
  | unexpectedEOF
  | raw (err : DecodeError)
  /-- `decode error: …`. -/
  | list (err : DecodeError)
  /-- `invalid number of list elements: …`. -/
  | elements (count : Nat)
  /-- `invalid value node: …`. -/
  | value (err : DecodeError)
  /-- `oversized embedded node (size is … bytes, want size < 32)`. -/
  | oversized (size : Nat)
  /-- `invalid RLP string size … (want 0 or 32)`. -/
  | stringSize (size : Nat)
  /-- With the path to the child. -/
  | wrapped (what : NodeError) (stack : List String)
  /-- Out of fuel. -/
  | endless

def wrapError (err : NodeError) (ctx : String) : NodeError :=
  match err with
  | .wrapped what stack => .wrapped what (stack ++ [ctx])
  | err => .wrapped err [ctx]

section Decode
variable (embedded : List UInt8 → Except NodeError Node)

def decodeRef (buf : List UInt8) : Except NodeError (Node × List UInt8) :=
  match Raw.split buf with
  | .error err => .error (.raw err)
  | .ok (kind, val, rest) =>
    if kind = .list then
      if buf.length - rest.length > 32 then .error (.oversized (buf.length - rest.length))
      else do
        let n ← embedded buf
        return (n, rest)
    else if kind = .string ∧ val.length = 0 then .ok (.empty, rest)
    else if kind = .string ∧ val.length = 32 then .ok (.hash (StackTrie.bytesToHash val), rest)
    else .error (.stringSize val.length)

def decodeShort (hash : Option Hash) (elems : List UInt8) : Except NodeError Node :=
  match Raw.splitString elems with
  | .error err => .error (.raw err)
  | .ok (kbuf, rest) =>
    let key := compactToHex kbuf
    if hasTerm key then
      match Raw.splitString rest with
      | .error err => .error (.value err)
      | .ok (val, _) => .ok (.short key (.value val) ⟨hash, false⟩)
    else
      match decodeRef embedded rest with
      | .error err => .error (wrapError err "val")
      | .ok (r, _) => .ok (.short key r ⟨hash, false⟩)

/-- The loop over the children, `n` of them from `i` on. -/
def decodeChildren : Nat → Nat → List UInt8 → Except NodeError (List Node × List UInt8)
  | 0, _, elems => .ok ([], elems)
  | n + 1, i, elems =>
    match decodeRef embedded elems with
    | .error err => .error (wrapError err ("[" ++ toString i ++ "]"))
    | .ok (cld, rest) => do
      let (children, elems) ← decodeChildren n (i + 1) rest
      return (cld :: children, elems)

def decodeFull (hash : Option Hash) (elems : List UInt8) : Except NodeError Node := do
  let (children, elems) ← decodeChildren embedded 16 0 elems
  match Raw.splitString elems with
  | .error err => .error (.raw err)
  | .ok (val, _) =>
    let last := if val.length > 0 then Node.value val else .empty
    return .full (fun i => if i = 16 then last else children.getD i.val .empty) ⟨hash, false⟩

end Decode

/-- The count of an erroneous list is 0. -/
def decodeNode : Nat → Option Hash → List UInt8 → Except NodeError Node
  | 0, _, _ => .error .endless
  | fuel + 1, hash, buf =>
    if buf.length = 0 then .error .unexpectedEOF
    else
      match Raw.splitList buf with
      | .error err => .error (.list err)
      | .ok (elems, _) =>
        match (Raw.countValues elems).toOption.getD 0 with
        | 2 => (decodeShort (decodeNode fuel none) hash elems).mapError (wrapError · "short")
        | 17 => (decodeFull (decodeNode fuel none) hash elems).mapError (wrapError · "full")
        | c => .error (.elements c)

/-! ## What is decoded -/

section Decoded
variable (C : Crypto)

/-- A child as its parent has it: by its hash, or embedded. -/
def embed (t : HexTree) (n : Node) : Node :=
  match hashTree C t false with
  | .hash h => .hash h
  | .node _ => n

def decoded : Option Hash → HexTree → Node
  | _, .nil => .empty
  | _, .value v => .value v
  | hash, .short key t => .short key (embed C t (decoded none t)) ⟨hash, false⟩
  | hash, .full c => .full (fun i => embed C (c i) (decoded none (c i))) ⟨hash, false⟩

/-- A tree whose encodings can be read: an end in the key says that a value follows, and the
value of a full node is not empty. -/
def Wire : HexTree → Prop
  | .nil => True
  | .value _ => True
  | .short key t => (encodeTree C (.short key t)).length < 2 ^ 64 ∧
      ((∃ k v, key = hexKey k ∧ t = .value v) ∨ ∃ k : List Nibble, key = k.map Fin.castSucc ∧ Inner t) ∧ Wire t
  | .full c => (encodeTree C (.full c)).length < 2 ^ 64 ∧ (∀ i, i ≠ 16 → c i = .nil ∨ Inner (c i)) ∧
      (c 16 = .nil ∨ ∃ v, v ≠ [] ∧ c 16 = .value v) ∧ ∀ i, Wire (c i)

end Decoded

section Spec
variable {C : Crypto} {t : HexTree} {embedded : List UInt8 → Except NodeError Node}

lemma encodeItems_append (l l' : List Item) : encodeItems (l ++ l') = encodeItems l ++ encodeItems l' := by
  induction l with
  | nil => rfl
  | cons item l ih => rw [cons_append, encodeItems, encodeItems, ih, append_assoc]

variable {l : List Item}

lemma encode_length_le {item : Item} (h : item ∈ l) : item.encode.length ≤ (encodeItems l).length := by
  induction l with
  | nil => cases h
  | cons item' l ih =>
    rw [encodeItems, length_append]
    rcases mem_cons.1 h with rfl | h
    · omega
    · have := ih h
      omega

lemma collapse_list (ht : Inner t) : ∃ l, collapse C t = .list l := by
  cases t with
  | nil => exact ht.elim
  | value v => exact ht.elim
  | short key t => exact ⟨_, rfl⟩
  | full c => exact ⟨_, rfl⟩

/-- The items of a node are shorter than the node. -/
lemma length_encodeItems_lt (l : List Item) : (encodeItems l).length < (Item.list l).encode.length := by
  have := length_pos_iff.2 (puthead_ne_nil 0xc0 0xf7 (encodeItems l).length)
  rw [Item.encode, length_append]
  omega

lemma embed_long (ht : Inner t) (hlong : 32 ≤ (encodeTree C t).length) (n : Node) :
    embed C t n = .hash (C.keccak256 (encodeTree C t)) := by
  rw [embed, hashTree_of_inner ht fun _ => hlong]

lemma embed_short (ht : Inner t) (hshort : ¬ 32 ≤ (encodeTree C t).length) (n : Node) : embed C t n = n := by
  rw [embed, hashTree_of_short ht (by simpa using hshort)]

/-- A child is read back as its parent has it, if the embedded one is. -/
lemma decodeRef_encode (ht : t = .nil ∨ Inner t) (rest : List UInt8)
    (hembedded : Inner t → (encodeTree C t).length < 32 → embedded (encodeTree C t ++ rest) = .ok (decoded C none t)) :
    decodeRef embedded ((hashTree C t false).item.encode ++ rest) = .ok (embed C t (decoded C none t), rest) := by
  rcases ht with rfl | ht
  · have hsplit := Raw.split_encode (.str []) rest (by decide)
    rw [show (hashTree C .nil false).item = .str [] from rfl, decodeRef, hsplit]
    rfl
  · by_cases hlong : 32 ≤ (encodeTree C t).length
    · rw [hashTree_of_inner ht fun _ => hlong, embed_long ht hlong, Hashed.item, decodeRef]
      generalize C.keccak256 (encodeTree C t) = h
      have hone : ∀ x, Hash.bytes h ≠ [x] := fun x hx => by simpa [length_bytes] using congrArg List.length hx
      have hlen : (Item.str (Hash.bytes h)).encode.length < 2 ^ 64 := by
        rw [Item.encode, writeBytes_string fun x hx => absurd hx (hone x)]
        simp [length_bytes, puthead]
      have hkind : Raw.kindOf (.str (Hash.bytes h)) = .string := by
        unfold Raw.kindOf
        split
        · next x hx =>
          simp only [Item.str.injEq] at hx
          exact absurd hx (hone x)
        · rfl
        · next hx => cases hx
      rw [Raw.split_encode _ _ hlen, hkind]
      simp only [Raw.contentOf, length_bytes]
      rw [bytesToHash_bytes]
      rfl
    · obtain ⟨l, hl⟩ := collapse_list (C := C) ht
      have hsize : (Item.list l).encode.length < 32 := by
        rw [← hl]
        exact not_le.1 hlong
      rw [hashTree_of_short ht (by simpa using hlong), embed_short ht hlong, Hashed.item, decodeRef, hl,
        Raw.split_encode _ _ (by omega), Raw.kindOf]
      have hread := hembedded ht (not_le.1 hlong)
      rw [encodeTree, hl] at hread
      simp only [if_true, length_append, Nat.add_sub_cancel]
      rw [if_neg (by omega), hread]
      rfl

lemma decodeChildren_encode (ts : List HexTree) (i : Nat) (rest : List UInt8)
    (hts : ∀ t ∈ ts, (t = .nil ∨ Inner t) ∧ (Inner t → (encodeTree C t).length < 32 → ∀ rest,
      embedded (encodeTree C t ++ rest) = .ok (decoded C none t))) :
    decodeChildren embedded ts.length i (encodeItems (ts.map fun t => (hashTree C t false).item) ++ rest) =
      .ok (ts.map fun t => embed C t (decoded C none t), rest) := by
  induction ts generalizing i with
  | nil => rfl
  | cons t ts ih =>
    obtain ⟨⟨ht, hembedded⟩, hts⟩ := forall_mem_cons.1 hts
    rw [length_cons, decodeChildren, map_cons, encodeItems, append_assoc,
      decodeRef_encode ht _ fun hinner hshort => hembedded hinner hshort _]
    dsimp only
    rw [ih (i + 1) hts]
    rfl

lemma finRange_children {α : Type} (f : HexDigit → α) :
    (List.finRange 17).map f = ((List.finRange 16).map fun i => f i.castSucc) ++ [f 16] := by
  rw [finRange_succ_last, map_append, map_map]
  rfl

lemma decodeFull_encode {c : HexDigit → HexTree} (hash : Option Hash)
    (hlen : (encodeItems ((List.finRange 17).map fun i => (hashTree C (c i) false).item)).length < 2 ^ 64)
    (hchildren : ∀ i, i ≠ 16 → c i = .nil ∨ Inner (c i)) (hlast : c 16 = .nil ∨ ∃ v, v ≠ [] ∧ c 16 = .value v)
    (hembedded : ∀ i, Inner (c i) → (encodeTree C (c i)).length < 32 → ∀ rest,
      embedded (encodeTree C (c i) ++ rest) = .ok (decoded C none (c i))) :
    decodeFull embedded hash (encodeItems ((List.finRange 17).map fun i => (hashTree C (c i) false).item)) =
      .ok (decoded C hash (.full c)) := by
  -- the sixteen children, and then the value
  obtain ⟨v, hv, hnode⟩ : ∃ v, (hashTree C (c 16) false).item = .str v ∧
      (if v.length > 0 then Node.value v else .empty) = embed C (c 16) (decoded C none (c 16)) := by
    rcases hlast with hnil | ⟨v, hne, hvalue⟩
    · exact ⟨[], by rw [hnil]; rfl, by rw [hnil]; rfl⟩
    · refine ⟨v, by rw [hvalue]; rfl, ?_⟩
      rw [if_pos (length_pos_iff.2 hne), hvalue]
      rfl
  have hts : ∀ t ∈ (List.finRange 16).map fun i : Nibble => c i.castSucc, (t = .nil ∨ Inner t) ∧
      (Inner t → (encodeTree C t).length < 32 → ∀ rest,
        embedded (encodeTree C t ++ rest) = .ok (decoded C none t)) := by
    refine forall_mem_map.2 fun i _ => ?_
    have hi : i.castSucc ≠ 16 := (Fin.castSucc_lt_last i).ne
    exact ⟨hchildren _ hi, hembedded _⟩
  have hrun := decodeChildren_encode _ 0 (encodeItems [(.str v)]) hts
  rw [length_map, length_finRange, map_map, map_map] at hrun
  rw [finRange_children, encodeItems_append, hv] at hlen ⊢
  rw [length_append] at hlen
  have hsplit := Raw.splitString_encode v [] (by
    rw [encodeItems, length_append] at hlen
    omega)
  rw [decodeFull]
  erw [hrun]
  simp only [bind, Except.bind]
  rw [encodeItems, encodeItems, hsplit]
  simp only [hnode, decoded, pure, Except.pure]
  congr 2
  funext i
  split
  · next hi => rw [hi]
  · next hi =>
    have hlt : i.val < 16 := Fin.val_lt_last hi
    simp [getD_eq_getElem?_getD, hlt]

lemma decodeShort_encode {key : List HexDigit} (hash : Option Hash)
    (hlen : (encodeItems [.str (hexToCompact key), (hashTree C t false).item]).length < 2 ^ 64)
    (hkey : (∃ k v, key = hexKey k ∧ t = .value v) ∨ ∃ k : List Nibble, key = k.map Fin.castSucc ∧ Inner t)
    (hembedded : Inner t → (encodeTree C t).length < 32 → ∀ rest,
      embedded (encodeTree C t ++ rest) = .ok (decoded C none t)) :
    decodeShort embedded hash (encodeItems [.str (hexToCompact key), (hashTree C t false).item]) =
      .ok (decoded C hash (.short key t)) := by
  simp only [encodeItems, length_append, length_nil] at hlen ⊢
  rw [decodeShort, Raw.splitString_encode _ _ (by omega)]
  dsimp only
  rcases hkey with ⟨k, v, rfl, rfl⟩ | ⟨k, rfl, ht⟩
  · rw [compactToHex_leaf, if_pos (hasTerm_hexKey k)]
    have hsplit := Raw.splitString_encode v [] (show (Item.str v).encode.length < 2 ^ 64 by
      have : (hashTree C (.value v) false).item = .str v := rfl
      rw [this] at hlen
      omega)
    rw [show (hashTree C (.value v) false).item = .str v from rfl, hsplit]
    rfl
  · rw [compactToHex_ext, if_neg (by rw [hasTerm_map]; nofun), decodeRef_encode (.inr ht) _ fun hinner h => hembedded hinner h _]
    rfl

/-- An embedded child is written inside its parent. -/
lemma length_embedded_le (ht : Inner t) (hshort : (encodeTree C t).length < 32)
    (hmem : (hashTree C t false).item ∈ l) : (encodeTree C t).length ≤ (encodeItems l).length := by
  rw [hashTree_of_short ht (by simpa using hshort)] at hmem
  exact encode_length_le hmem

lemma decodeNode_items {rest : List UInt8} {fuel : Nat} (hash : Option Hash)
    (hlen : (Item.list l).encode.length < 2 ^ 64) :
    decodeNode (fuel + 1) hash ((Item.list l).encode ++ rest) =
      match l.length with
      | 2 => (decodeShort (decodeNode fuel none) hash (encodeItems l)).mapError (wrapError · "short")
      | 17 => (decodeFull (decodeNode fuel none) hash (encodeItems l)).mapError (wrapError · "full")
      | c => .error (.elements c) := by
  have hitems := length_encodeItems_lt l
  rw [decodeNode, if_neg (by simp [Item.encode_ne_nil]), Raw.splitList_encode _ _ hlen]
  dsimp only
  rw [Raw.countValues_encodeItems _ (by omega)]
  rfl

/-- A node is read back from its encoding, whatever comes after it. -/
lemma decodeNode_encode (ht : Inner t) (hwire : Wire C t) {fuel : Nat} (hfuel : (encodeTree C t).length ≤ fuel)
    (hash : Option Hash) (rest : List UInt8) :
    decodeNode fuel hash (encodeTree C t ++ rest) = .ok (decoded C hash t) := by
  induction t generalizing fuel hash rest with
  | nil => exact ht.elim
  | value v => exact ht.elim
  | short key t ih =>
    obtain ⟨hlen, hkey, hwire⟩ := hwire
    have hcollapse : collapse C (.short key t) = .list [.str (hexToCompact key), (hashTree C t false).item] := rfl
    have hitems := length_encodeItems_lt [.str (hexToCompact key), (hashTree C t false).item]
    rw [encodeTree, hcollapse] at hlen hfuel ⊢
    obtain ⟨fuel, rfl⟩ : ∃ n, fuel = n + 1 := ⟨fuel - 1, by omega⟩
    rw [decodeNode_items hash hlen]
    dsimp only [length_cons, length_nil]
    rw [decodeShort_encode hash (by omega) hkey fun hinner hshort rest => ?_]
    · rfl
    · have hle := length_embedded_le hinner hshort
        (show (hashTree C t false).item ∈ [.str (hexToCompact key), (hashTree C t false).item] by simp)
      exact ih hinner hwire (by omega) none rest
  | full c ih =>
    obtain ⟨hlen, hchildren, hlast, hwire⟩ := hwire
    have hcollapse : collapse C (.full c) = .list ((List.finRange 17).map fun i => (hashTree C (c i) false).item) := rfl
    have hitems := length_encodeItems_lt ((List.finRange 17).map fun i => (hashTree C (c i) false).item)
    rw [encodeTree, hcollapse] at hlen hfuel ⊢
    obtain ⟨fuel, rfl⟩ : ∃ n, fuel = n + 1 := ⟨fuel - 1, by omega⟩
    rw [decodeNode_items hash hlen, length_map, length_finRange]
    rw [decodeFull_encode hash (by omega) hchildren hlast fun i hinner hshort rest => ?_]
    · rfl
    · have hle := length_embedded_le hinner hshort
        (mem_map.2 ⟨i, mem_finRange i, rfl⟩ : _ ∈ (List.finRange 17).map fun i => (hashTree C (c i) false).item)
      exact ih i hinner (hwire i) (by omega) none rest

/-! ## Trees of tries -/

/-- The subtrees of a tree, itself included. -/
def Part (s : HexTree) : HexTree → Prop
  | .nil => s = .nil
  | .value v => s = .value v
  | .short key t => s = .short key t ∨ Part s t
  | .full c => s = .full c ∨ ∃ i, Part s (c i)

lemma part_refl (t : HexTree) : Part t t := by
  cases t with
  | nil => rfl
  | value v => rfl
  | short key t => exact .inl rfl
  | full c => exact .inl rfl

/-- Digits before an end are not the end. -/
lemma Ending.nibbles {p k : List HexDigit} (h : Ending (p ++ k)) (hk : k ≠ []) :
    ∃ key : List Nibble, p = key.map Fin.castSucc := by
  induction p with
  | nil => exact ⟨[], rfl⟩
  | cons digit p ih =>
    obtain ⟨key, rfl⟩ := ih h.2
    have hdigit : digit ≠ 16 := fun hend => by simpa [hk] using h.1.1 hend
    obtain ⟨digit, rfl⟩ := Fin.exists_castSucc_eq.2 hdigit
    exact ⟨digit :: key, rfl⟩

lemma Ending.hexKey {p : List HexDigit} (h : Ending p) (hp : p ≠ []) : ∃ key, p = hexKey key := by
  induction p with
  | nil => exact absurd rfl hp
  | cons digit p ih =>
    by_cases hnil : p = []
    · rw [hnil, h.1.2 hnil]
      exact ⟨[], rfl⟩
    · obtain ⟨key, rfl⟩ := ih h.2 hnil
      obtain ⟨digit, rfl⟩ := Fin.exists_castSucc_eq.2 fun hend => hnil (h.1.1 hend)
      exact ⟨digit :: key, rfl⟩

/-- The trees of tries can be read back. -/
lemma wire_of_keys (ht : t.Canonical) (hkeys : ∀ k, t.lookup k ≠ none → Ending k)
    (hvalues : ∀ k, t.lookup k ≠ some []) (hfits : ∀ s, Part s t → (encodeTree C s).length < 2 ^ 64) : Wire C t := by
  induction t with
  | nil => trivial
  | value v => trivial
  | short key t ih =>
    have hkeys' : ∀ k, t.lookup k ≠ none → Ending (key ++ k) := fun k hk =>
      hkeys (key ++ k) (by rwa [lookup_short_append])
    refine ⟨hfits _ (part_refl _), ?_, ih ht.2.2 (fun k hk => (hkeys' k hk).drop) (fun k hk => ?_)
      fun s hs => hfits s (.inr hs)⟩
    · cases t with
      | nil => exact ht.2.1.elim
      | short => exact ht.2.1.elim
      | value v =>
        have hend := hkeys' [] (by simp)
        rw [append_nil] at hend
        obtain ⟨k, hk⟩ := hend.hexKey ht.1
        exact .inl ⟨k, v, hk, rfl⟩
      | full c =>
        have hinner : Inner (.full c) := trivial
        obtain ⟨r, v, hr⟩ := ht.2.2.exists_entry hinner.ne_nil
        have hne : r ≠ [] := by
          rintro rfl
          rw [hinner.lookup_nil ht.2.2] at hr
          cases hr
        obtain ⟨k, hk⟩ := (hkeys' r (by simp [hr])).nibbles hne
        exact .inr ⟨k, hk, hinner⟩
    · exact hvalues (key ++ k) (by rwa [lookup_short_append])
  | full c ih =>
    obtain ⟨-, hlast, hchildren⟩ := ended_of_keys ht hkeys
    refine ⟨hfits _ (part_refl _), fun i hi => ?_, ?_, fun i => ih i (ht.1 i) (fun k hk => ?_) (fun k hk => ?_)
      fun s hs => hfits s (.inr ⟨i, hs⟩)⟩
    · cases hci : c i with
      | nil => exact .inl rfl
      | value v => exact absurd hci (hchildren i hi v)
      | short key t => exact .inr trivial
      | full c => exact .inr trivial
    · cases hc : c 16 with
      | nil => exact .inl rfl
      | value v =>
        refine .inr ⟨v, ?_, rfl⟩
        rintro rfl
        exact hvalues [16] (by rw [lookup_full_cons, hc, lookup_value_nil])
      | short key t => exact absurd (by rw [hc]; trivial) hlast
      | full c => exact absurd (by rw [hc]; trivial) hlast
    · exact (hkeys (i :: k) (by rwa [lookup_full_cons])).2
    · exact hvalues (i :: k) (by rwa [lookup_full_cons])

end Spec

end TurboOctopus.Trie
