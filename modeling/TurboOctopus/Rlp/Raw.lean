import TurboOctopus.Rlp.RoundTrip
/-!
# Values in a slice

`raw.go`: the values of a byte slice are split off one by one, without a stream. An encoded
item is split off whatever stands after it.
-/
namespace TurboOctopus.Rlp.Raw

open Lib Lib.Rlp List

def readSize (b : List UInt8) (slen : Nat) : Except DecodeError Nat :=
  if slen > b.length then .error .unexpectedEOF
  else
    let s := beNat (b.take slen)
    if s < 56 ∨ b.head? = some 0 then .error .canonSize else .ok s

/-- The kind, the size of the tag and the size of the content that a first byte has. -/
def readTag (b : UInt8) (more : List UInt8) : Except DecodeError (Kind × Nat × Nat) :=
  if b < 0x80 then .ok (.byte, 0, 1)
  else if b < 0xb8 then
    let contentsize := b.toNat - 0x80
    -- a string that should have been a byte
    if contentsize = 1 ∧ more.head?.any (· < 128) then .error .canonSize else .ok (.string, 1, contentsize)
  else if b < 0xc0 then do
    let size ← readSize more (b.toNat - 0xb7)
    return (.string, b.toNat - 0xb7 + 1, size)
  else if b < 0xf8 then .ok (.list, 1, b.toNat - 0xc0)
  else do
    let size ← readSize more (b.toNat - 0xf7)
    return (.list, b.toNat - 0xf7 + 1, size)

def readKind (buf : List UInt8) : Except DecodeError (Kind × Nat × Nat) :=
  match buf with
  | [] => .error .unexpectedEOF
  | b :: more => do
    let (k, tagsize, contentsize) ← readTag b more
    if contentsize > buf.length - tagsize then .error .valueTooLarge else return (k, tagsize, contentsize)

/-- The content of the first value, and what is after it. -/
def split (b : List UInt8) : Except DecodeError (Kind × List UInt8 × List UInt8) := do
  let (k, ts, cs) ← readKind b
  return (k, (b.drop ts).take cs, b.drop (ts + cs))

def splitString (b : List UInt8) : Except DecodeError (List UInt8 × List UInt8) := do
  let (k, content, rest) ← split b
  if k = .list then .error .expectedString else return (content, rest)

def splitList (b : List UInt8) : Except DecodeError (List UInt8 × List UInt8) := do
  let (k, content, rest) ← split b
  if k ≠ .list then .error .expectedList else return (content, rest)

/-- The loop of `CountValues`, from `i` on. Every value takes a byte. -/
def countValuesLoop : Nat → Nat → List UInt8 → Except DecodeError Nat
  | _, i, [] => .ok i
  | 0, _, _ :: _ => .error .endless
  | fuel + 1, i, b => do
    let (_, tagsize, size) ← readKind b
    countValuesLoop fuel (i + 1) (b.drop (tagsize + size))

def countValues (b : List UInt8) : Except DecodeError Nat := countValuesLoop b.length 0 b

/-! ## Encoded items -/

section Split
variable {b : UInt8} {k : Kind} {head content rest : List UInt8} {tagsize : Nat}

lemma readKind_of_tag (h : readTag b (head ++ (content ++ rest)) = .ok (k, head.length + 1, content.length)) :
    readKind (b :: (head ++ (content ++ rest))) = .ok (k, head.length + 1, content.length) := by
  rw [readKind, h]
  simp only [bind, Except.bind, length_cons, length_append]
  rw [if_neg (by omega)]
  rfl

lemma split_of_tag (h : readTag b (head ++ (content ++ rest)) = .ok (k, head.length + 1, content.length)) :
    split (b :: (head ++ (content ++ rest))) = .ok (k, content, rest) := by
  rw [split, readKind_of_tag h]
  simp only [bind, Except.bind, pure, Except.pure, drop_succ_cons, drop_left, take_left]
  rw [show head.length + 1 + content.length = head.length + content.length + 1 by omega, drop_succ_cons,
    ← drop_drop, drop_left, drop_left]

lemma readSize_beBytes {n : Nat} (h56 : ¬ n < 56) (more : List UInt8) :
    readSize (beBytes n ++ more) (beBytes n).length = .ok n := by
  have hne : beBytes n ≠ [] := beBytes_ne_nil (by omega)
  have hhead : (beBytes n ++ more).head? ≠ some 0 := by
    obtain ⟨x, more', hbytes⟩ := exists_cons_of_ne_nil hne
    have := head?_beBytes n
    rw [hbytes] at this ⊢
    exact this
  rw [readSize, if_neg (by simp)]
  simp only [take_left, beNat_beBytes, h56, hhead, or_self, if_false]

/-- Which tags stand for which kind and size. -/
structure Tagged (k : Kind) (small large : Nat) : Prop where
  step : large = small + 55
  top : small ≤ 192
  short : ∀ (b : UInt8) (more : List UInt8), small ≤ b.toNat → b.toNat ≤ large →
    (k = .string → b.toNat - small = 1 → ¬ more.head?.any (· < 128)) → readTag b more = .ok (k, 1, b.toNat - small)
  long : ∀ (b : UInt8) (more : List UInt8), large < b.toNat → b.toNat ≤ large + 8 →
    readTag b more = (readSize more (b.toNat - large) >>= fun size => .ok (k, b.toNat - large + 1, size))

lemma tagged_string : Tagged .string 0x80 0xb7 where
  step := rfl
  top := by decide
  short b more hlow hhigh hone := by
    have h1 : ¬ b < 0x80 := not_lt_of_toNat_le hlow
    have h2 : b < 0xb8 := UInt8.lt_iff_toNat_lt.2 (Nat.lt_succ_iff.2 hhigh)
    rw [readTag, if_neg h1, if_pos h2]
    dsimp only
    rw [if_neg fun h => hone rfl h.1 h.2]
  long b more hlow hhigh := by
    have h1 : ¬ b < 0x80 := not_lt_of_toNat_le (by simp; omega)
    have h2 : ¬ b < 0xb8 := not_lt_of_toNat_le hlow
    have h3 : b < 0xc0 := UInt8.lt_iff_toNat_lt.2 (Nat.lt_succ_iff.2 hhigh)
    rw [readTag, if_neg h1, if_neg h2, if_pos h3]
    rfl

lemma tagged_list : Tagged .list 0xc0 0xf7 where
  step := rfl
  top := by decide
  short b more hlow hhigh _ := by
    obtain ⟨h1, h2, h3⟩ := list_tag hlow
    have h4 : b < 0xf8 := UInt8.lt_iff_toNat_lt.2 (Nat.lt_succ_iff.2 hhigh)
    rw [readTag, if_neg h1, if_neg h2, if_neg h3, if_pos h4]
  long b more hlow hhigh := by
    obtain ⟨h1, h2, h3⟩ := list_tag (b := b) (by omega)
    have h4 : ¬ b < 0xf8 := not_lt_of_toNat_le hlow
    rw [readTag, if_neg h1, if_neg h2, if_neg h3, if_neg h4]
    rfl

/-- A head as `puthead` writes it, with the content after it. -/
lemma Tagged.read {small large : Nat} (hk : Tagged k small large) (rest : List UInt8) (hlen : content.length < 2 ^ 64)
    (hone : k = .string → ∀ x, content = [x] → ¬ x < 128) : ∃ b head, puthead small large content.length = b :: head ∧
      readTag b (head ++ (content ++ rest)) = .ok (k, head.length + 1, content.length) := by
  have hstep := hk.step
  have htop := hk.top
  by_cases h56 : content.length < 56
  · refine ⟨UInt8.ofNat (small + content.length), [], by rw [puthead, if_pos h56], ?_⟩
    have htag : (UInt8.ofNat (small + content.length)).toNat = small + content.length := by
      rw [UInt8.toNat_ofNat']
      omega
    rw [hk.short _ _ (by omega) (by omega)]
    · rw [htag, Nat.add_sub_cancel_left]
      rfl
    · rw [htag, Nat.add_sub_cancel_left]
      intro hstring h1
      obtain ⟨x, rfl⟩ := length_eq_one_iff.1 h1
      simpa using hone hstring x rfl
  · have hbytes : (beBytes content.length).length ≤ 8 :=
      length_beBytes_le (by rwa [show (256 : Nat) ^ 8 = 2 ^ 64 by norm_num])
    have hpos : 0 < (beBytes content.length).length := length_pos_iff.2 (beBytes_ne_nil (by omega))
    refine ⟨UInt8.ofNat (large + (beBytes content.length).length), beBytes content.length,
      by rw [puthead, if_neg h56], ?_⟩
    have htag : (UInt8.ofNat (large + (beBytes content.length).length)).toNat =
        large + (beBytes content.length).length := by
      rw [UInt8.toNat_ofNat']
      omega
    rw [hk.long _ _ (by omega) (by omega), htag, Nat.add_sub_cancel_left, readSize_beBytes h56]
    rfl

end Split

/-- What a value is split into. -/
def kindOf : Item → Kind
  | .str [x] => if x < 0x80 then .byte else .string
  | .str _ => .string
  | .list _ => .list

def contentOf : Item → List UInt8
  | .str b => b
  | .list l => encodeItems l

/-- How an item is read: as a byte that stands for itself, or by its head. -/
lemma encode_read (item : Item) (rest : List UInt8) (hlen : item.encode.length < 2 ^ 64) :
    (∃ x, x < 0x80 ∧ item = .str [x] ∧ item.encode = [x]) ∨ ∃ b head, item.encode = b :: (head ++ contentOf item) ∧
      readTag b (head ++ (contentOf item ++ rest)) = .ok (kindOf item, head.length + 1, (contentOf item).length) := by
  cases item with
  | str s =>
    by_cases hbyte : ∃ x, s = [x] ∧ x < 0x80
    · obtain ⟨x, rfl, hx⟩ := hbyte
      exact .inl ⟨x, hx, rfl, by rw [Item.encode, writeBytes_byte hx]⟩
    · have hone : ∀ x, s = [x] → ¬ x < 0x80 := fun x hs hx => hbyte ⟨x, hs, hx⟩
      have hkind : kindOf (.str s) = .string := by
        unfold kindOf
        split
        · next x hs =>
          cases hs
          rw [if_neg (hone x rfl)]
        · rfl
        · next hs => cases hs
      rw [Item.encode, writeBytes_string hone, length_append] at hlen
      obtain ⟨b, head, hhead, hread⟩ := tagged_string.read rest (show s.length < 2 ^ 64 by omega) fun _ => hone
      refine .inr ⟨b, head, ?_, ?_⟩
      · rw [Item.encode, writeBytes_string hone, hhead]
        rfl
      · rw [hkind]
        exact hread
  | list l =>
    rw [Item.encode, length_append] at hlen
    obtain ⟨b, head, hhead, hread⟩ := tagged_list.read rest (show (encodeItems l).length < 2 ^ 64 by omega) nofun
    refine .inr ⟨b, head, ?_, hread⟩
    rw [Item.encode, hhead]
    rfl

lemma split_encode (item : Item) (rest : List UInt8) (hlen : item.encode.length < 2 ^ 64) :
    split (item.encode ++ rest) = .ok (kindOf item, contentOf item, rest) := by
  rcases encode_read item rest hlen with ⟨x, hx, rfl, hencode⟩ | ⟨b, head, hencode, hread⟩
  · rw [hencode, split, singleton_append, readKind, readTag, if_pos hx]
    simp [bind, Except.bind, pure, Except.pure, kindOf, contentOf, hx]
  · rw [hencode, cons_append, append_assoc]
    exact split_of_tag hread

lemma splitString_encode (b rest : List UInt8) (hlen : (Item.str b).encode.length < 2 ^ 64) :
    splitString ((Item.str b).encode ++ rest) = .ok (b, rest) := by
  have hkind : kindOf (.str b) ≠ .list := by
    unfold kindOf
    split
    · split
      · nofun
      · nofun
    · nofun
    · next h => cases h
  rw [splitString, split_encode _ _ hlen]
  simp only [bind, Except.bind, if_neg hkind]
  rfl

lemma splitList_encode (l : List Item) (rest : List UInt8) (hlen : (Item.list l).encode.length < 2 ^ 64) :
    splitList ((Item.list l).encode ++ rest) = .ok (encodeItems l, rest) := by
  rw [splitList, split_encode _ _ hlen]
  rfl

lemma drop_readKind_encode (item : Item) (rest : List UInt8) (hlen : item.encode.length < 2 ^ 64) :
    ∃ k tagsize size, readKind (item.encode ++ rest) = .ok (k, tagsize, size) ∧
      (item.encode ++ rest).drop (tagsize + size) = rest := by
  have hsplit := split_encode item rest hlen
  rw [split] at hsplit
  cases hkind : readKind (item.encode ++ rest) with
  | error e =>
    rw [hkind] at hsplit
    cases hsplit
  | ok r =>
    rw [hkind] at hsplit
    simp only [bind, Except.bind, pure, Except.pure, Except.ok.injEq, Prod.mk.injEq] at hsplit
    exact ⟨r.1, r.2.1, r.2.2, rfl, hsplit.2.2⟩

lemma countValuesLoop_encodeItems (l : List Item) (hlen : (encodeItems l).length < 2 ^ 64) {fuel : Nat} (i : Nat)
    (hfuel : l.length ≤ fuel) : countValuesLoop fuel i (encodeItems l) = .ok (i + l.length) := by
  induction l generalizing fuel i with
  | nil =>
    rw [encodeItems, countValuesLoop]
    rfl
  | cons item l ih =>
    obtain ⟨fuel, rfl⟩ : ∃ k, fuel = k + 1 := ⟨fuel - 1, by simp at hfuel; omega⟩
    rw [encodeItems, length_append] at hlen
    obtain ⟨k, tagsize, size, hread, hdrop⟩ := drop_readKind_encode item (encodeItems l) (by omega)
    rw [encodeItems, countValuesLoop, hread]
    · simp only [bind, Except.bind]
      rw [hdrop, ih (by omega) (i + 1) (by simpa using hfuel), length_cons]
      congr 1
      omega
    · simp [Item.encode_ne_nil]

lemma length_le_encodeItems (l : List Item) : l.length ≤ (encodeItems l).length := by
  induction l with
  | nil => simp
  | cons item l ih =>
    have := length_pos_iff.2 (Item.encode_ne_nil item)
    rw [encodeItems, length_append, length_cons]
    omega

lemma countValues_encodeItems (l : List Item) (hlen : (encodeItems l).length < 2 ^ 64) :
    countValues (encodeItems l) = .ok l.length := by
  rw [countValues, countValuesLoop_encodeItems l hlen 0 (length_le_encodeItems l), Nat.zero_add]

end TurboOctopus.Rlp.Raw
