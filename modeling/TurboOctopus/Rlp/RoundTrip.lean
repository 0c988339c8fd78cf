import TurboOctopus.Rlp.Codec
import TurboOctopus.Rlp.Encode
/-!
# Encoding and decoding

`DecodeBytes` into an interface accepts what `EncodeToBytes` writes and nothing else. A
slice has fewer than 2^63 bytes.
-/
namespace TurboOctopus.Rlp

open Lib Lib.Rlp List Item

variable {s t : Stream} {α : Type}

/-! ## Values of an interface -/

lemma encodeItems_eq (l : List Item) : encodeItems l = l.flatMap encode := by
  induction l with
  | nil => rfl
  | cons x l ih => rw [encodeItems, flatMap_cons, ih]

lemma encode_list (l : List Item) : (Item.list l).encode = encodeList (List.flatMap Item.encode) l := by
  rw [Item.encode, encodeList, encodeItems_eq]

lemma Item.encode_ne_nil (i : Item) : i.encode ≠ [] := by
  cases i with
  | str b => rw [encode]; exact writeBytes_ne_nil b
  | list l => rw [encode_list]; simp [encodeList, puthead_ne_nil]

lemma decodes_interface (fuel : Nat) : Decodes (decodeInterface fuel) encode fuel := by
  induction fuel with
  | zero =>
    exact ⟨fun _ h => absurd h (Nat.not_lt_zero _), fun _ h => (nomatch h), fun _ h => absurd h (Nat.not_lt_zero _),
      fun _ h => (nomatch h), fun _ h => absurd h (Nat.not_lt_zero _), Item.encode_ne_nil⟩
  | succ fuel ih =>
    have hslice := ih.slice
    have hbytes : Decodes bytes writeBytes (fuel + 1) := decodes_bytes
    refine .of_kind ?complete ?sound ?error Item.encode_ne_nil
    case complete =>
      intro s i rest hs hbound hi hh
      cases i with
      | str b =>
        rw [encode] at hi hh ⊢
        have hrun := hbytes.complete hs hbound hi hh
        obtain ⟨a, u, hk, hkind⟩ := bytes_kind hrun
        obtain ⟨-, -, -, ha, rfl⟩ := kind_ok hs.limited hs.ahead hk
        rw [← kindFirst_bytes.at_eq ha hk] at hrun
        rw [run_bind_of_ok hk, if_neg hkind, run_bind_of_ok hrun]
        rfl
      | list l =>
        rw [encode_list] at hi hh ⊢
        have hrun := hslice.complete hs hbound hi hh
        obtain ⟨size, v, hl, -⟩ := bind_run_ok hrun
        obtain ⟨a, u, hk, hkind⟩ := list_kind hl
        obtain ⟨-, -, -, ha, rfl⟩ := kind_ok hs.limited hs.ahead hk
        rw [← kindFirst_slice.at_eq ha hk] at hrun
        rw [run_bind_of_ok hk, if_pos hkind, run_bind_of_ok hrun]
        rfl
    case sound =>
      intro s t i hs hrun
      obtain ⟨a, u, hk, hrun⟩ := bind_run_ok hrun
      obtain ⟨-, -, -, ha, rfl⟩ := kind_ok hs.limited hs.ahead hk
      split at hrun
      · obtain ⟨l, v, hl, hrun⟩ := bind_run_ok hrun
        cases hrun
        rw [kindFirst_slice.at_eq ha hk] at hl
        rw [encode_list]
        exact hslice.sound hs hl
      · obtain ⟨b, v, hb, hrun⟩ := bind_run_ok hrun
        cases hrun
        rw [kindFirst_bytes.at_eq ha hk] at hb
        rw [encode]
        exact hbytes.sound hs hb
    case error =>
      intro s t a e hs hk ha hrun
      split at hrun
      · exact hslice.error_at kindFirst_slice hs hk ha hrun
      · exact hbytes.error_at kindFirst_bytes hs hk ha hrun

/-! ## Whole slices -/

variable {b : List UInt8} {decoder : Nat → StreamM α} {enc : α → List UInt8}

lemma newStream_ready (hb : b.length < 2 ^ 64) : (newStream b).Ready :=
  ⟨toNat_ofNat64 hb, rfl⟩

/-- Where a decoder undoes an encoder, so does `DecodeBytes`. -/
lemma Decodes.decodeBytes_iff {a : α} (h : Decodes (decoder (b.length + 1)) enc (b.length + 1))
    (hb : b.length < 2 ^ 64) : decodeBytes decoder b = .ok a ↔ b = enc a := by
  have hs := newStream_ready hb
  constructor
  · intro hrun
    unfold decodeBytes at hrun
    split at hrun
    · next hdec =>
      obtain ⟨rest, hi, rfl⟩ := h.sound hs hdec
      split at hrun
      · cases hrun
      · next hempty =>
        cases hrun
        rw [Stream.skip_input, hi, drop_left, Nat.not_lt, Nat.le_zero, length_eq_zero_iff] at hempty
        rw [hempty, append_nil] at hi
        exact hi
    · cases hrun
  · intro hi
    have hi' : (newStream b).input = enc a ++ [] := by
      rw [← hi, append_nil]
      rfl
    have hdec := h.complete hs (Nat.lt_succ_self _) hi' (by intro limit hl; cases hl)
    rw [decodeBytes, hdec]
    simp [newStream, hi]

/-- The fuel is enough, and no list that is open ends. -/
lemma Decodes.decodeBytes_error {e : DecodeError} (h : Decodes (decoder (b.length + 1)) enc (b.length + 1))
    (hb : b.length < 2 ^ 64) (hrun : decodeBytes decoder b = .error e) : e.Plain := by
  have hs := newStream_ready hb
  unfold decodeBytes at hrun
  split at hrun
  · split at hrun <;> cases hrun
    exact ⟨nofun, nofun⟩
  · next hdec =>
    cases hrun
    constructor
    · rintro rfl
      cases (h.ends hs hdec).1
    · rintro rfl
      exact h.halts hs (Nat.lt_succ_self _) hdec

/-! ## Canonical bytes -/

/-- The bytes of a value, with sizes in as few bytes as they can have, the long form for
no size below 56, and a byte below 0x80 as itself. -/
inductive Canonical : List UInt8 → Prop
  | byte (x : UInt8) : x < 0x80 → Canonical [x]
  | short (b : List UInt8) : b.length < 56 → (∀ x, b = [x] → 0x80 ≤ x) → Canonical (.ofNat (0x80 + b.length) :: b)
  | long (size b : List UInt8) : size.head? ≠ some 0 → size.length ≤ 8 → beNat size = b.length → 56 ≤ b.length →
    Canonical (.ofNat (0xb7 + size.length) :: (size ++ b))
  | shortList (l : List (List UInt8)) : (∀ b ∈ l, Canonical b) → l.flatten.length < 56 →
    Canonical (.ofNat (0xc0 + l.flatten.length) :: l.flatten)
  | longList (size : List UInt8) (l : List (List UInt8)) : (∀ b ∈ l, Canonical b) → size.head? ≠ some 0 →
    size.length ≤ 8 → beNat size = l.flatten.length → 56 ≤ l.flatten.length →
    Canonical (.ofNat (0xf7 + size.length) :: (size ++ l.flatten))

lemma length_beBytes {n : Nat} (hn : n < 2 ^ 63) : (beBytes n).length ≤ 8 :=
  length_beBytes_le (hn.trans (by decide))

lemma canonical_writeBytes (hb : b.length < 2 ^ 63) : Canonical (writeBytes b) := by
  by_cases hbyte : ∃ x, b = [x] ∧ x < 0x80
  · obtain ⟨x, rfl, hx⟩ := hbyte
    rw [writeBytes_byte hx]
    exact .byte x hx
  · have hlong : ∀ x, b = [x] → ¬ x < 0x80 := fun x hb hx => hbyte ⟨x, hb, hx⟩
    rw [writeBytes_string hlong, puthead]
    split
    · next h56 => exact .short b h56 fun x hx => UInt8.not_lt.1 (hlong x hx)
    · next h56 => exact .long _ b (head?_beBytes _) (length_beBytes hb) (beNat_beBytes _) (Nat.not_lt.1 h56)

lemma encode_sublist {x : Item} {l : List Item} (hx : x ∈ l) : x.encode.Sublist (Item.list l).encode := by
  rw [encode_list, encodeList, flatMap_def]
  exact (sublist_flatten_of_mem (mem_map_of_mem hx)).trans (sublist_append_right _ _)

lemma writeBytes_length_le (b : List UInt8) : b.length ≤ (writeBytes b).length := by
  unfold writeBytes
  split
  · split <;> simp
  · simp

lemma canonical_encode (i : Item) (hi : i.encode.length < 2 ^ 63) : Canonical i.encode := by
  match i with
  | .str b =>
    rw [encode] at hi ⊢
    exact canonical_writeBytes ((writeBytes_length_le b).trans_lt hi)
  | .list l =>
    have hl : ∀ b ∈ l.map encode, Canonical b := by
      intro b hb
      obtain ⟨x, hx, rfl⟩ := mem_map.1 hb
      exact canonical_encode x ((encode_sublist hx).length_le.trans_lt hi)
    rw [encode_list, encodeList, flatMap_def] at hi ⊢
    rw [length_append] at hi
    rw [puthead]
    split
    · next h56 => exact .shortList _ hl h56
    · next h56 => exact .longList _ _ hl (head?_beBytes _) (length_beBytes (by omega)) (beNat_beBytes _) (Nat.not_lt.1 h56)
termination_by sizeOf i
decreasing_by
  have := List.sizeOf_lt_of_mem hx
  simp_wf
  omega

/-- `DecodeBytes` into an interface gives back what `EncodeToBytes` has written, and
accepts no other bytes for it: what it accepts is canonical. -/
theorem decode_encode :
    (∀ i, (encodeToBytes i).length < 2 ^ 63 → decodeBytes decodeInterface (encodeToBytes i) = .ok i) ∧
    (∀ b i, b.length < 2 ^ 63 → decodeBytes decodeInterface b = .ok i → encodeToBytes i = b ∧ Canonical b) ∧
    (∀ b b' i, b.length < 2 ^ 63 → b'.length < 2 ^ 63 → decodeBytes decodeInterface b = .ok i →
      decodeBytes decodeInterface b' = .ok i → b = b') ∧
    ∀ b, b.length < 2 ^ 63 → decodeBytes decodeInterface b ≠ .error .endless := by
  have hiff : ∀ {b : List UInt8} {i : Item}, b.length < 2 ^ 63 → (decodeBytes decodeInterface b = .ok i ↔ b = i.encode) :=
    fun hb => (decodes_interface _).decodeBytes_iff (hb.trans (by decide))
  refine ⟨?encoded, ?accepted, ?injective, ?halts⟩
  case encoded =>
    intro i hi
    rw [hiff hi, encodeToBytes_eq]
  case accepted =>
    intro b i hb hrun
    have hbi := (hiff hb).1 hrun
    rw [encodeToBytes_eq]
    refine ⟨hbi.symm, ?_⟩
    rw [hbi] at hb ⊢
    exact canonical_encode i hb
  case injective =>
    intro b b' i hb hb' hrun hrun'
    rw [(hiff hb).1 hrun, (hiff hb').1 hrun']
  case halts =>
    intro b hb hrun
    exact ((decodes_interface _).decodeBytes_error (hb.trans (by decide)) hrun).2 rfl

/-- The bytes of a list of a word and a number. -/
theorem decode_cat_1024 :
    decodeBytes decodeInterface [0xc7, 0x83, 0x63, 0x61, 0x74, 0x82, 4, 0] = .ok (.list [.str [0x63, 0x61, 0x74], .nat 1024]) ∧
    Canonical [0xc7, 0x83, 0x63, 0x61, 0x74, 0x82, 4, 0] := by
  have hbytes : encodeToBytes (.list [.str [0x63, 0x61, 0x74], .nat 1024]) = [0xc7, 0x83, 0x63, 0x61, 0x74, 0x82, 4, 0] := by
    decide
  have hrun := decode_encode.1 (.list [.str [0x63, 0x61, 0x74], .nat 1024]) (by rw [hbytes]; decide)
  rw [hbytes] at hrun
  exact ⟨hrun, (decode_encode.2.1 _ _ (by decide) hrun).2⟩

/-- No encoding starts with another one: values can follow each other. -/
theorem encodings_apart {x y : Item} {a b : List UInt8} (hlen : (encodeToBytes x ++ a).length < 2 ^ 64)
    (h : encodeToBytes x ++ a = encodeToBytes y ++ b) : x = y ∧ a = b := by
  simp only [encodeToBytes_eq] at hlen h
  have hs := newStream_ready hlen
  have hx := (decodes_interface _).complete hs (Nat.lt_succ_self _) rfl nofun
  have hy := (decodes_interface _).complete hs (Nat.lt_succ_self _) h nofun
  cases hx.symm.trans hy
  exact ⟨rfl, append_cancel_left h⟩

theorem encodings_apart_nested : Item.list [.list [.str [7, 8]], .nat 1024] = .list [.list [.str [7, 8]], .nat 1024] ∧
    [(1 : UInt8)] = [1] :=
  encodings_apart (by decide) rfl

end TurboOctopus.Rlp
