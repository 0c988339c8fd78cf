import TurboOctopus.Rlp.RoundTrip
import TurboOctopus.Rlp.Typed
import TurboOctopus.Types.Transaction
/-!
# Transactions on the wire

A legacy transaction is the list of its fields. The others are a type byte before such a
list, and within other values the string of these bytes. `MarshalBinary` and `EncodeRLP`
write the two forms, `UnmarshalBinary` and `DecodeRLP` read them.
-/
namespace TurboOctopus.Types

open Lib Lib.Rlp Rlp List Option Item Transaction

/-! ## Writing -/

open EncBuffer

def writeAddress (a : Address) : EncBuffer → EncBuffer := writeByteArray (Address.bytes a)

def AccessTuple.write (t : AccessTuple) : EncBuffer → EncBuffer :=
  writeStruct [writeAddress t.address, writeSlice (fun k => writeByteArray (Hash.bytes k)) t.storageKeys]

def LegacyTx.write (tx : LegacyTx) : EncBuffer → EncBuffer :=
  writeStruct [writeUint64 tx.nonce, writeBigInt tx.gasPrice, writeUint64 tx.gas, writePtr writeAddress tx.toAddr,
    writeBigInt tx.value, writeBytes tx.data, writeBigInt tx.v, writeBigInt tx.r, writeBigInt tx.s]

def AccessListTx.write (tx : AccessListTx) : EncBuffer → EncBuffer :=
  writeStruct [writeBigInt tx.chainID, writeUint64 tx.nonce, writeBigInt tx.gasPrice, writeUint64 tx.gas,
    writePtr writeAddress tx.toAddr, writeBigInt tx.value, writeBytes tx.data,
    writeSlice AccessTuple.write tx.accessList, writeBigInt tx.v, writeBigInt tx.r, writeBigInt tx.s]

def DynamicFeeTx.write (tx : DynamicFeeTx) : EncBuffer → EncBuffer :=
  writeStruct [writeBigInt tx.chainID, writeUint64 tx.nonce, writeBigInt tx.gasTipCap, writeBigInt tx.gasFeeCap,
    writeUint64 tx.gas, writePtr writeAddress tx.toAddr, writeBigInt tx.value, writeBytes tx.data,
    writeSlice AccessTuple.write tx.accessList, writeBigInt tx.v, writeBigInt tx.r, writeBigInt tx.s]

namespace Transaction

/-- The inner transaction. -/
def write : Transaction → EncBuffer → EncBuffer
  | legacy tx => tx.write
  | accessList tx => tx.write
  | dynamicFee tx => tx.write

def encodeTyped (tx : Transaction) : List UInt8 := tx.type :: (tx.write .empty).makeBytes

def marshalBinary (tx : Transaction) : List UInt8 :=
  if tx.type = 0 then (tx.write .empty).makeBytes else tx.encodeTyped

/-- Into the buffer of the value around it. -/
def encodeRLP (tx : Transaction) : EncBuffer → EncBuffer :=
  if tx.type = 0 then tx.write else EncBuffer.writeBytes tx.encodeTyped

/-- `rlp.EncodeToBytes` of a transaction. -/
def encodeToBytes (tx : Transaction) : List UInt8 := (tx.encodeRLP .empty).makeBytes

end Transaction

/-! ## Reading -/

def decodeAddress : StreamM Address := bytesToAddress <$> decodeByteArray 20

def decodeHash : StreamM Hash := (fun b => BitVec.ofNat 256 (beNat b)) <$> decodeByteArray 32

def AccessTuple.decode (fuel : Nat) : StreamM AccessTuple :=
  (fun (address, storageKeys, ()) => ⟨address, storageKeys⟩) <$>
    decodeStruct (field decodeAddress <| field (decodeListSlice decodeHash fuel) <| noFields)

def LegacyTx.decode (_fuel : Nat) : StreamM LegacyTx :=
  (fun (nonce, gasPrice, gas, toAddr, value, data, v, r, s, ()) => ⟨nonce, gasPrice, gas, toAddr, value, data, v, r, s⟩) <$>
    decodeStruct (field (uint 64) <| field decodeBigInt <| field (uint 64) <|
      field (decodeNilPtr .string decodeAddress) <| field decodeBigInt <| field bytes <|
      field decodeBigInt <| field decodeBigInt <| field decodeBigInt <| noFields)

def AccessListTx.decode (fuel : Nat) : StreamM AccessListTx :=
  (fun (chainID, nonce, gasPrice, gas, toAddr, value, data, accessList, v, r, s, ()) =>
      ⟨chainID, nonce, gasPrice, gas, toAddr, value, data, accessList, v, r, s⟩) <$>
    decodeStruct (field decodeBigInt <| field (uint 64) <| field decodeBigInt <| field (uint 64) <|
      field (decodeNilPtr .string decodeAddress) <| field decodeBigInt <| field bytes <|
      field (decodeListSlice (AccessTuple.decode fuel) fuel) <|
      field decodeBigInt <| field decodeBigInt <| field decodeBigInt <| noFields)

def DynamicFeeTx.decode (fuel : Nat) : StreamM DynamicFeeTx :=
  (fun (chainID, nonce, gasTipCap, gasFeeCap, gas, toAddr, value, data, accessList, v, r, s, ()) =>
      ⟨chainID, nonce, gasTipCap, gasFeeCap, gas, toAddr, value, data, accessList, v, r, s⟩) <$>
    decodeStruct (field decodeBigInt <| field (uint 64) <| field decodeBigInt <| field decodeBigInt <|
      field (uint 64) <| field (decodeNilPtr .string decodeAddress) <| field decodeBigInt <| field bytes <|
      field (decodeListSlice (AccessTuple.decode fuel) fuel) <|
      field decodeBigInt <| field decodeBigInt <| field decodeBigInt <| noFields)

namespace Transaction

def errEmptyTypedTx : DecodeError := .custom "empty typed transaction bytes"

def errTxTypeNotSupported : DecodeError := .custom "transaction type not supported"

def decodeTyped (b : List UInt8) : Except DecodeError Transaction :=
  match b with
  | [] => .error errEmptyTypedTx
  | b0 :: payload =>
    if b0 = 1 then accessList <$> decodeBytes AccessListTx.decode payload
    else if b0 = 2 then dynamicFee <$> decodeBytes DynamicFeeTx.decode payload
    else .error errTxTypeNotSupported

def unmarshalBinary (b : List UInt8) : Except DecodeError Transaction :=
  if b.head?.any (0x7f < ·) then legacy <$> decodeBytes LegacyTx.decode b else decodeTyped b

def decodeRLP (fuel : Nat) : StreamM Transaction := do
  let a ← kind
  match a.kind with
  | .list =>
    let inner ← LegacyTx.decode fuel
    return legacy inner
  | .string =>
    let b ← bytes
    lift (decodeTyped b)
  | .byte => throw .expectedList

end Transaction

/-! ## Fields -/

section Fields
variable {bound : Nat}

lemma ofNat_beNat_fixedBytes {w len : Nat} (hw : w = 8 * len) (x : BitVec w) :
    BitVec.ofNat w (beNat (fixedBytes len x.toNat)) = x := by
  have hpow : 256 ^ len = 2 ^ w := by rw [hw, pow_mul]; norm_num
  apply BitVec.eq_of_toNat_eq
  rw [BitVec.toNat_ofNat, beNat_fixedBytes, hpow, Nat.mod_mod, Nat.mod_eq_of_lt x.isLt]

lemma fixedBytes_ofNat_beNat {w len : Nat} (hw : w = 8 * len) {b : List UInt8} (hb : b.length = len) :
    fixedBytes len (BitVec.ofNat w (beNat b)).toNat = b := by
  have hpow : 256 ^ len = 2 ^ w := by rw [hw, pow_mul]; norm_num
  have hlt := beNat_lt b
  rw [hb, hpow] at hlt
  rw [BitVec.toNat_ofNat, Nat.mod_eq_of_lt hlt, ← hb, fixedBytes_beNat]

lemma decodes_address : Decodes decodeAddress (fun a => writeBytes (Address.bytes a)) bound :=
  decodes_byteArray (by decide) (by decide) (fun a => length_fixedBytes 20 _)
    (ofNat_beNat_fixedBytes rfl) fun _ hb => fixedBytes_ofNat_beNat rfl hb

lemma decodes_hash : Decodes decodeHash (fun h => writeBytes (Hash.bytes h)) bound :=
  decodes_byteArray (by decide) (by decide) (fun h => length_fixedBytes 32 _)
    (ofNat_beNat_fixedBytes rfl) fun _ hb => fixedBytes_ofNat_beNat rfl hb

lemma decodes_to : Decodes (decodeNilPtr .string decodeAddress) (fun o => (toItem o).encode) bound := by
  have haddress : Decodes decodeAddress (fun a => writeBytes (Address.bytes a)) bound := decodes_address
  have h := haddress.nilPtr kindFirst_byteArray.map fun hk hkind hsize hrun => by
    obtain ⟨b, hb, -⟩ := map_run_ok hrun
    exact decodeByteArray_empty (by decide) (by decide) hk hkind hsize hb
  refine h.congr fun o => ?_
  cases o with
  | none => rfl
  | some a =>
    rw [toItem, encode]
    rfl

variable {α : Type}

/-- The items of a slice. -/
lemma encode_map (f : α → Item) (l : List α) :
    (list (l.map f)).encode = encodeList (List.flatMap fun x => (f x).encode) l := by
  rw [encode_list, encodeList, encodeList, flatMap_map]

lemma decodes_slice_map {dec : StreamM α} {f : α → Item} (h : Decodes dec (fun x => (f x).encode) bound) :
    Decodes (decodeListSlice dec bound) (fun l => (list (l.map f)).encode) bound :=
  (h.slice.mono (Nat.le_succ bound)).congr fun l => (encode_map f l).symm

def AccessTuple.item (t : AccessTuple) : Item :=
  .list [.str (Address.bytes t.address), .list (t.storageKeys.map fun k => .str (Hash.bytes k))]

lemma decodes_str {dec : StreamM α} {f : α → List UInt8} (h : Decodes dec (fun x => writeBytes (f x)) bound) :
    Decodes dec (fun x => (str (f x)).encode) bound := h.congr fun x => by rw [encode]

lemma decodes_accessTuple (fuel : Nat) : Decodes (AccessTuple.decode fuel) (fun t => t.item.encode) fuel := by
  have hkey : Decodes decodeHash (fun k => (str (Hash.bytes k)).encode) fuel := decodes_str decodes_hash
  have hkeys := decodes_slice_map hkey
  have h := ((DecodesBody.cons (decodes_str decodes_address) (.cons hkeys .nil)).decodes.mono (Nat.le_succ fuel)).map
    (f := fun (address, storageKeys, ()) => (⟨address, storageKeys⟩ : AccessTuple))
    (g := fun t => (t.address, t.storageKeys, ())) (fun _ => rfl) (fun _ => rfl)
  refine h.congr fun t => ?_
  rw [AccessTuple.item, encode.eq_2]
  rfl

lemma decodes_nat : Decodes decodeBigInt (fun n => (nat n).encode) bound :=
  decodes_bigInt.congr fun n => by rw [nat, encode, encodeNat]

lemma decodes_uint64 : Decodes (uint 64) (fun n => (nat n.toNat).encode) bound :=
  decodes_uint.congr fun n => by rw [nat, encode, encodeNat]

lemma decodes_data : Decodes bytes (fun b => (str b).encode) bound := decodes_str decodes_bytes

lemma decodes_accessList (fuel : Nat) :
    Decodes (decodeListSlice (AccessTuple.decode fuel) fuel) (fun l => (accessListItem l).encode) fuel :=
  decodes_slice_map (decodes_accessTuple fuel)

end Fields

/-! ## Inner transactions -/

section Inner
variable (fuel : Nat)

lemma decodes_legacyTx : Decodes (LegacyTx.decode fuel) (fun tx => (legacy tx).item.encode) fuel := by
  have h := (DecodesBody.cons decodes_uint64 <| .cons decodes_nat <| .cons decodes_uint64 <| .cons decodes_to <|
    .cons decodes_nat <| .cons decodes_data <| .cons decodes_nat <| .cons decodes_nat <|
    .cons decodes_nat .nil).decodes.mono (Nat.le_succ fuel)
  refine .congr (h.map (g := fun tx : LegacyTx =>
    (tx.nonce, tx.gasPrice, tx.gas, tx.toAddr, tx.value, tx.data, tx.v, tx.r, tx.s, ())) (fun _ => rfl) fun _ => rfl) fun tx => ?_
  rw [item, encode.eq_2]
  rfl

lemma decodes_accessListTx : Decodes (AccessListTx.decode fuel) (fun tx => (accessList tx).item.encode) fuel := by
  have h := (DecodesBody.cons decodes_nat <| .cons decodes_uint64 <| .cons decodes_nat <| .cons decodes_uint64 <|
    .cons decodes_to <| .cons decodes_nat <| .cons decodes_data <| .cons (decodes_accessList fuel) <|
    .cons decodes_nat <| .cons decodes_nat <| .cons decodes_nat .nil).decodes.mono (Nat.le_succ fuel)
  refine .congr (h.map (g := fun tx : AccessListTx => (tx.chainID, tx.nonce, tx.gasPrice, tx.gas, tx.toAddr, tx.value,
    tx.data, tx.accessList, tx.v, tx.r, tx.s, ())) (fun _ => rfl) fun _ => rfl) fun tx => ?_
  rw [item, encode.eq_2]
  rfl

lemma decodes_dynamicFeeTx : Decodes (DynamicFeeTx.decode fuel) (fun tx => (dynamicFee tx).item.encode) fuel := by
  have h := (DecodesBody.cons decodes_nat <| .cons decodes_uint64 <| .cons decodes_nat <| .cons decodes_nat <|
    .cons decodes_uint64 <| .cons decodes_to <| .cons decodes_nat <| .cons decodes_data <|
    .cons (decodes_accessList fuel) <| .cons decodes_nat <| .cons decodes_nat <|
    .cons decodes_nat .nil).decodes.mono (Nat.le_succ fuel)
  refine .congr (h.map (g := fun tx : DynamicFeeTx => (tx.chainID, tx.nonce, tx.gasTipCap, tx.gasFeeCap, tx.gas, tx.toAddr,
    tx.value, tx.data, tx.accessList, tx.v, tx.r, tx.s, ())) (fun _ => rfl) fun _ => rfl) fun tx => ?_
  rw [item, encode.eq_2]
  rfl

end Inner

/-! ## What is written -/

lemma writes_items {fields : List (EncBuffer → EncBuffer)} {items : List Item}
    (h : List.Forall₂ (fun f i => Writes f i.encode) fields items) : Writes (writeStruct fields) (list items).encode := by
  have h' : List.Forall₂ Writes fields (items.map encode) := List.forall₂_map_right_iff.2 h
  rw [encode_list, encodeList, flatMap_def]
  exact writes_writeStruct h'

lemma writes_str (b : List UInt8) : Writes (writeBytes b) (str b).encode := by
  rw [encode]
  exact writes_writeBytes b

lemma writes_nat (n : Nat) : Writes (writeBigInt n) (nat n).encode := by
  rw [nat, encode]
  exact writes_writeBigInt n

lemma writes_uint64 (n : UInt64) : Writes (writeUint64 n) (nat n.toNat).encode := by
  rw [nat, encode]
  exact writes_writeUint64 n

lemma writes_array {b : List UInt8} (hb : b.length ≠ 1) : Writes (writeByteArray b) (str b).encode := by
  rw [encode]
  exact writes_writeByteArray hb

lemma writes_address (a : Address) : Writes (writeAddress a) (str (Address.bytes a)).encode :=
  writes_array (by rw [Address.bytes, length_fixedBytes]; decide)

lemma writes_to (o : Option Address) : Writes (writePtr writeAddress o) (toItem o).encode := by
  cases o with
  | none => exact writes_writePtr writes_address none
  | some a => exact writes_address a

lemma writes_slice {writer : α → EncBuffer → EncBuffer} {f : α → Item}
    (h : ∀ a, Writes (writer a) (f a).encode) (l : List α) : Writes (writeSlice writer l) (list (l.map f)).encode := by
  rw [encode_map]
  exact writes_writeSlice h l

lemma writes_accessTuple (t : AccessTuple) : Writes t.write t.item.encode := by
  have hkeys := writes_slice (fun k => writes_array (b := Hash.bytes k) (by rw [Hash.bytes, length_fixedBytes]; decide))
    t.storageKeys
  exact writes_items (.cons (writes_address _) <| .cons hkeys .nil)

lemma writes_accessList (l : List AccessTuple) : Writes (writeSlice AccessTuple.write l) (accessListItem l).encode :=
  writes_slice writes_accessTuple l

lemma Transaction.writes (tx : Transaction) : Writes tx.write tx.item.encode := by
  cases tx with
  | legacy tx =>
    exact writes_items (.cons (writes_uint64 _) <| .cons (writes_nat _) <| .cons (writes_uint64 _) <| .cons (writes_to _) <|
      .cons (writes_nat _) <| .cons (writes_str _) <| .cons (writes_nat _) <| .cons (writes_nat _) <|
      .cons (writes_nat _) .nil)
  | accessList tx =>
    exact writes_items (.cons (writes_nat _) <| .cons (writes_uint64 _) <| .cons (writes_nat _) <|
      .cons (writes_uint64 _) <| .cons (writes_to _) <| .cons (writes_nat _) <| .cons (writes_str _) <|
      .cons (writes_accessList _) <| .cons (writes_nat _) <| .cons (writes_nat _) <| .cons (writes_nat _) .nil)
  | dynamicFee tx =>
    exact writes_items (.cons (writes_nat _) <| .cons (writes_uint64 _) <| .cons (writes_nat _) <| .cons (writes_nat _) <|
      .cons (writes_uint64 _) <| .cons (writes_to _) <| .cons (writes_nat _) <| .cons (writes_str _) <|
      .cons (writes_accessList _) <| .cons (writes_nat _) <| .cons (writes_nat _) <| .cons (writes_nat _) .nil)

namespace Transaction

lemma marshalBinary_eq (tx : Transaction) : tx.marshalBinary = tx.encodeIndex := by
  rw [marshalBinary, encodeIndex, encodeTyped, tx.writes.makeBytes]

/-- The bytes of a transaction within other values. -/
def encodeNested (tx : Transaction) : List UInt8 :=
  if tx.type = 0 then tx.item.encode else Rlp.writeBytes tx.encodeIndex

lemma encodeToBytes_eq (tx : Transaction) : tx.encodeToBytes = tx.encodeNested := by
  rw [encodeToBytes, encodeRLP, encodeNested]
  split
  · exact tx.writes.makeBytes
  · next h =>
    rw [(writes_writeBytes _).makeBytes, encodeTyped, encodeIndex, if_neg h, tx.writes.makeBytes]

end Transaction

/-! ## The two envelopes -/

/-- The first byte of a head says the kind. -/
lemma head_puthead {tag size : Nat} {x : UInt8} {rest : List UInt8} (htag : tag ≤ 0xc0) (hsize : size < 2 ^ 64)
    (hx : x ∈ (puthead tag (tag + 55) size ++ rest).head?) : tag ≤ x.toNat ∧ x.toNat < tag + 64 := by
  rw [puthead] at hx
  split at hx
  · simp only [cons_append, head?_cons, mem_some_iff] at hx
    rw [← hx, toNat_ofNat8 (by omega)]
    omega
  · have hlen : (beBytes size).length ≤ 8 := length_beBytes_le hsize
    simp only [cons_append, head?_cons, mem_some_iff] at hx
    rw [← hx, toNat_ofNat8 (by omega)]
    omega

lemma le_head_list {l : List Item} {x : UInt8} (hl : (list l).encode.length < 2 ^ 64)
    (hx : x ∈ (list l).encode.head?) : 0xc0 ≤ x.toNat := by
  rw [encode_list, encodeList] at hl hx
  rw [length_append] at hl
  exact (head_puthead le_rfl (by omega) hx).1

namespace Transaction

variable {b b' : List UInt8} {e : DecodeError} {tx : Transaction}

lemma type_eq_zero : tx.type = 0 ↔ ∃ inner, tx = legacy inner := by
  cases tx with
  | legacy tx => exact ⟨fun _ => ⟨tx, rfl⟩, fun _ => rfl⟩
  | accessList | dynamicFee => exact ⟨fun h => absurd h (by simp [type]), fun ⟨_, h⟩ => nomatch h⟩

lemma map_ok_iff {β : Type} {f : α → β} {x : Except DecodeError α} {y : β} :
    f <$> x = .ok y ↔ ∃ a, x = .ok a ∧ f a = y := by
  cases x with
  | error e => exact ⟨nofun, nofun⟩
  | ok a =>
    constructor
    · intro h
      cases h
      exact ⟨a, rfl, rfl⟩
    · rintro ⟨b, hb, rfl⟩
      cases hb
      rfl

lemma decodeTyped_iff (hb : b.length < 2 ^ 64) : decodeTyped b = .ok tx ↔ tx.type ≠ 0 ∧ b = tx.encodeIndex := by
  cases b with
  | nil =>
    constructor
    · exact nofun
    · rintro ⟨htype, h⟩
      rw [encodeIndex, if_neg htype] at h
      cases h
  | cons b0 payload =>
    have hpayload : payload.length < 2 ^ 64 := by
      rw [length_cons] at hb
      omega
    have haccess := fun inner => (decodes_accessListTx _).decodeBytes_iff (a := inner) hpayload
    have hdynamic := fun inner => (decodes_dynamicFeeTx _).decodeBytes_iff (a := inner) hpayload
    rw [decodeTyped]
    split
    · next h1 =>
      rw [map_ok_iff]
      constructor
      · rintro ⟨inner, hrun, rfl⟩
        exact ⟨by simp [type], by rw [(haccess inner).1 hrun, h1]; rfl⟩
      · rintro ⟨htype, h⟩
        cases tx with
        | legacy tx => exact absurd rfl htype
        | accessList tx => exact ⟨tx, (haccess tx).2 (List.cons.inj h).2, rfl⟩
        | dynamicFee tx => exact absurd ((List.cons.inj h).1.symm.trans h1) (by simp [type])
    · next h1 =>
      split
      · next h2 =>
        rw [map_ok_iff]
        constructor
        · rintro ⟨inner, hrun, rfl⟩
          exact ⟨by simp [type], by rw [(hdynamic inner).1 hrun, h2]; rfl⟩
        · rintro ⟨htype, h⟩
          cases tx with
          | legacy tx => exact absurd rfl htype
          | accessList tx => exact absurd (List.cons.inj h).1 h1
          | dynamicFee tx => exact ⟨tx, (hdynamic tx).2 (List.cons.inj h).2, rfl⟩
      · next h2 =>
        constructor
        · exact nofun
        · rintro ⟨htype, h⟩
          cases tx with
          | legacy tx => exact absurd rfl htype
          | accessList tx => exact absurd (List.cons.inj h).1 h1
          | dynamicFee tx => exact absurd (List.cons.inj h).1 h2

lemma unmarshalBinary_iff (hb : b.length < 2 ^ 64) : unmarshalBinary b = .ok tx ↔ b = tx.encodeIndex := by
  have hlegacy := fun inner => (decodes_legacyTx _).decodeBytes_iff (a := inner) hb
  rw [unmarshalBinary]
  split
  · next hhead =>
    rw [map_ok_iff]
    constructor
    · rintro ⟨inner, hrun, rfl⟩
      exact (hlegacy inner).1 hrun
    · intro h
      by_cases htype : tx.type = 0
      · obtain ⟨inner, rfl⟩ := type_eq_zero.1 htype
        exact ⟨inner, (hlegacy inner).2 h, rfl⟩
      · rw [h, encodeIndex, if_neg htype] at hhead
        cases tx with
        | legacy tx => exact absurd rfl htype
        | accessList tx => exact absurd hhead (by simp [type])
        | dynamicFee tx => exact absurd hhead (by simp [type])
  · next hhead =>
    rw [decodeTyped_iff hb]
    refine ⟨And.right, fun h => ⟨fun htype => hhead ?_, h⟩⟩
    obtain ⟨inner, rfl⟩ := type_eq_zero.1 htype
    change b = (item _).encode at h
    cases hi : b with
    | nil => exact absurd (h.symm.trans hi) (encode_ne_nil _)
    | cons x rest =>
      have hx : 0xc0 ≤ x.toNat := le_head_list (l := _) (h ▸ hb) (by rw [← item, ← h, hi]; rfl)
      simp only [head?_cons, Option.any_some, decide_eq_true_eq, UInt8.lt_iff_toNat_lt]
      exact Nat.lt_of_lt_of_le (by decide) hx

lemma map_error {f : α → Transaction} {x : Except DecodeError α} (h : f <$> x = .error e) : x = .error e := by
  cases x with
  | error e => cases h; rfl
  | ok a => cases h

lemma decodeTyped_error (hb : b.length < 2 ^ 64) (h : decodeTyped b = .error e) : e.Plain := by
  cases b with
  | nil =>
    cases h
    exact ⟨nofun, nofun⟩
  | cons b0 payload =>
    have hpayload : payload.length < 2 ^ 64 := by
      rw [length_cons] at hb
      omega
    rw [decodeTyped] at h
    split at h
    · exact (decodes_accessListTx _).decodeBytes_error hpayload (map_error h)
    · split at h
      · exact (decodes_dynamicFeeTx _).decodeBytes_error hpayload (map_error h)
      · cases h
        exact ⟨nofun, nofun⟩

lemma bytes_length_lt {s t : Stream} (hs : s.Ready) (hb : bytes s = .ok b t) : b.length < 2 ^ 64 := by
  obtain ⟨rest, hi, -⟩ := (decodes_bytes : Decodes bytes Rlp.writeBytes 0).sound hs hb
  have hlt := hs.limited.lt
  have hlen := writeBytes_length_le b
  simp [hi] at hlt
  omega

/-- What the bytes of a typed transaction fail with, a list around it does not take for
its end. -/
lemma typed_error {s t : Stream} (hs : s.Ready) (h : (bytes >>= fun b => lift (decodeTyped b)) s = .error e t) :
    bytes s = .error e t ∨ e.Plain := by
  obtain hb | ⟨b, v, hb, hrun⟩ := bind_run_error h
  · exact .inl hb
  · cases htyped : decodeTyped b with
    | ok tx =>
      rw [htyped] at hrun
      cases hrun
    | error e' =>
      rw [htyped] at hrun
      cases hrun
      exact .inr (decodeTyped_error (bytes_length_lt hs hb) htyped)

lemma decodes_transaction (fuel : Nat) : Decodes (decodeRLP fuel) encodeNested fuel := by
  have hlegacy := decodes_legacyTx fuel
  have hfirst : KindFirst (LegacyTx.decode fuel) := kindFirst_struct.map
  refine .of_kind ?complete ?sound ?error ?ne_nil
  case complete =>
    intro s tx rest hs hbound hi hh
    by_cases htype : tx.type = 0
    · obtain ⟨inner, rfl⟩ := type_eq_zero.1 htype
      have hrun := hlegacy.complete hs hbound hi hh
      obtain ⟨fields, hstruct, -⟩ := map_run_ok hrun
      obtain ⟨size, v, hl, -⟩ := bind_run_ok hstruct
      obtain ⟨a, u, hk, hkind⟩ := list_kind hl
      obtain ⟨-, -, -, ha, rfl⟩ := kind_ok hs.limited hs.ahead hk
      rw [← hfirst.at_eq ha hk] at hrun
      simp only [run_bind_of_ok hk, hkind, run_bind_of_ok hrun]
      rfl
    · rw [encodeNested, if_neg htype] at hi hh ⊢
      have hrun := decodes_bytes.complete hs (Nat.lt_succ_self _) hi hh
      obtain ⟨a, hk, hahead⟩ := kind_string hs hi hh
      obtain ⟨-, -, -, ha, -⟩ := kind_ok hs.limited hs.ahead hk
      have hlt := hs.limited.lt
      have hlen := writeBytes_length_le tx.encodeIndex
      have htyped : decodeTyped tx.encodeIndex = .ok tx :=
        (decodeTyped_iff (by simp [hi] at hlt; omega)).2 ⟨htype, rfl⟩
      rw [← kindFirst_bytes.at_eq ha hk] at hrun
      cases hahead with
      | byte _ hb =>
        rw [encodeIndex, if_neg htype] at hb
        exact absurd (List.cons.inj hb).2 (encode_ne_nil _)
      | string hkind =>
        simp only [run_bind_of_ok hk, hkind, run_bind_of_ok hrun, htyped, lift_ok]
  case sound =>
    intro s t tx hs hrun
    obtain ⟨a, u, hk, hrun⟩ := bind_run_ok hrun
    obtain ⟨-, -, -, ha, rfl⟩ := kind_ok hs.limited hs.ahead hk
    cases hkind : a.kind with
    | list =>
      rw [hkind] at hrun
      obtain ⟨inner, v, hinner, hrun⟩ := bind_run_ok hrun
      cases hrun
      rw [hfirst.at_eq ha hk] at hinner
      exact hlegacy.sound hs hinner
    | string =>
      rw [hkind] at hrun
      obtain ⟨b, v, hb, hrun⟩ := bind_run_ok hrun
      rw [kindFirst_bytes.at_eq ha hk] at hb
      obtain ⟨htyped, rfl⟩ := lift_run_ok hrun
      obtain ⟨rest, hi, hskip⟩ := (decodes_bytes : Decodes bytes Rlp.writeBytes 0).sound hs hb
      obtain ⟨htype, rfl⟩ := (decodeTyped_iff (bytes_length_lt hs hb)).1 htyped
      rw [encodeNested, if_neg htype]
      exact ⟨rest, hi, hskip⟩
    | byte =>
      rw [hkind] at hrun
      cases hrun
  case error =>
    intro s t a e hs hk ha hrun
    cases hkind : a.kind with
    | list =>
      rw [hkind] at hrun
      exact hlegacy.error_at hfirst hs hk ha hrun
    | string =>
      simp only [hkind] at hrun
      rw [kindFirst_bytes.bind.at_eq ha hk] at hrun
      obtain hb | hplain := typed_error hs hrun
      · exact decodes_bytes.error hs hk hb
      · exact ⟨hplain.1, fun _ => hplain.2⟩
    | byte =>
      rw [hkind] at hrun
      cases hrun
      exact ⟨nofun, nofun⟩
  case ne_nil =>
    intro tx
    rw [encodeNested]
    split
    · exact encode_ne_nil _
    · exact writeBytes_ne_nil _

/-- The RLP of the bytes that `UnmarshalBinary` reads: a list is its own, other bytes are
put in a string. -/
def envelope (b : List UInt8) : List UInt8 := if b.head?.any (0xc0 ≤ ·) then b else Rlp.encodeToBytes (.str b)

lemma envelope_string (h : ¬ b.head?.any (0xc0 ≤ ·)) : envelope b = Rlp.writeBytes b := by
  rw [envelope, if_neg h, Rlp.encodeToBytes_eq, encode]

lemma envelope_encodeIndex (h : tx.encodeIndex.length < 2 ^ 64) : envelope tx.encodeIndex = tx.encodeNested := by
  by_cases htype : tx.type = 0
  · have hlist : tx.encodeIndex.head?.any (0xc0 ≤ ·) := by
      obtain ⟨inner, rfl⟩ := type_eq_zero.1 htype
      rw [Option.any_eq_true]
      obtain ⟨x, hx⟩ := isSome_iff_exists.1 (isSome_head?.2 (encode_ne_nil (item (.legacy inner))))
      exact ⟨x, hx, decide_eq_true (UInt8.le_iff_toNat_le.2 (le_head_list h hx))⟩
    rw [envelope, if_pos hlist, encodeNested, if_pos htype, encodeIndex, if_pos htype]
  · have hstring : ¬ tx.encodeIndex.head?.any (0xc0 ≤ ·) := by
      rw [encodeIndex, if_neg htype]
      cases tx with
      | legacy tx => exact absurd rfl htype
      | accessList tx => simp [type]
      | dynamicFee tx => simp [type]
    rw [envelope_string hstring, encodeNested, if_neg htype]

lemma head_string_lt {x : UInt8} (hb : b.length < 2 ^ 64) (hx : x ∈ (Rlp.writeBytes b).head?) : x.toNat < 0xc0 := by
  by_cases hbyte : ∃ y, b = [y] ∧ y < 0x80
  · obtain ⟨y, rfl, hy⟩ := hbyte
    rw [writeBytes_byte hy, head?_cons, mem_some_iff] at hx
    rw [← hx]
    exact Nat.lt_trans (UInt8.lt_iff_toNat_lt.1 hy) (by decide)
  · rw [writeBytes_string fun y hy hlt => hbyte ⟨y, hy, hlt⟩] at hx
    exact (head_puthead (by decide) hb hx).2

lemma writeBytes_inj (hb : (Rlp.writeBytes b).length < 2 ^ 64)
    (h : Rlp.writeBytes b = Rlp.writeBytes b') : b = b' := by
  have hiff : ∀ c, decodeBytes (fun _ => bytes) (Rlp.writeBytes b) = .ok c ↔ Rlp.writeBytes b = Rlp.writeBytes c :=
    fun c => decodes_bytes.decodeBytes_iff hb
  have hrun := ((hiff b).2 rfl).symm.trans ((hiff b').2 h)
  cases hrun
  rfl

lemma length_le_envelope (b : List UInt8) : b.length ≤ (envelope b).length := by
  by_cases hlist : b.head?.any (0xc0 ≤ ·)
  · rw [envelope, if_pos hlist]
  · rw [envelope_string hlist]
    exact writeBytes_length_le b

lemma envelope_inj (hb : (envelope b).length < 2 ^ 64) (h : envelope b = envelope b') : b = b' := by
  have hlen := length_le_envelope b
  have hlen' := length_le_envelope b'
  have hdisjoint : ∀ {c c' : List UInt8}, c'.length < 2 ^ 64 → c.head?.any (0xc0 ≤ ·) → c ≠ Rlp.writeBytes c' := by
    rintro c c' hc' hlist rfl
    rw [Option.any_eq_true] at hlist
    obtain ⟨x, hx, hle⟩ := hlist
    rw [decide_eq_true_iff, UInt8.le_iff_toNat_le] at hle
    exact absurd (head_string_lt hc' hx) (Nat.not_lt.2 hle)
  by_cases hlist : b.head?.any (0xc0 ≤ ·)
  · by_cases hlist' : b'.head?.any (0xc0 ≤ ·)
    · rwa [envelope, if_pos hlist, envelope, if_pos hlist'] at h
    · rw [envelope_string hlist'] at h
      rw [envelope, if_pos hlist] at h hb
      exact absurd h (hdisjoint (by rw [envelope_string hlist'] at hlen'; rw [h] at hb; omega) hlist)
  · by_cases hlist' : b'.head?.any (0xc0 ≤ ·)
    · rw [envelope_string hlist, envelope, if_pos hlist'] at h
      exact absurd h.symm (hdisjoint (by omega) hlist')
    · rw [envelope_string hlist] at h hb
      rw [envelope_string hlist'] at h
      exact writeBytes_inj hb h

/-- A transaction of each type comes back from either form, the two entry points accept
the same bytes but for the string around a typed transaction, and no transaction has two
encodings. -/
theorem wire_format :
    (∀ tx : Transaction, tx.marshalBinary.length < 2 ^ 63 → unmarshalBinary tx.marshalBinary = .ok tx) ∧
    (∀ tx : Transaction, tx.encodeToBytes.length < 2 ^ 63 → decodeBytes decodeRLP tx.encodeToBytes = .ok tx) ∧
    (∀ b tx, b.length < 2 ^ 63 → unmarshalBinary b = .ok tx → tx.marshalBinary = b) ∧
    (∀ b tx, b.length < 2 ^ 63 → decodeBytes decodeRLP b = .ok tx → tx.encodeToBytes = b) ∧
    (∀ b tx, (envelope b).length < 2 ^ 63 →
      (unmarshalBinary b = .ok tx ↔ decodeBytes decodeRLP (envelope b) = .ok tx)) ∧
    (∀ b b' tx, b.length < 2 ^ 63 → b'.length < 2 ^ 63 → unmarshalBinary b = .ok tx → unmarshalBinary b' = .ok tx →
      b = b') ∧
    ∀ b, b.length < 2 ^ 63 → unmarshalBinary b ≠ .error .endless ∧ decodeBytes decodeRLP b ≠ .error .endless := by
  have h64 : ∀ {n : Nat}, n < 2 ^ 63 → n < 2 ^ 64 := fun h => h.trans (by decide)
  have hnested : ∀ {b : List UInt8} {tx}, b.length < 2 ^ 63 → (decodeBytes decodeRLP b = .ok tx ↔ b = tx.encodeNested) :=
    fun hb => (decodes_transaction _).decodeBytes_iff (h64 hb)
  refine ⟨?marshal, ?encode, ?unmarshal, ?decode, ?corresponding, ?injective, ?halts⟩
  case marshal =>
    intro tx htx
    rw [unmarshalBinary_iff (h64 htx), marshalBinary_eq]
  case encode =>
    intro tx htx
    rw [hnested htx, encodeToBytes_eq]
  case unmarshal =>
    intro b tx hb hrun
    rw [marshalBinary_eq, (unmarshalBinary_iff (h64 hb)).1 hrun]
  case decode =>
    intro b tx hb hrun
    rw [encodeToBytes_eq, (hnested hb).1 hrun]
  case corresponding =>
    intro b tx hb
    have hlen := length_le_envelope b
    rw [unmarshalBinary_iff (by omega), hnested hb]
    constructor
    · rintro rfl
      exact envelope_encodeIndex (by omega)
    · intro h
      have hindex : tx.encodeIndex.length ≤ tx.encodeNested.length := by
        rw [encodeNested]
        split
        · next htype => rw [encodeIndex, if_pos htype]
        · exact writeBytes_length_le _
      rw [h] at hb
      refine envelope_inj (h ▸ h64 hb) ?_
      rw [h, envelope_encodeIndex (by omega)]
  case injective =>
    intro b b' tx hb hb' hrun hrun'
    rw [(unmarshalBinary_iff (h64 hb)).1 hrun, (unmarshalBinary_iff (h64 hb')).1 hrun']
  case halts =>
    intro b hb
    refine ⟨fun hrun => ?_, fun hrun => ((decodes_transaction _).decodeBytes_error (h64 hb) hrun).2 rfl⟩
    rw [unmarshalBinary] at hrun
    split at hrun
    · exact ((decodes_legacyTx _).decodeBytes_error (h64 hb) (map_error hrun)).2 rfl
    · exact (decodeTyped_error (h64 hb) hrun).2 rfl

/-- A contract creation with an empty access list, in both forms. -/
theorem contract_creation_wire : unmarshalBinary [1, 0xcb, 56, 7, 5, 0x80, 0x80, 0x80, 1, 0xc0, 0x80, 9, 9] =
      .ok (.accessList ⟨56, 7, 5, 0, none, 0, [1], [], 0, 9, 9⟩) ∧
    decodeBytes decodeRLP [0x8d, 1, 0xcb, 56, 7, 5, 0x80, 0x80, 0x80, 1, 0xc0, 0x80, 9, 9] =
      .ok (.accessList ⟨56, 7, 5, 0, none, 0, [1], [], 0, 9, 9⟩) := by
  have hmarshal : marshalBinary (.accessList ⟨56, 7, 5, 0, none, 0, [1], [], 0, 9, 9⟩) =
      [1, 0xcb, 56, 7, 5, 0x80, 0x80, 0x80, 1, 0xc0, 0x80, 9, 9] := by decide
  have henvelope : envelope [1, 0xcb, 56, 7, 5, 0x80, 0x80, 0x80, 1, 0xc0, 0x80, 9, 9] =
      [0x8d, 1, 0xcb, 56, 7, 5, 0x80, 0x80, 0x80, 1, 0xc0, 0x80, 9, 9] := by decide
  have hrun := wire_format.1 (.accessList ⟨56, 7, 5, 0, none, 0, [1], [], 0, 9, 9⟩) (by rw [hmarshal]; decide)
  rw [hmarshal] at hrun
  refine ⟨hrun, ?_⟩
  rw [← henvelope]
  exact (wire_format.2.2.2.2.1 _ _ (by rw [henvelope]; decide)).1 hrun

/-! ## Sizes -/

/-- A transaction and the size that it was decoded with, if it was. -/
structure Sized where
  tx : Transaction
  cached : Option Nat

def Sized.size (t : Sized) : Nat := t.cached.getD (t.tx.write .empty).makeBytes.length

/-- Also what `WithSignature` returns. -/
def newTx (tx : Transaction) : Sized := ⟨tx, none⟩

def setDecoded (tx : Transaction) (size : Nat) : Sized := ⟨tx, if 0 < size then some size else none⟩

def listSize (contentSize : UInt64) : UInt64 := .ofNat (headsize contentSize.toNat) + contentSize

def unmarshalSized (b : List UInt8) : Except DecodeError Sized := (setDecoded · b.length) <$> unmarshalBinary b

/-- `DecodeRLP` with the size it stores. -/
def decodeSized (fuel : Nat) : StreamM Sized := do
  let a ← kind
  match a.kind with
  | .list =>
    let inner ← LegacyTx.decode fuel
    return setDecoded (legacy inner) (listSize a.size).toNat
  | .string =>
    let b ← bytes
    let tx ← lift (decodeTyped b)
    return setDecoded tx b.length
  | .byte => throw .expectedList

lemma size_setDecoded (tx : Transaction) : (setDecoded tx tx.encodeIndex.length).size = tx.marshalBinary.length := by
  have hpos : 0 < tx.encodeIndex.length := by
    rw [encodeIndex]
    split
    · exact length_pos_iff.2 (encode_ne_nil _)
    · exact Nat.succ_pos _
  rw [setDecoded, if_pos hpos, marshalBinary_eq]
  rfl

/-- The header gives the size of the whole list. -/
lemma toNat_listSize {s : Stream} {a : Ahead} {l : List Item} {rest rest' : List UInt8} (hlt : s.input.length < 2 ^ 64)
    (ha : a.Sound) (hi : s.input = a.header ++ rest) (hsize : a.size.toNat ≤ rest.length)
    (hi' : s.input = (list l).encode ++ rest') : (listSize a.size).toNat = (list l).encode.length := by
  have hkind : ∀ (a : Ahead) rest, a.Sound → s.input = a.header ++ rest → a.size.toNat ≤ rest.length →
      kind (newStream s.input) = .ok a ((newStream s.input).at a) := fun a rest ha hi hsize =>
    kind_eq ha (toNat_ofNat64 hlt) rfl hi hsize (by rintro limit ⟨⟩)
  rw [encode, append_assoc] at hi'
  rw [encode, length_append, length_puthead]
  rw [hi', length_append, length_append, length_puthead] at hlt
  have hlen : (UInt64.ofNat (encodeItems l).length).toNat = (encodeItems l).length := toNat_ofNat64 (by omega)
  have hlist := hkind ⟨.list, .ofNat (encodeItems l).length, 0, none⟩ (encodeItems l ++ rest') ⟨rfl, nofun, fun _ => rfl⟩
    (by simp only [Ahead.header, hlen, hi']) (by simp [hlen])
  cases (hkind a rest ha hi hsize).symm.trans hlist
  rw [listSize, UInt64.toNat_add, hlen, toNat_ofNat64 (by omega), Nat.mod_eq_of_lt (by omega)]

/-- Decoding stores the size of the canonical encoding. A transaction that was built here and
has a type byte is counted without it. -/
theorem size_of_provenance (t : Sized) :
    (t = newTx t.tx → t.size + (if t.tx.type = 0 then 0 else 1) = t.tx.marshalBinary.length) ∧
    (∀ b, b.length < 2 ^ 63 → unmarshalSized b = .ok t → t.size = t.tx.marshalBinary.length) ∧
    ∀ fuel s s', s.Ready → decodeSized fuel s = .ok t s' → t.size = t.tx.marshalBinary.length := by
  refine ⟨fun hnew => ?_, fun b hb hrun => ?_, fun fuel s s' hs hrun => ?_⟩
  · obtain ⟨tx, cached⟩ := t
    cases hnew
    rw [marshalBinary, encodeTyped]
    split <;> rfl
  · obtain ⟨tx, htx, rfl⟩ := map_ok_iff.1 (show (setDecoded · b.length) <$> unmarshalBinary b = .ok t from hrun)
    rw [(unmarshalBinary_iff (hb.trans (by decide))).1 htx]
    exact size_setDecoded tx
  · obtain ⟨a, u, hk, hrun⟩ := bind_run_ok hrun
    obtain ⟨rest, hi, hsize, ha, rfl⟩ := kind_ok hs.limited hs.ahead hk
    have hlt := hs.limited.lt
    cases hkind : a.kind with
    | list =>
      rw [hkind] at hrun
      obtain ⟨inner, v, hinner, hrun⟩ := bind_run_ok hrun
      cases hrun
      have hfirst : KindFirst (LegacyTx.decode fuel) := kindFirst_struct.map
      rw [hfirst.at_eq ha hk] at hinner
      obtain ⟨rest', hi', -⟩ := (decodes_legacyTx fuel).sound hs hinner
      rw [toNat_listSize hlt ha hi hsize hi']
      exact size_setDecoded (legacy inner)
    | string =>
      rw [hkind] at hrun
      obtain ⟨b, v, hb, hrun⟩ := bind_run_ok hrun
      obtain ⟨tx, w, hlift, hrun⟩ := bind_run_ok hrun
      cases hrun
      rw [kindFirst_bytes.at_eq ha hk] at hb
      obtain ⟨htyped, rfl⟩ := lift_run_ok hlift
      obtain ⟨-, rfl⟩ := (decodeTyped_iff (bytes_length_lt hs hb)).1 htyped
      exact size_setDecoded tx
    | byte =>
      rw [hkind] at hrun
      cases hrun

def typedBytes : List UInt8 := [1, 0xcb, 56, 7, 5, 0x80, 0x80, 0x80, 1, 0xc0, 0x80, 9, 9]

/-- A typed transaction from its binary form, and from a stream, where it is a string. -/
theorem size_of_decoded : (∃ t, unmarshalSized typedBytes = .ok t ∧ t.size = t.tx.marshalBinary.length) ∧
    ∃ t s', decodeSized 99 (newStream (0x8d :: typedBytes)) = .ok t s' ∧ t.size = t.tx.marshalBinary.length := by
  have hbinary : returns (unmarshalSized typedBytes) (fun _ => true) = true := by decide
  have hstream : returns (resultOf (decodeSized 99 (newStream (0x8d :: typedBytes)))) (fun _ => true) = true := by
    decide +kernel
  obtain ⟨t, ht, -⟩ := of_returns hbinary
  obtain ⟨u, hu, -⟩ := of_returns hstream
  have hu := of_resultOf_ok hu
  exact ⟨⟨t, ht, (size_of_provenance t).2.1 _ (by decide) ht⟩,
    u, _, hu, (size_of_provenance u).2.2 _ _ _ (newStream_ready (by decide)) hu⟩

theorem local_size_without_type : (newTx (.accessList ⟨56, 7, 5, 0, none, 0, [1], [], 0, 9, 9⟩)).size = 12 ∧
      marshalBinary (.accessList ⟨56, 7, 5, 0, none, 0, [1], [], 0, 9, 9⟩) = typedBytes := by
  decide

end Transaction

end TurboOctopus.Types
