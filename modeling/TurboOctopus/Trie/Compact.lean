import TurboOctopus.Trie.StackTrie
import TurboOctopus.Trie.History
import TurboOctopus.Types.Wire
/-!
# Compact keys in a buffer

`hexToCompactInPlace` reads the digits ahead of the bytes that it writes, and leaves the
bytes of `hexToCompact`.
-/
namespace TurboOctopus.Trie

open Lib TurboOctopus.Types List

lemma length_bytes (h : Hash) : (Hash.bytes h).length = 32 := length_fixedBytes 32 _

lemma bytesToHash_bytes (h : Hash) : StackTrie.bytesToHash (Hash.bytes h) = h :=
  ofNat_beNat_fixedBytes (show 256 = 8 * 32 from rfl) h

def packPairs : List UInt8 → List UInt8
  | a :: b :: rest => ((a <<< 4) ||| b) :: packPairs rest
  | _ => []

/-- What is written stays behind what is read. -/
lemma packLoop_take {hexLen fuel bi ni m : Nat} {hex : List UInt8} (hfuel : m ≤ fuel) (hbi : bi ≤ ni + 1)
    (hni : ni + 2 * m = hexLen) (hlen : hexLen ≤ hex.length) :
    (packLoop hexLen fuel bi ni hex).take (bi + m) = hex.take bi ++ packPairs ((hex.drop ni).take (2 * m)) := by
  induction m generalizing fuel bi ni hex with
  | zero =>
    have hloop : packLoop hexLen fuel bi ni hex = hex := by
      cases fuel with
      | zero => rfl
      | succ fuel => rw [packLoop, if_neg (by omega)]
    simp [hloop, packPairs]
  | succ m ih =>
    obtain ⟨fuel, rfl⟩ : ∃ k, fuel = k + 1 := ⟨fuel - 1, by omega⟩
    have h0 : ni < hex.length := by omega
    have h1 : ni + 1 < hex.length := by omega
    have hb : bi < hex.length := by omega
    rw [packLoop, if_pos (by omega)]
    generalize hx : (hex.getD ni 0 <<< 4) ||| hex.getD (ni + 1) 0 = x
    have hstep : (packLoop hexLen fuel (bi + 1) (ni + 2) (hex.set bi x)).take (bi + 1 + m) = _ :=
      ih (by omega) (by omega) (by omega) (by simpa using hlen)
    rw [show bi + (m + 1) = bi + 1 + m by omega, hstep]
    have hread : (hex.drop ni).take (2 * (m + 1)) = hex.getD ni 0 :: hex.getD (ni + 1) 0 :: (hex.drop (ni + 2)).take (2 * m) := by
      rw [drop_eq_getElem_cons h0, drop_eq_getElem_cons h1, show 2 * (m + 1) = 2 * m + 1 + 1 by omega,
        take_succ_cons, take_succ_cons]
      simp [h0, h1]
    have hwritten : (hex.set bi x).take (bi + 1) = hex.take bi ++ [x] := by
      rw [take_add_one, take_set_of_le (le_refl bi), List.getElem?_set_self hb]
      rfl
    have hahead : (hex.set bi x).drop (ni + 2) = hex.drop (ni + 2) := drop_set_of_lt (by omega)
    rw [hread, hwritten, hahead, packPairs, hx, append_assoc]
    rfl

lemma pack_digits (a b : Nibble) :
    (UInt8.ofNat a.val <<< 4) ||| UInt8.ofNat b.val = UInt8.ofNat (a.val * 16 + b.val) := by
  revert a b
  decide

lemma packPairs_nibbleBytes (key : List Nibble) : packPairs (nibbleBytes key) = decodeNibbles (key.map Fin.castSucc) := by
  match key with
  | [] => rfl
  | [_] => rfl
  | a :: b :: rest =>
    have hrest := packPairs_nibbleBytes rest
    simp only [nibbleBytes, map_cons, packPairs, decodeNibbles, Fin.val_castSucc, pack_digits] at hrest ⊢
    rw [hrest]

lemma compactInPlace_cons {hex : List UInt8} {hexLen : Nat} (flag : UInt8) (hne : hex ≠ [])
    (hlen : hexLen = if hex.getLast? = some 16 then hex.length - 1 else hex.length)
    (hflag : flag = if hex.getLast? = some 16 then 0x20 else 0) :
    compactInPlace hex =
      (if hexLen % 2 = 1 then flag ||| 0x10 ||| hex.getD 0 0 else flag) ::
        packPairs ((hex.drop (hexLen % 2)).take (2 * (hexLen / 2))) := by
  have hle : hexLen ≤ hex.length := by
    rw [hlen]
    split <;> omega
  have hni : (if hexLen % 2 = 1 then 1 else 0) = hexLen % 2 := by
    split <;> omega
  obtain ⟨digit, rest, hhex⟩ := exists_cons_of_ne_nil hne
  have hloop : (packLoop hexLen hexLen 1 (hexLen % 2) hex).take (1 + hexLen / 2) = _ :=
    packLoop_take (by omega) (by omega) (by omega) hle
  rw [compactInPlace, hexToCompactInPlace]
  dsimp only
  rw [← hlen, hni, Nat.add_comm, take_set, hloop]
  simp only [hhex, take_succ_cons, take_zero, cons_append, nil_append, set_cons_zero, hflag]
  rfl

lemma getLast?_nibbleBytes (key : List Nibble) : (nibbleBytes key).getLast? ≠ some 16 := by
  intro h
  obtain ⟨digit, -, hdigit⟩ := mem_map.1 (mem_of_getLast? h)
  revert hdigit
  revert digit
  decide

/-- A key of nibbles and its end. -/
def hexKey (key : List Nibble) : List HexDigit := key.map Fin.castSucc ++ [16]

lemma hasTerm_hexKey (key : List Nibble) : hasTerm (hexKey key) = true := by
  simp [hasTerm, hexKey]

lemma hasTerm_map (key : List Nibble) : hasTerm (key.map Fin.castSucc) = false := by
  rw [hasTerm, decide_eq_false_iff_not]
  intro h
  obtain ⟨digit, -, hdigit⟩ := mem_map.1 (mem_of_getLast? h)
  exact (Fin.castSucc_lt_last digit).ne hdigit

/-- `hexToCompact` of digits, with the flag for the end. -/
lemma hexToCompact_cons {hex : List HexDigit} (key : List Nibble) (terminator : Nat)
    (hterm : (if hasTerm hex then 1 else 0) = terminator) (hkey : (if hasTerm hex then hex.dropLast else hex) = key.map Fin.castSucc) :
    hexToCompact hex =
      (if key.length % 2 = 1 then UInt8.ofNat (terminator * 32 + 16 + (key.headD 0).val) else UInt8.ofNat (terminator * 32)) ::
        decodeNibbles ((key.drop (key.length % 2)).map Fin.castSucc) := by
  rw [hexToCompact, hterm, hkey]
  cases key with
  | nil => rfl
  | cons a rest =>
    simp only [map_cons, length_cons, length_map]
    split
    · next hodd => simp [hodd]
    · next heven =>
      have hzero : (rest.length + 1) % 2 = 0 := by omega
      simp [hzero]

lemma flag_byte (digit : Nibble) (terminator : Fin 2) :
    (UInt8.ofNat (terminator.val * 32) ||| 0x10) ||| UInt8.ofNat digit.val =
      UInt8.ofNat (terminator.val * 32 + 16 + digit.val) := by
  revert digit terminator
  decide

lemma getD_nibbleBytes (key : List Nibble) (rest : List UInt8) (hkey : key ≠ []) :
    (nibbleBytes key ++ rest).getD 0 0 = UInt8.ofNat (key.headD 0).val := by
  cases key with
  | nil => exact absurd rfl hkey
  | cons a key => rfl

lemma pairs_nibbleBytes (key : List Nibble) (rest : List UInt8) :
    packPairs (((nibbleBytes key ++ rest).drop (key.length % 2)).take (2 * (key.length / 2))) =
      decodeNibbles ((key.drop (key.length % 2)).map Fin.castSucc) := by
  have hlen : (nibbleBytes key).length = key.length := length_map ..
  rw [drop_append_of_le_length (by omega), ← packPairs_nibbleBytes, nibbleBytes, ← map_drop]
  congr 1
  apply take_left'
  simp
  omega

lemma compactInPlace_leaf (key : List Nibble) : compactInPlace (nibbleBytes key ++ [16]) = hexToCompact (hexKey key) := by
  have hlen : key.length =
      if (nibbleBytes key ++ [16]).getLast? = some 16 then (nibbleBytes key ++ [16]).length - 1
      else (nibbleBytes key ++ [16]).length := by
    simp [nibbleBytes]
  rw [compactInPlace_cons 0x20 (by simp) hlen (by simp), pairs_nibbleBytes,
    hexToCompact_cons key 1 (by rw [hasTerm_hexKey]; rfl) (by rw [hasTerm_hexKey]; simp [hexKey])]
  congr 1
  split
  · next hodd =>
    have hne : key ≠ [] := by
      rintro rfl
      cases hodd
    rw [getD_nibbleBytes key [16] hne]
    exact flag_byte _ 1
  · rfl

lemma compactInPlace_ext {key : List Nibble} (hne : key ≠ []) :
    compactInPlace (nibbleBytes key) = hexToCompact (key.map Fin.castSucc) := by
  have hlast := getLast?_nibbleBytes key
  have hlen : key.length =
      if (nibbleBytes key).getLast? = some 16 then (nibbleBytes key).length - 1 else (nibbleBytes key).length := by
    rw [if_neg hlast]
    simp [nibbleBytes]
  have hpairs := pairs_nibbleBytes key []
  have hhead := getD_nibbleBytes key [] hne
  rw [append_nil] at hpairs hhead
  rw [compactInPlace_cons 0 (by simpa [nibbleBytes] using hne) hlen (by rw [if_neg hlast]), hpairs,
    hexToCompact_cons key 0 (by rw [hasTerm_map]; rfl) (by rw [hasTerm_map]; rfl)]
  congr 1
  split
  · rw [hhead]
    exact flag_byte _ 0
  · rfl

end TurboOctopus.Trie
