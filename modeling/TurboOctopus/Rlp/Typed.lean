import TurboOctopus.Rlp.Codec
/-!
# Decoders of Go types

Unsigned integers, big integers, byte arrays, pointers that may be nil, and structs: each
decoder reads exactly what the encoder writes for the type.
-/
namespace TurboOctopus.Rlp

open Lib Lib.Rlp List UInt64 TurboOctopus.Rlp.Stream

variable {α β : Type} {s t : Stream} {n bound : Nat}

variable {a : α} {b rest : List UInt8} {dec x : StreamM α} {e : DecodeError} {enc : α → List UInt8} {len : Nat}

lemma Decodes.mono (hn : n ≤ bound) (h : Decodes dec enc bound) :
    Decodes dec enc n where
  complete hs hlt hi hh := h.complete hs (hlt.trans_le hn) hi hh
  sound hs hrun := h.sound hs hrun
  eol hs hlt hl := h.eol hs (hlt.trans_le hn) hl
  ends hs hrun := h.ends hs hrun
  halts hs hlt := h.halts hs (hlt.trans_le hn)
  ne_nil := h.ne_nil

lemma Decodes.congr {enc' : α → List UInt8} (h : Decodes dec enc bound)
    (henc : ∀ a, enc a = enc' a) : Decodes dec enc' bound := by
  rwa [show enc' = enc from funext fun a => (henc a).symm]

/-- A decoder whose value another one takes, with errors that a list does not take for its
end. -/
lemma Decodes.bind {f : α → StreamM β} {g : β → α} (h : Decodes dec enc bound)
    (hfg : ∀ b s, f (g b) s = .ok b s) (hok : ∀ {a s b t}, f a s = .ok b t → g b = a ∧ t = s)
    (hplain : ∀ {a s e t}, f a s = .error e t → e.Plain) : Decodes (dec >>= f) (fun b => enc (g b)) bound where
  complete hs hlt hi hh := by
    rw [run_bind_of_ok (h.complete hs hlt hi hh), hfg]
  sound hs hrun := by
    obtain ⟨a, u, ha, hb⟩ := bind_run_ok hrun
    obtain ⟨rfl, rfl⟩ := hok hb
    exact h.sound hs ha
  eol hs hlt hl := run_bind_of_error (h.eol hs hlt hl)
  ends hs hrun := by
    obtain ha | ⟨a, u, -, hb⟩ := bind_run_error hrun
    · exact h.ends hs ha
    · exact absurd rfl (hplain hb).1
  halts hs hlt hrun := by
    obtain ha | ⟨a, u, -, hb⟩ := bind_run_error hrun
    · exact h.halts hs hlt ha
    · exact (hplain hb).2 rfl
  ne_nil b := h.ne_nil (g b)

lemma Decodes.map {f : α → β} {g : β → α} (h : Decodes dec enc bound)
    (hfg : ∀ b, f (g b) = b) (hgf : ∀ a, g (f a) = a) : Decodes (f <$> dec) (fun b => enc (g b)) bound := by
  rw [map_eq_pure_bind]
  refine h.bind (fun b s => by rw [hfg]; rfl) (fun hrun => ?_) nofun
  cases hrun
  exact ⟨hgf _, rfl⟩

/-! ## Integers -/

lemma asCanonInt_ok (h : asCanonInt x s = .ok a t) : x s = .ok a t := by
  unfold asCanonInt at h
  split at h
  · cases h
  · exact h

lemma asCanonInt_of_ok (h : x s = .ok a t) : asCanonInt x s = .ok a t := by
  rw [asCanonInt, h]

lemma asCanonInt_error (hx : ∀ {e t}, x s = .error e t → e.Plain) (h : asCanonInt x s = .error e t) : e.Plain := by
  unfold asCanonInt at h
  split at h
  · cases h
    exact ⟨nofun, nofun⟩
  · exact hx h

/-- How an integer is written: as the string of its digits. -/
def encodeNat (n : Nat) : List UInt8 := writeBytes (beBytes n)

lemma readUint_at {a : Ahead} (hs : s.Limited) (hlt : n < 2 ^ 64) (hsize : a.size.toNat = (beBytes n).length)
    (hi : s.input = a.header ++ (beBytes n ++ rest)) (hh : s.Holds (a.header.length + a.size.toNat)) :
    readUint a.size.toUInt8 (s.at a) = .ok (.ofNat n) (s.skip (a.header.length + a.size.toNat)) := by
  have hlen : (beBytes n).length ≤ 8 := length_beBytes_le (by rwa [show (256 : Nat) ^ 8 = 2 ^ 64 by norm_num])
  have hc : a.size.toUInt8 = .ofNat (beBytes n).length := by
    rw [← UInt8.toNat_inj, UInt64.toNat_toUInt8, hsize, toNat_ofNat8 (by omega)]
    omega
  by_cases h0 : n = 0
  · rw [h0, beBytes_zero] at hc hsize
    rw [hc, hsize, readUint, if_pos (by rfl), h0]
    rfl
  · have hi' : (s.at a).input = beBytes n ++ rest := by simp [Stream.at, hi]
    have hread := readUint_eq (hs.at hi) h0 hlt hi' (by rw [← hsize]; exact hh.skip)
    rw [hc, hread, skip_at, hsize]

lemma readUint_at_ok {a : Ahead} {v : UInt64} (hs : s.Limited) (hsize : a.size.toNat ≤ 8)
    (hi : s.input = a.header ++ rest) (h : readUint a.size.toUInt8 (s.at a) = .ok v t) :
    v.toNat = beNat (rest.take a.size.toNat) ∧ (v ≠ 0 → (rest.take a.size.toNat).head? ≠ some 0) ∧
      t = s.skip (a.header.length + a.size.toNat) := by
  have hc : a.size.toUInt8.toNat = a.size.toNat := by
    rw [UInt64.toNat_toUInt8]
    omega
  by_cases h0 : a.size.toUInt8 = 0
  · have hzero : a.size.toNat = 0 := by rw [← hc, h0]; rfl
    rw [readUint, if_pos h0] at h
    cases h
    rw [hzero]
    exact ⟨rfl, fun h => absurd rfl h, rfl⟩
  · obtain ⟨buffer, rest', hi', hlen, hval, hhead, ht⟩ := readUint_ok (hs.at hi) h0 (by omega) h
    have hbuf : rest.take a.size.toNat = buffer := by
      rw [← hc, ← hlen]
      simp only [Stream.at, Stream.skip_input, hi, drop_left] at hi'
      rw [hi', take_left]
    rw [hbuf, ht, skip_at, hc]
    exact ⟨hval, hhead, rfl⟩

lemma decodes_uint : Decodes (uint 64) (fun n => encodeNat n.toNat) bound := by
  refine .of_plain ?complete ?sound ?plain fun n => writeBytes_ne_nil _
  case complete =>
    intro s n rest hs hi hh
    obtain ⟨a, hk, hahead⟩ := kind_string hs hi hh
    rw [run_bind_of_ok hk]
    cases hahead with
    | byte hkind hb hsmall hskip =>
      obtain ⟨hzero, hn⟩ := beBytes_eq_singleton hb
      have hval : n = a.byteval.toUInt64 := by rw [← UInt64.toNat_inj, hn, UInt8.toNat_toUInt64]
      simp only [hkind, if_neg hzero]
      rw [encodeNat, ← hskip, hval]
      rfl
    | string hkind hsize hi hh hsmall hskip =>
      have hlen : (beBytes n.toNat).length ≤ 8 := length_beBytes_le (by
        rw [show (256 : Nat) ^ 8 = 2 ^ 64 by norm_num]
        exact n.toNat_lt)
      have hover : ¬ UInt64.ofNat (64 / 8) < a.size := by
        rw [lt_iff_toNat_lt, hsize]
        exact Nat.not_lt.2 hlen
      have hread := asCanonInt_of_ok (readUint_at hs.limited n.toNat_lt hsize hi hh)
      rw [UInt64.ofNat_toNat] at hread
      have hcheck : ¬ (0 < a.size ∧ n < 128) := by
        rintro ⟨hpos, hlt⟩
        rw [lt_iff_toNat_lt] at hpos hlt
        have hx0 : n.toNat ≠ 0 := by
          intro h0
          rw [hsize, h0] at hpos
          exact absurd hpos (by decide)
        have hx : (UInt8.ofNat n.toNat).toNat = n.toNat := toNat_ofNat8 (hlt.trans (by decide))
        refine hsmall (.ofNat n.toNat) ?_ (UInt8.lt_iff_toNat_lt.2 (by rwa [hx]))
        have hb := beBytes_small (x := .ofNat n.toNat) (by intro h; rw [h] at hx; exact hx0 hx.symm)
        rwa [hx] at hb
      simp only [hkind, if_neg hover, run_bind_of_ok hread, if_neg hcheck]
      rw [hskip]
      rfl
  case sound =>
    intro s t n hs h
    obtain ⟨a, u, hk, hf⟩ := bind_run_ok h
    obtain ⟨rest, hi, hsize, hsound, rfl⟩ := kind_ok hs.limited hs.ahead hk
    cases hkind : a.kind with
    | byte =>
      simp only [hkind] at hf
      split at hf
      · cases hf
      · next hzero =>
        cases hf
        rw [encodeNat, UInt8.toNat_toUInt64, beBytes_small hzero]
        exact byte_ok hkind hsound hi
    | string =>
      simp only [hkind] at hf
      split at hf
      · cases hf
      · next hover =>
        obtain ⟨v, u, hread, hf⟩ := bind_run_ok hf
        split at hf
        · cases hf
        · next hcheck =>
          cases hf
          rw [lt_iff_toNat_lt, lt_iff_toNat_lt] at hcheck
          rw [lt_iff_toNat_lt] at hover
          obtain ⟨hval, hhead, rfl⟩ :=
            readUint_at_ok hs.limited (Nat.not_lt.1 hover) hi (asCanonInt_ok hread)
          have hbig : 128 ≤ n.toNat ∨ a.size.toNat = 0 := by
            simp at hcheck
            omega
          have hb : beBytes n.toNat = rest.take a.size.toNat := by
            rw [hval]
            apply beBytes_beNat
            obtain hbig | hzero := hbig
            · apply hhead
              rintro rfl
              exact absurd hbig (by decide)
            · simp [hzero]
          refine string_ok hkind hi hsize hb ?_
          apply beBytes_not_small
          obtain hbig | hzero := hbig
          · exact .inr hbig
          · rw [hzero] at hval
            exact .inl hval
    | list =>
      rw [hkind] at hf
      cases hf
  case plain =>
    intro s t a e hf
    cases hkind : a.kind with
    | byte =>
      simp only [hkind] at hf
      split at hf <;> cases hf
      exact ⟨nofun, nofun⟩
    | string =>
      simp only [hkind] at hf
      split at hf
      · cases hf
        exact ⟨nofun, nofun⟩
      · obtain hread | ⟨v, u, hread, hf⟩ := bind_run_error hf
        · exact asCanonInt_error readUint_error hread
        · split at hf <;> cases hf
          exact ⟨nofun, nofun⟩
    | list =>
      rw [hkind] at hf
      cases hf
      exact ⟨nofun, nofun⟩

lemma setBytes_ok {v : Nat} (h : setBytes b s = .ok v t) : beBytes v = b ∧ t = s := by
  unfold setBytes at h
  split at h
  · cases h
  · next hb =>
    cases h
    exact ⟨beBytes_beNat hb, rfl⟩

lemma setBytes_beBytes (n : Nat) (s : Stream) : setBytes (beBytes n) s = .ok n s := by
  rw [setBytes, if_neg (head?_beBytes n), beNat_beBytes]
  rfl

lemma setBytes_error (h : setBytes b s = .error e t) : e.Plain := by
  unfold setBytes at h
  split at h <;> cases h
  exact ⟨nofun, nofun⟩

lemma readFull_zero (s : Stream) : readFull 0 s = .ok [] { s with ahead := none } := by
  have hstack : takeOff 0 s.stack = s.stack := by cases s.stack <;> simp [takeOff]
  simp [readFull, run_bind, willRead, pull, hstack]

/-- The empty string is one that is read. -/
lemma decodeBigInt_eq : decodeBigInt = bytes >>= setBytes := by
  unfold decodeBigInt bytes
  rw [bind_assoc]
  congr 1
  funext a
  cases a.kind with
  | byte => rfl
  | list => rfl
  | string =>
    dsimp only
    rw [bind_assoc]
    split
    · next hzero =>
      funext s
      rw [hzero, run_bind_of_ok (readFull_zero s)]
      rfl
    · congr 1
      funext b
      split <;> rfl

lemma decodes_bigInt : Decodes decodeBigInt encodeNat bound := by
  rw [decodeBigInt_eq]
  exact decodes_bytes.bind setBytes_beBytes setBytes_ok setBytes_error

/-! ## Byte arrays -/

section
variable {len : Nat} {b rest : List UInt8}

lemma decodeByteArray_iff (h1 : 1 < len) (hlen : len < 2 ^ 64) (hs : s.Ready) :
    decodeByteArray len s = .ok b t ↔ bytes s = .ok b t ∧ b.length = len := by
  unfold decodeByteArray bytes
  cases hk : kind s with
  | error e u =>
    rw [run_bind_of_error hk, run_bind_of_error hk]
    exact ⟨nofun, nofun⟩
  | ok a u =>
    obtain ⟨rest, hi, hsize, -, rfl⟩ := kind_ok hs.limited hs.ahead hk
    rw [run_bind_of_ok hk, run_bind_of_ok hk]
    cases a.kind with
    | list => exact ⟨nofun, nofun⟩
    | byte =>
      rw [if_neg (show len ≠ 0 by omega), if_pos h1]
      refine ⟨nofun, ?_⟩
      rintro ⟨⟨⟩, rfl⟩
      exact absurd h1 (lt_irrefl 1)
    | string =>
      have hlength : (do
          let b ← readFull a.size
          if a.size = 1 ∧ b.head?.any (· < 128) then throw .canonSize else return b : StreamM _) (s.at a) = .ok b t →
          b.length = a.size.toNat := by
        intro hf
        obtain ⟨c, u, hread, hc⟩ := bind_run_ok hf
        split at hc <;> cases hc
        rw [(readFull_at_ok hs.limited hi hread).1]
        exact length_take_of_le hsize
      have hnat : (UInt64.ofNat len).toNat = len := toNat_ofNat64 hlen
      dsimp only
      split
      · next hlong =>
        rw [lt_iff_toNat_lt, hnat] at hlong
        exact ⟨nofun, fun h => absurd (hlength h.1) (by omega)⟩
      split
      · next hshort =>
        rw [lt_iff_toNat_lt, hnat] at hshort
        exact ⟨nofun, fun h => absurd (hlength h.1) (by omega)⟩
      · next hlong hshort =>
        rw [lt_iff_toNat_lt, hnat] at hlong hshort
        exact ⟨fun h => ⟨h, (hlength h).trans (by omega)⟩, And.left⟩

lemma decodeByteArray_error {e : DecodeError} (hs : s.Ready) (h : decodeByteArray len s = .error e t) :
    e.Plain ∨ e = .eol ∧ s.listLimit = some 0 ∧ t = s := by
  obtain hplain | heol | ⟨a, hk, ha, hf⟩ := kind_bind_error hs h
  · exact .inl hplain
  · exact .inr heol
  · left
    cases hkind : a.kind with
    | byte =>
      simp only [hkind] at hf
      split at hf
      · cases hf
        exact ⟨nofun, nofun⟩
      · split at hf <;> cases hf
        exact ⟨nofun, nofun⟩
    | string =>
      simp only [hkind] at hf
      split at hf
      · cases hf
        exact ⟨nofun, nofun⟩
      · split at hf
        · cases hf
          exact ⟨nofun, nofun⟩
        · obtain hread | ⟨c, u, hread, hf⟩ := bind_run_error hf
          · exact readFull_error hread
          · split at hf <;> cases hf
            exact ⟨nofun, nofun⟩
    | list =>
      rw [hkind] at hf
      cases hf
      exact ⟨nofun, nofun⟩

end

/-- An array of more than one byte, as a type with as many values. -/
lemma decodes_byteArray {f : List UInt8 → α} {g : α → List UInt8} (h1 : 1 < len) (hlen : len < 2 ^ 64)
    (hg : ∀ a, (g a).length = len) (hfg : ∀ a, f (g a) = a) (hgf : ∀ b, b.length = len → g (f b) = b) :
    Decodes (f <$> decodeByteArray len) (fun a => writeBytes (g a)) bound where
  complete {s a rest} hs _ hi hh := by
    have hbytes := decodes_bytes.complete hs (Nat.lt_succ_self _) hi hh
    rw [map_run_of_ok ((decodeByteArray_iff h1 hlen hs).2 ⟨hbytes, hg a⟩), hfg]
  sound {s t a} hs hrun := by
    obtain ⟨b, hb, rfl⟩ := map_run_ok hrun
    obtain ⟨hbytes, hblen⟩ := (decodeByteArray_iff h1 hlen hs).1 hb
    rw [hgf b hblen]
    exact (decodes_bytes : Decodes bytes writeBytes 0).sound hs hbytes
  eol hs _ hl := map_run_of_error (kind_bind_eol hs hl)
  ends hs hrun := by
    obtain hplain | ⟨-, h⟩ := decodeByteArray_error hs (map_run_error hrun)
    · exact absurd rfl hplain.1
    · exact h
  halts hs _ hrun := by
    obtain hplain | ⟨h, -⟩ := decodeByteArray_error hs (map_run_error hrun)
    · exact absurd rfl hplain.2
    · cases h
  ne_nil a := writeBytes_ne_nil _

/-! ## Pointers that may be nil -/

/-- For a type that has no empty value. -/
lemma Decodes.nilPtr (h : Decodes dec enc bound) (hfirst : KindFirst dec)
    (hempty : ∀ {s t : Stream} {a x}, kind s = .ok a (s.at a) → a.kind ≠ .byte → a.size = 0 → dec s ≠ .ok x t) :
    Decodes (decodeNilPtr .string dec) (fun o => o.elim [0x80] enc) bound := by
  refine .of_kind ?complete ?sound ?error ?ne_nil
  case complete =>
    intro s o rest hs hbound hi hh
    cases o with
    | none =>
      have ha : (⟨.string, 0, 0, none⟩ : Ahead).Sound := ⟨rfl, by simp, fun _ => rfl⟩
      rw [run_bind_of_ok (kind_eq ha hs.limited hs.ahead hi (Nat.zero_le _) hh)]
      rfl
    | some x =>
      have hrun := h.complete hs hbound hi hh
      obtain ⟨a, u, hk⟩ := hfirst.kind_ok hrun
      obtain ⟨-, -, -, ha, rfl⟩ := kind_ok hs.limited hs.ahead hk
      have hne : ¬ (a.kind ≠ .byte ∧ a.size = 0) := fun hnil => hempty hk hnil.1 hnil.2 hrun
      rw [← hfirst.at_eq ha hk] at hrun
      rw [run_bind_of_ok hk, if_neg hne, run_bind_of_ok hrun]
      rfl
  case sound =>
    intro s t o hs hrun
    obtain ⟨a, u, hk, hrun⟩ := bind_run_ok hrun
    obtain ⟨rest, hi, -, ha, rfl⟩ := kind_ok hs.limited hs.ahead hk
    split at hrun
    · next hnil =>
      split at hrun
      · cases hrun
      · next hkind =>
        cases hrun
        have hhead : a.header = [0x80] := by
          rw [Ahead.header, Decidable.not_not.1 hkind, hnil.2]
          rfl
        refine ⟨rest, by rw [hi, hhead]; rfl, ?_⟩
        rw [Stream.at, hhead]
        rfl
    · obtain ⟨x, v, hdec, hrun⟩ := bind_run_ok hrun
      cases hrun
      rw [hfirst.at_eq ha hk] at hdec
      exact h.sound hs hdec
  case error =>
    intro s t a e hs hk ha hrun
    split at hrun
    · split at hrun <;> cases hrun
      simp
    · exact h.error_at hfirst hs hk ha hrun
  case ne_nil =>
    intro o
    cases o with
    | none => exact cons_ne_nil _ _
    | some x => exact h.ne_nil x

lemma kindFirst_byteArray : KindFirst (decodeByteArray len) := kindFirst _

lemma decodeByteArray_empty {a : Ahead} (h0 : 0 < len) (hlen : len < 2 ^ 64)
    (hk : kind s = .ok a (s.at a)) (hkind : a.kind ≠ .byte) (hsize : a.size = 0) : decodeByteArray len s ≠ .ok b t := by
  intro h
  rw [decodeByteArray, run_bind_of_ok hk] at h
  cases hka : a.kind with
  | byte => exact hkind hka
  | string =>
    have hshort : (0 : UInt64) < .ofNat len := by
      rw [lt_iff_toNat_lt, toNat_ofNat64 hlen]
      exact h0
    have hlong : ¬ UInt64.ofNat len < 0 := by
      rw [lt_iff_toNat_lt]
      exact Nat.not_lt_zero _
    simp only [hka, hsize, if_neg hlong, if_pos hshort] at h
    cases h
  | list =>
    rw [hka] at h
    cases h

/-! ## Structs -/

lemma DecodesBody.nil : DecodesBody noFields (fun _ => []) bound where
  complete hs _ _ _ := by
    rw [length_nil, skip_zero hs.ahead]
    rfl
  sound {s t a} hs hrun := by
    cases hrun
    exact ⟨s.input, rfl, (skip_zero hs.ahead).symm⟩
  plain _ hrun := by cases hrun
  halts _ _ hrun := by cases hrun

lemma required_of_ok (h : dec s = .ok a t) : required dec s = .ok a t := by
  rw [required, h]

lemma required_ok (h : required dec s = .ok a t) : dec s = .ok a t := by
  unfold required at h
  split at h
  · cases h
  · exact h

lemma required_error (h : required dec s = .error e t) : e ≠ .eol ∧ (e = .endless → dec s = .error .endless t) := by
  unfold required at h
  split at h
  · cases h
    exact ⟨nofun, nofun⟩
  · next hne =>
    refine ⟨?_, fun he => he ▸ h⟩
    rintro rfl
    exact hne _ h

lemma DecodesBody.cons {fields : StreamM β} {encs : β → List UInt8}
    (h : Decodes dec enc bound) (hs : DecodesBody fields encs bound) :
    DecodesBody (field dec fields) (fun p => enc p.1 ++ encs p.2) bound where
  complete {s p rest} hready hbound hi hl := by
    obtain ⟨a, b⟩ := p
    rw [append_assoc] at hi
    simp only [length_append] at hl ⊢
    have hsum : (enc a).length + (encs b).length ≤ s.input.length := by simp [hi]
    have hholds : s.Holds (enc a).length := by
      intro limit hmem
      have hlt := hready.limited.lt
      rw [hl, Option.mem_some_iff] at hmem
      rw [← hmem, toNat_ofNat64 (by omega)]
      omega
    have hfirst := required_of_ok (h.complete hready hbound hi hholds)
    have hi' : (s.skip (enc a).length).input = encs b ++ rest := by rw [skip_input, hi, drop_left]
    have hrest := hs.complete (hready.skip (by omega)) (by rw [skip_input, length_drop]; omega) hi'
      (listLimit_skip hl)
    rw [field, run_bind_of_ok hfirst, run_bind_of_ok hrest, skip_skip]
    rfl
  sound {s t p} hready hrun := by
    obtain ⟨a, u, hfirst, hrun⟩ := bind_run_ok hrun
    obtain ⟨b, v, hrest, hrun⟩ := bind_run_ok hrun
    cases hrun
    obtain ⟨rest, hi, rfl⟩ := h.sound hready (required_ok hfirst)
    obtain ⟨rest', hi', rfl⟩ := hs.sound (hready.skip (by simp [hi])) hrest
    rw [skip_input, hi, drop_left] at hi'
    refine ⟨rest', ?_, ?_⟩
    · rw [hi, hi', append_assoc]
    · rw [skip_skip, length_append]
  plain {s t} hready hrun := by
    obtain hfirst | ⟨a, u, hfirst, hrun⟩ := bind_run_error hrun
    · exact (required_error hfirst).1 rfl
    · obtain ⟨rest, hi, rfl⟩ := h.sound hready (required_ok hfirst)
      obtain hrest | ⟨b, v, -, hrun⟩ := bind_run_error hrun
      · exact hs.plain (hready.skip (by simp [hi])) hrest
      · cases hrun
  halts {s t} hready hbound hrun := by
    obtain hfirst | ⟨a, u, hfirst, hrun⟩ := bind_run_error hrun
    · exact h.halts hready hbound ((required_error hfirst).2 rfl)
    · obtain ⟨rest, hi, rfl⟩ := h.sound hready (required_ok hfirst)
      obtain hrest | ⟨b, v, -, hrun⟩ := bind_run_error hrun
      · refine hs.halts (hready.skip (by simp [hi])) ?_ hrest
        rw [skip_input, length_drop]
        omega
      · cases hrun

end TurboOctopus.Rlp
