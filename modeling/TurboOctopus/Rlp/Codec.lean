import TurboOctopus.Rlp.Reading
/-!
# Decoders that undo an encoder

`Decodes dec enc` says that `dec` reads from a stream exactly what `enc` writes. It holds
of the strings, and passes from the elements of a list to the list.
-/
namespace TurboOctopus.Rlp

open Lib Lib.Rlp List

/-- At the start of a value. -/
structure Stream.Ready (s : Stream) : Prop where
  limited : s.Limited
  ahead : s.ahead = none

variable {α β : Type} {s t : Stream} {n bound : Nat}

lemma Stream.Ready.skip (hs : s.Ready) (hn : n ≤ s.input.length) : (s.skip n).Ready :=
  ⟨hs.limited.skip hn, rfl⟩

/-- With inputs shorter than `bound`, as far as the fuel goes. -/
structure Decodes (dec : StreamM α) (enc : α → List UInt8) (bound : Nat) : Prop where
  complete : ∀ {s a rest}, s.Ready → s.input.length < bound → s.input = enc a ++ rest → s.Holds (enc a).length →
    dec s = .ok a (s.skip (enc a).length)
  sound : ∀ {s t a}, s.Ready → dec s = .ok a t → ∃ rest, s.input = enc a ++ rest ∧ t = s.skip (enc a).length
  eol : ∀ {s}, s.Ready → s.input.length < bound → s.listLimit = some 0 → dec s = .error .eol s
  ends : ∀ {s t}, s.Ready → dec s = .error .eol t → s.listLimit = some 0 ∧ t = s
  halts : ∀ {s t}, s.Ready → s.input.length < bound → dec s ≠ .error .endless t
  ne_nil : ∀ a, enc a ≠ []

/-- The same between the start of a list and its end. -/
structure DecodesBody (dec : StreamM α) (enc : α → List UInt8) (bound : Nat) : Prop where
  complete : ∀ {s a rest}, s.Ready → s.input.length < bound → s.input = enc a ++ rest →
    s.listLimit = some (.ofNat (enc a).length) → dec s = .ok a (s.skip (enc a).length)
  sound : ∀ {s t a}, s.Ready → dec s = .ok a t → ∃ rest, s.input = enc a ++ rest ∧ t = s.skip (enc a).length
  plain : ∀ {s t}, s.Ready → dec s ≠ .error .eol t
  halts : ∀ {s t}, s.Ready → s.input.length < bound → dec s ≠ .error .endless t

/-! ## Strings -/

variable {a : Ahead} {b rest : List UInt8} {dec elemdec : StreamM α} {e : DecodeError} {enc : α → List UInt8}
  {f : Ahead → StreamM α} {fuel m : Nat} {size : UInt64}

/-- A decoder that first asks for the kind ends as `Kind` does. -/
lemma kind_bind_eol (hs : s.Ready) (h : s.listLimit = some 0) :
    (kind >>= f) s = .error .eol s := run_bind_of_error (kind_eol hs.ahead h)

lemma kind_bind_error (hs : s.Ready) (h : (kind >>= f) s = .error e t) :
    e.Plain ∨ (e = .eol ∧ s.listLimit = some 0 ∧ t = s) ∨ ∃ a, kind s = .ok a (s.at a) ∧ a.Sound ∧ f a (s.at a) = .error e t := by
  obtain hk | ⟨a, u, hk, hrun⟩ := bind_run_error h
  · obtain hplain | heol := kind_error hs.ahead hk
    · exact .inl hplain
    · exact .inr (.inl heol)
  · obtain ⟨rest, hi, hsize, hsound, rfl⟩ := kind_ok hs.limited hs.ahead hk
    exact .inr (.inr ⟨a, hk, hsound, hrun⟩)

/-- Such a decoder, if what it does with the kind has no error that a list would take for
its end. -/
lemma Decodes.of_kind
    (complete : ∀ {s a rest}, s.Ready → s.input.length < bound → s.input = enc a ++ rest → s.Holds (enc a).length →
      (kind >>= f) s = .ok a (s.skip (enc a).length))
    (sound : ∀ {s t a}, s.Ready → (kind >>= f) s = .ok a t → ∃ rest, s.input = enc a ++ rest ∧ t = s.skip (enc a).length)
    (error : ∀ {s t : Stream} {a e}, s.Ready → kind s = .ok a (s.at a) → a.Sound → f a (s.at a) = .error e t →
      e ≠ .eol ∧ (s.input.length < bound → e ≠ .endless))
    (ne_nil : ∀ a, enc a ≠ []) : Decodes (kind >>= f) enc bound where
  complete := complete
  sound := sound
  eol hs _ h := kind_bind_eol hs h
  ends hs h := by
    obtain hplain | ⟨-, h⟩ | ⟨a, hk, ha, hf⟩ := kind_bind_error hs h
    · exact absurd rfl hplain.1
    · exact h
    · exact absurd rfl (error hs hk ha hf).1
  halts hs hbound h := by
    obtain hplain | ⟨h, -⟩ | ⟨a, hk, ha, hf⟩ := kind_bind_error hs h
    · exact absurd rfl hplain.2
    · cases h
    · exact (error hs hk ha hf).2 hbound rfl
  ne_nil := ne_nil

lemma Decodes.of_plain (complete : ∀ {s a rest}, s.Ready → s.input = enc a ++ rest → s.Holds (enc a).length →
      (kind >>= f) s = .ok a (s.skip (enc a).length))
    (sound : ∀ {s t a}, s.Ready → (kind >>= f) s = .ok a t → ∃ rest, s.input = enc a ++ rest ∧ t = s.skip (enc a).length)
    (plain : ∀ {s t : Stream} {a e}, f a (s.at a) = .error e t → e.Plain) (ne_nil : ∀ a, enc a ≠ []) :
    Decodes (kind >>= f) enc bound :=
  .of_kind (fun hs _ hi hh => complete hs hi hh) sound (fun _ _ _ hf => (plain hf).imp_right fun h _ => h) ne_nil

/-- Where `Kind` succeeds the list is not at its end. -/
lemma Decodes.error (h : Decodes dec enc bound) (hs : s.Ready) (hk : kind s = .ok a (s.at a)) (hrun : dec s = .error e t) :
    e ≠ .eol ∧ (s.input.length < bound → e ≠ .endless) := by
  constructor
  · rintro rfl
    rw [kind_eol hs.ahead (h.ends hs hrun).1] at hk
    cases hk
  · rintro hbound rfl
    exact h.halts hs hbound hrun

/-- A decoder that asks for the kind first, and may be called when it is known. -/
structure KindFirst (dec : StreamM α) : Prop where
  at_eq : ∀ {s a}, a.Sound → kind s = .ok a (s.at a) → dec (s.at a) = dec s
  kind_ok : ∀ {s t x}, dec s = .ok x t → ∃ a u, kind s = .ok a u

lemma kindFirst (f : Ahead → StreamM α) : KindFirst (kind >>= f) where
  at_eq ha hk := by rw [run_bind_of_ok hk, run_bind_of_ok (kind_at ha)]
  kind_ok h := by
    obtain ⟨a, u, hk, -⟩ := bind_run_ok h
    exact ⟨a, u, hk⟩

lemma KindFirst.bind {f : α → StreamM β} (h : KindFirst dec) : KindFirst (dec >>= f) where
  at_eq ha hk := by rw [run_bind, run_bind, h.at_eq ha hk]
  kind_ok hrun := by
    obtain ⟨a, u, hdec, -⟩ := bind_run_ok hrun
    exact h.kind_ok hdec

lemma KindFirst.map {f : α → β} (h : KindFirst dec) : KindFirst (f <$> dec) := by
  rw [map_eq_pure_bind]
  exact h.bind

/-- The kind is known, and the value is wrapped. -/
lemma Decodes.error_at {c : α → β} (h : Decodes dec enc bound) (hfirst : KindFirst dec) (hs : s.Ready)
    (hk : kind s = .ok a (s.at a)) (ha : a.Sound) (hrun : (dec >>= fun x => pure (c x)) (s.at a) = .error e t) :
    e ≠ .eol ∧ (s.input.length < bound → e ≠ .endless) := by
  obtain hdec | ⟨x, u, -, hrun⟩ := bind_run_error hrun
  · rw [hfirst.at_eq ha hk] at hdec
    exact h.error hs hk hdec
  · cases hrun

lemma kindFirst_bytes : KindFirst bytes := kindFirst _

lemma kindFirst_list : KindFirst list := kindFirst _

lemma kindFirst_struct : KindFirst (decodeStruct dec) := kindFirst_list.bind

lemma kindFirst_slice : KindFirst (decodeListSlice dec fuel) := kindFirst_list.bind

lemma list_kind (h : list s = .ok size t) : ∃ a u, kind s = .ok a u ∧ a.kind = .list := by
  obtain ⟨a, u, hk, hf⟩ := bind_run_ok h
  refine ⟨a, u, hk, ?_⟩
  split at hf
  · cases hf
  · next hlist => exact Decidable.not_not.1 hlist

lemma bytes_kind (h : bytes s = .ok b t) : ∃ a u, kind s = .ok a u ∧ a.kind ≠ .list := by
  obtain ⟨a, u, hk, hf⟩ := bind_run_ok h
  refine ⟨a, u, hk, fun hlist => ?_⟩
  rw [hlist] at hf
  cases hf

/-- The string `b` is what comes next, and its head has been read. -/
inductive Stream.StringAhead (s : Stream) (b rest : List UInt8) (a : Ahead) : Prop
  | byte : a.kind = .byte → b = [a.byteval] → a.byteval < 0x80 → s.skip a.header.length = s.skip (writeBytes b).length →
    StringAhead s b rest a
  | string : a.kind = .string → a.size.toNat = b.length → s.input = a.header ++ (b ++ rest) →
    s.Holds (a.header.length + a.size.toNat) → (∀ x, b = [x] → ¬ x < 0x80) →
    s.skip (a.header.length + a.size.toNat) = s.skip (writeBytes b).length → StringAhead s b rest a

lemma kind_string (hs : s.Ready) (hi : s.input = writeBytes b ++ rest)
    (hh : s.Holds (writeBytes b).length) : ∃ a, kind s = .ok a (s.at a) ∧ s.StringAhead b rest a := by
  by_cases hbyte : ∃ x, b = [x] ∧ x < 0x80
  · obtain ⟨x, rfl, hx⟩ := hbyte
    rw [writeBytes_byte hx] at hi hh
    have ha : (⟨.byte, 0, x, none⟩ : Ahead).Sound := ⟨rfl, fun _ => ⟨rfl, hx⟩, fun h => absurd rfl h⟩
    refine ⟨_, kind_eq ha hs.limited hs.ahead hi (Nat.zero_le _) hh, .byte rfl rfl hx ?_⟩
    rw [writeBytes_byte hx]
    rfl
  · have hlong : ∀ x, b = [x] → ¬ x < 0x80 := fun x hb hx => hbyte ⟨x, hb, hx⟩
    rw [writeBytes_string hlong] at hi hh
    have hlt := hs.limited.lt
    have hlen : (UInt64.ofNat b.length).toNat = b.length := toNat_ofNat64 (by simp [hi] at hlt; omega)
    have ha : (⟨.string, .ofNat b.length, 0, none⟩ : Ahead).Sound := ⟨rfl, nofun, fun _ => rfl⟩
    have hhead : (⟨.string, .ofNat b.length, 0, none⟩ : Ahead).header = puthead 0x80 0xb7 b.length := by
      simp only [Ahead.header, hlen]
    rw [← hhead, append_assoc] at hi
    rw [← hhead, length_append] at hh
    refine ⟨_, kind_eq ha hs.limited hs.ahead hi (by simp [hlen]) (by rwa [hlen]), .string rfl hlen hi (by rwa [hlen]) hlong ?_⟩
    rw [writeBytes_string hlong, hhead, length_append, hlen]

/-- The payload of a string, which is not a byte that should have been its own tag. -/
lemma string_ok (hkind : a.kind = .string) (hi : s.input = a.header ++ rest) (hsize : a.size.toNat ≤ rest.length)
    (hb : b = rest.take a.size.toNat) (hsmall : ∀ x, b = [x] → ¬ x < 0x80) : ∃ rest, s.input = writeBytes b ++ rest ∧
      s.skip (a.header.length + a.size.toNat) = s.skip (writeBytes b).length := by
  have hlen : b.length = a.size.toNat := by simpa [hb] using hsize
  have hhead : a.header = puthead 0x80 0xb7 b.length := by rw [Ahead.header, hkind, hlen]
  refine ⟨rest.drop a.size.toNat, ?_, ?_⟩
  · rw [writeBytes_string hsmall, ← hhead, hi, hb, append_assoc, take_append_drop]
  · rw [writeBytes_string hsmall, ← hhead, length_append, hlen]

lemma byte_ok (hkind : a.kind = .byte) (ha : a.Sound) (hi : s.input = a.header ++ rest) :
    ∃ rest, s.input = writeBytes [a.byteval] ++ rest ∧ s.skip a.header.length = s.skip (writeBytes [a.byteval]).length := by
  have hhead : a.header = [a.byteval] := by rw [Ahead.header, hkind]
  rw [writeBytes_byte (ha.byte hkind).2, ← hhead]
  exact ⟨rest, hi, rfl⟩

/-- The check of a size of one. -/
lemma small_iff (hlen : b.length = a.size.toNat) :
    (a.size = 1 ∧ b.head?.any (· < 128)) ↔ ∃ x, b = [x] ∧ x < 0x80 := by
  constructor
  · rintro ⟨h1, hx⟩
    rw [h1] at hlen
    obtain ⟨x, rfl⟩ := length_eq_one_iff.1 hlen
    exact ⟨x, rfl, by simpa using hx⟩
  · rintro ⟨x, rfl, hx⟩
    refine ⟨?_, by simpa using hx⟩
    rw [← UInt64.toNat_inj, ← hlen]
    rfl

lemma decodes_bytes : Decodes bytes writeBytes bound := by
  refine .of_plain ?complete ?sound ?plain writeBytes_ne_nil
  case complete =>
    intro s b rest hs hi hh
    obtain ⟨a, hk, hahead⟩ := kind_string hs hi hh
    rw [run_bind_of_ok hk]
    cases hahead with
    | byte hkind hb _ hskip =>
      rw [hkind, ← hskip, hb]
      rfl
    | string hkind hsize hi hh hsmall hskip =>
      have hread := readFull_at hs.limited hi (by simp [hsize]) hh
      have hcheck : ¬ (a.size = 1 ∧ b.head?.any (· < 128)) := by
        rw [small_iff hsize.symm]
        rintro ⟨x, hb, hx⟩
        exact hsmall x hb hx
      rw [hskip, hsize, take_left] at hread
      simp only [hkind, run_bind_of_ok hread, if_neg hcheck]
      rfl
  case sound =>
    intro s t b hs h
    obtain ⟨a, u, hk, hf⟩ := bind_run_ok h
    obtain ⟨rest, hi, hsize, hsound, rfl⟩ := kind_ok hs.limited hs.ahead hk
    cases hkind : a.kind with
    | byte =>
      rw [hkind] at hf
      cases hf
      exact byte_ok hkind hsound hi
    | string =>
      rw [hkind] at hf
      obtain ⟨c, u, hread, hf⟩ := bind_run_ok hf
      obtain ⟨hc, rfl⟩ := readFull_at_ok hs.limited hi hread
      split at hf
      · cases hf
      · next hcheck =>
        cases hf
        rw [small_iff (by simpa [hc] using hsize)] at hcheck
        exact string_ok hkind hi hsize hc fun x hb hx => hcheck ⟨x, hb, hx⟩
    | list =>
      rw [hkind] at hf
      cases hf
  case plain =>
    intro s t a e hf
    cases hkind : a.kind with
    | byte =>
      rw [hkind] at hf
      cases hf
    | string =>
      rw [hkind] at hf
      obtain hread | ⟨b, u, hread, hf⟩ := bind_run_error hf
      · exact readFull_error hread
      · split at hf <;> cases hf
        exact ⟨nofun, nofun⟩
    | list =>
      rw [hkind] at hf
      cases hf
      exact ⟨nofun, nofun⟩

/-! ## Lists -/

/-- At the start of the payload of a list of `n` bytes. -/
def Stream.enter (n : Nat) (s : Stream) : Stream :=
  let u := s.skip (puthead 0xc0 0xf7 n).length
  { u with stack := .ofNat n :: takeOff (.ofNat n) u.stack }

lemma list_eq (hs : s.Ready) (hi : s.input = puthead 0xc0 0xf7 n ++ rest) (hn : n ≤ rest.length)
    (hh : s.Holds ((puthead 0xc0 0xf7 n).length + n)) : list s = .ok (.ofNat n) (s.enter n) := by
  have hlt := hs.limited.lt
  have hlen : (UInt64.ofNat n).toNat = n := toNat_ofNat64 (by simp [hi] at hlt; omega)
  have ha : (⟨.list, .ofNat n, 0, none⟩ : Ahead).Sound := ⟨rfl, nofun, fun _ => rfl⟩
  have hhead : (⟨.list, .ofNat n, 0, none⟩ : Ahead).header = puthead 0xc0 0xf7 n := by simp only [Ahead.header, hlen]
  have hkind := kind_eq ha hs.limited hs.ahead (by rw [hhead, hi]) (by rwa [hlen]) (by rwa [hhead, hlen])
  rw [list, run_bind_of_ok hkind, if_neg (by simp), Stream.at, hhead]
  rfl

lemma list_ok (hs : s.Ready) (h : list s = .ok size t) :
    ∃ rest, s.input = puthead 0xc0 0xf7 size.toNat ++ rest ∧ size.toNat ≤ rest.length ∧ t = s.enter size.toNat := by
  obtain ⟨a, u, hk, hf⟩ := bind_run_ok h
  obtain ⟨rest, hi, hsize, hsound, rfl⟩ := kind_ok hs.limited hs.ahead hk
  split at hf
  · cases hf
  · next hkind =>
    cases hf
    rw [Decidable.not_not] at hkind
    have hhead : a.header = puthead 0xc0 0xf7 a.size.toNat := by rw [Ahead.header, hkind]
    rw [hhead] at hi
    refine ⟨rest, hi, hsize, ?_⟩
    simp [Stream.at, Stream.enter, hhead]

lemma list_error (hs : s.Ready) (h : list s = .error e t) : e.Plain ∨ e = .eol ∧ s.listLimit = some 0 ∧ t = s := by
  obtain hplain | heol | ⟨a, hk, ha, hf⟩ := kind_bind_error hs h
  · exact .inl hplain
  · exact .inr heol
  · left
    split at hf <;> cases hf
    exact ⟨nofun, nofun⟩

lemma Stream.Ready.enter (hs : s.Ready) (hi : s.input = puthead 0xc0 0xf7 n ++ rest) :
    (s.enter n).Ready := ⟨hs.limited.skip (by simp [hi]), rfl⟩

open TurboOctopus.Rlp.Stream

lemma Stream.enter_input (hi : s.input = puthead 0xc0 0xf7 n ++ rest) : (s.enter n).input = rest := by
  simp [enter, hi]

/-- The end of the payload is the end of the list. -/
lemma listEnd_enter (n : Nat) (s : Stream) :
    listEnd ((s.enter n).skip n) = .ok () (s.skip ((puthead 0xc0 0xf7 n).length + n)) := by
  have h : ¬ (0 : UInt64) < UInt64.ofNat n - UInt64.ofNat n := by simp
  simp only [listEnd, enter, skip, takeOff_cons, if_neg h, UInt64.ofNat_add, takeOff_takeOff, drop_drop, sub_sub]

lemma listEnd_enter_ok {u : Unit} (hn : n < 2 ^ 64) (hm : m < 2 ^ 64)
    (h : listEnd ((s.enter n).skip m) = .ok u t) : m = n := by
  simp only [listEnd, enter, skip, takeOff_cons] at h
  split at h
  · cases h
  · next hlimit =>
    have hzero : UInt64.ofNat n - UInt64.ofNat m = 0 := by
      rw [← UInt64.toNat_inj]
      rw [UInt64.lt_iff_toNat_lt] at hlimit
      simpa using hlimit
    have heq := sub_eq_zero.1 hzero
    rw [← toNat_ofNat64 hn, ← toNat_ofNat64 hm, heq]

lemma listEnd_error (h : listEnd s = .error e t) : e.Plain := by
  unfold listEnd at h
  split at h
  · cases h
    exact ⟨nofun, nofun⟩
  · split at h <;> cases h
    exact ⟨nofun, nofun⟩

def encodeList (enc : α → List UInt8) (a : α) : List UInt8 := puthead 0xc0 0xf7 (enc a).length ++ enc a

lemma DecodesBody.decodes (h : DecodesBody dec enc bound) :
    Decodes (decodeStruct dec) (encodeList enc) (bound + 1) where
  complete {s a rest} hs hbound hi hh := by
    have hlt := hs.limited.lt
    rw [encodeList, append_assoc] at hi
    rw [encodeList, length_append] at hh ⊢
    have hpos : 0 < (puthead 0xc0 0xf7 (enc a).length).length := length_pos_iff.2 (puthead_ne_nil _ _ _)
    have hbody := h.complete (hs.enter hi) (by rw [enter_input hi]; simp [hi] at hbound ⊢; omega)
      (enter_input hi) rfl
    rw [decodeStruct, run_bind_of_ok (list_eq hs hi (by simp) hh), run_bind_of_ok hbody, run_bind_of_ok (listEnd_enter _ _)]
    rfl
  sound {s t a} hs hrun := by
    obtain ⟨size, u, hlist, hrun⟩ := bind_run_ok hrun
    obtain ⟨a', v, hdec, hrun⟩ := bind_run_ok hrun
    obtain ⟨_, w, hend, hrun⟩ := bind_run_ok hrun
    cases hrun
    have hlt := hs.limited.lt
    obtain ⟨rest, hi, hsize, rfl⟩ := list_ok hs hlist
    obtain ⟨rest', hi', rfl⟩ := h.sound (hs.enter hi) hdec
    rw [enter_input hi] at hi'
    have hlen : (enc a).length = size.toNat :=
      listEnd_enter_ok size.toNat_lt (by simp [hi, hi'] at hlt; omega) hend
    rw [hlen, listEnd_enter] at hend
    cases hend
    refine ⟨rest', ?_, ?_⟩
    · rw [encodeList, hlen, hi, hi', append_assoc]
    · rw [encodeList, length_append, hlen]
  eol hs _ hl := run_bind_of_error (kind_bind_eol hs hl)
  ends {s t} hs hrun := by
    obtain hlist | ⟨size, u, hlist, hrun⟩ := bind_run_error hrun
    · obtain hplain | ⟨-, hl⟩ := list_error hs hlist
      · exact absurd rfl hplain.1
      · exact hl
    · obtain ⟨rest, hi, hsize, rfl⟩ := list_ok hs hlist
      obtain hdec | ⟨a, v, -, hrun⟩ := bind_run_error hrun
      · exact absurd hdec (h.plain (hs.enter hi))
      · obtain hend | ⟨_, _, _, hrun⟩ := bind_run_error hrun
        · exact absurd rfl (listEnd_error hend).1
        · cases hrun
  halts {s t} hs hbound hrun := by
    obtain hlist | ⟨size, u, hlist, hrun⟩ := bind_run_error hrun
    · obtain hplain | ⟨h, -⟩ := list_error hs hlist
      · exact absurd rfl hplain.2
      · cases h
    · obtain ⟨rest, hi, hsize, rfl⟩ := list_ok hs hlist
      have hpos : 0 < (puthead 0xc0 0xf7 size.toNat).length := length_pos_iff.2 (puthead_ne_nil _ _ _)
      obtain hdec | ⟨a, v, -, hrun⟩ := bind_run_error hrun
      · refine absurd hdec (h.halts (hs.enter hi) ?_)
        rw [enter_input hi]
        simp [hi] at hbound
        omega
      · obtain hend | ⟨_, _, _, hrun⟩ := bind_run_error hrun
        · exact absurd rfl (listEnd_error hend).2
        · cases hrun
  ne_nil a := by simp [encodeList, puthead_ne_nil]

/-! ## Slices -/

lemma Stream.listLimit_skip (hl : s.listLimit = some (.ofNat (n + m))) : (s.skip n).listLimit = some (.ofNat m) := by
  cases hst : s.stack with
  | nil => simp [listLimit, hst] at hl
  | cons top rest =>
    simp only [listLimit, hst, head?_cons, Option.some.injEq] at hl
    simp [listLimit, skip, hst, hl, UInt64.ofNat_add]

lemma decodeSliceElems_ok (h : Decodes elemdec enc bound) :
    ∀ {fuel : Nat} {s t : Stream} {l : List α}, s.Ready → decodeSliceElems elemdec fuel s = .ok l t →
      ∃ rest, s.input = l.flatMap enc ++ rest ∧ t = s.skip (l.flatMap enc).length := by
  intro fuel
  induction fuel with
  | zero => intro s t l _ hrun; cases hrun
  | succ fuel ih =>
    intro s t l hs hrun
    unfold decodeSliceElems at hrun
    split at hrun
    · next heol =>
      cases hrun
      obtain ⟨-, rfl⟩ := h.ends hs heol
      exact ⟨_, rfl, (skip_zero hs.ahead).symm⟩
    · cases hrun
    · next a u helem =>
      obtain ⟨rest, hi, rfl⟩ := h.sound hs helem
      split at hrun
      · next l' v htail =>
        cases hrun
        obtain ⟨rest', hi', rfl⟩ := ih (hs.skip (by simp [hi])) htail
        rw [skip_input, hi, drop_left] at hi'
        refine ⟨rest', ?_, ?_⟩
        · rw [hi, hi', flatMap_cons, append_assoc]
        · rw [skip_skip, flatMap_cons, length_append]
      · cases hrun

lemma decodeSliceElems_eq (h : Decodes elemdec enc bound) :
    ∀ {fuel : Nat} {s : Stream} {l : List α} {rest : List UInt8}, s.Ready → s.input.length < fuel →
      s.input.length < bound → s.input = l.flatMap enc ++ rest → s.listLimit = some (.ofNat (l.flatMap enc).length) →
      decodeSliceElems elemdec fuel s = .ok l (s.skip (l.flatMap enc).length) := by
  intro fuel
  induction fuel with
  | zero => intro s l rest _ hfuel; omega
  | succ fuel ih =>
    intro s l rest hs hfuel hbound hi hl
    unfold decodeSliceElems
    cases l with
    | nil =>
      rw [h.eol hs hbound hl]
      simp [skip_zero hs.ahead]
    | cons a l =>
      rw [flatMap_cons, append_assoc] at hi
      rw [flatMap_cons, length_append] at hl ⊢
      have hlt := hs.limited.lt
      have hpos : 0 < (enc a).length := length_pos_iff.2 (h.ne_nil a)
      have hsum : (enc a).length + (l.flatMap enc).length ≤ s.input.length := by simp [hi]
      have hholds : s.Holds (enc a).length := by
        intro limit hmem
        rw [hl, Option.mem_some_iff] at hmem
        rw [← hmem, toNat_ofNat64 (by omega)]
        omega
      have helem := h.complete hs hbound hi hholds
      have hi' : (s.skip (enc a).length).input = l.flatMap enc ++ rest := by rw [skip_input, hi, drop_left]
      have htail := ih (hs.skip (by omega)) (by rw [skip_input, length_drop]; omega)
        (by rw [skip_input, length_drop]; omega) hi' (listLimit_skip hl)
      simp only [helem, htail, skip_skip]

lemma decodeSliceElems_plain : ∀ {s t : Stream}, decodeSliceElems elemdec fuel s ≠ .error .eol t := by
  induction fuel with
  | zero => intro s t h; cases h
  | succ fuel ih =>
    intro s t h
    unfold decodeSliceElems at h
    split at h
    · cases h
    · next hne _ =>
      cases h
      exact hne rfl
    · split at h
      · cases h
      · next htail =>
        cases h
        exact ih htail

lemma decodeSliceElems_halts (h : Decodes elemdec enc bound) : ∀ {fuel : Nat} {s t : Stream}, s.Ready →
      s.input.length < fuel → s.input.length < bound → decodeSliceElems elemdec fuel s ≠ .error .endless t := by
  intro fuel
  induction fuel with
  | zero => intro s t _ hfuel; omega
  | succ fuel ih =>
    intro s t hs hfuel hbound hrun
    unfold decodeSliceElems at hrun
    split at hrun
    · cases hrun
    · next herr =>
      cases hrun
      exact h.halts hs hbound herr
    · next a u helem =>
      -- every element takes at least a byte, and the fuel was more than the bytes
      obtain ⟨rest, hi, rfl⟩ := h.sound hs helem
      have hpos : 0 < (enc a).length := length_pos_iff.2 (h.ne_nil a)
      have hsum : (enc a).length ≤ s.input.length := by simp [hi]
      split at hrun
      · cases hrun
      · next htail =>
        cases hrun
        have hlen : (s.skip (enc a).length).input.length = s.input.length - (enc a).length := by simp
        refine ih (hs.skip (by simp [hi])) ?_ ?_ htail
        · omega
        · omega

/-- What `decodeListSlice` does inside the list. -/
def sliceBody (elemdec : StreamM α) (fuel : Nat) : StreamM (List α) := fun s =>
  if s.listLimit = some 0 then .ok [] s else decodeSliceElems elemdec fuel s

lemma decodes_sliceBody (h : Decodes elemdec enc bound) :
    DecodesBody (sliceBody elemdec bound) (List.flatMap enc) bound where
  complete {s l rest} hs hbound hi hl := by
    unfold sliceBody
    split
    · next hzero =>
      have hlt := hs.limited.lt
      have hsum : (l.flatMap enc).length ≤ s.input.length := by simp [hi]
      have hnil : (l.flatMap enc).length = 0 := by
        rw [hl, Option.some.injEq, ← UInt64.toNat_inj, toNat_ofNat64 (by omega)] at hzero
        exact hzero
      cases l with
      | nil => simp [skip_zero hs.ahead]
      | cons a l => simp [h.ne_nil a] at hnil
    · exact decodeSliceElems_eq h hs hbound hbound hi hl
  sound {s t l} hs hrun := by
    unfold sliceBody at hrun
    split at hrun
    · cases hrun
      exact ⟨s.input, rfl, (skip_zero hs.ahead).symm⟩
    · exact decodeSliceElems_ok h hs hrun
  plain {s t} hs hrun := by
    unfold sliceBody at hrun
    split at hrun
    · cases hrun
    · exact decodeSliceElems_plain hrun
  halts {s t} hs hbound hrun := by
    unfold sliceBody at hrun
    split at hrun
    · cases hrun
    · exact decodeSliceElems_halts h hs hbound hbound hrun

lemma decodeListSlice_eq (elemdec : StreamM α) (fuel : Nat) :
    decodeListSlice elemdec fuel = decodeStruct (sliceBody elemdec fuel) := by
  funext s
  rw [decodeListSlice, decodeStruct, run_bind, run_bind]
  cases hl : list s with
  | error e t => rfl
  | ok size t =>
    have htop : t.listLimit = some size := by
      obtain ⟨a, u, -, hf⟩ := bind_run_ok hl
      split at hf <;> cases hf
      rfl
    by_cases h0 : size = 0
    · simp only [h0, if_true, sliceBody, run_bind, htop]
    · have h0' : ¬ t.listLimit = some 0 := by simpa [htop] using h0
      simp only [if_neg h0, sliceBody, run_bind, if_neg h0']

lemma Decodes.slice (h : Decodes elemdec enc bound) :
    Decodes (decodeListSlice elemdec bound) (encodeList (List.flatMap enc)) (bound + 1) := by
  rw [decodeListSlice_eq]
  exact (decodes_sliceBody h).decodes

end TurboOctopus.Rlp
