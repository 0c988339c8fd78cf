import TurboOctopus.Parlia.Accept
/-!
# Recent signers

A validator that signed a block has to wait until `limit - 1` others have
signed. The window is kept by deleting one key per block, and a run of keys
when the set shrinks. `Window` says what those deletions keep: every key left
is less than `limit` behind, and no signer is held twice. It is kept by every
accepted header (`accepted_window`), so it holds of every history.
-/
namespace TurboOctopus.Parlia

open Lib TurboOctopus.Types List Snapshot

variable {e : Engine} {s s' : Snapshot} {b : Block}

/-! ## Sizes -/

variable {bs : List Block} {d newLimit oldLimit : Nat} {h : Header} {k n : UInt64} {v : Address}
  {vals : List Address}

lemma length_extraValidators (hv : extraValidators h = .ok vals) : vals.length < 2 ^ 63 := by
  unfold extraValidators parseValidators at hv
  obtain ⟨-, hv⟩ := failIf_bind_ok_iff.1 hv
  obtain ⟨-, hv⟩ := failIf_bind_ok_iff.1 hv
  simp only [Except.ok.injEq] at hv
  subst hv
  have hx := h.extra_len
  rw [length_map, length_range, length_take, length_drop]
  unfold validatorBytesLength
  omega

/-- The validators fit in a Go map. -/
def Snapshot.Sized (s : Snapshot) : Prop := s.validators.card < 2 ^ 63

lemma newSnapshot_sized (n : UInt64) (b : Hash) (hv : vals.length < 2 ^ 63) : (newSnapshot n b vals).Sized :=
  lt_of_le_of_lt (toFinset_card_le vals) hv

lemma Accepts.sized {find : Nat → Header → Option Header} {t : Snapshot}
    (hv : Accepts e find s h v t) (hs : s.Sized) : t.Sized := by
  unfold Snapshot.Sized at hs ⊢
  rcases hv.next with ⟨-, hvals, -⟩ | ⟨-, c, vals, -, hex, hvals, -⟩
  · rw [hvals]
    exact hs
  · rw [hvals]
    exact lt_of_le_of_lt (toFinset_card_le vals) (length_extraValidators hex)

lemma accepted_sized (hs : s.Sized) (hb : e.Accepted s b s') : s'.Sized := by
  obtain ⟨-, -, -, -, chain, parents, v, t, ht, rfl⟩ := accepted_cases hb
  exact ht.sized hs

lemma Snapshot.Sized.limit_lt (hs : s.Sized) : s.limit < 2 ^ 63 := by
  unfold Snapshot.Sized at hs
  unfold limit
  omega

lemma Snapshot.limit_pos (s : Snapshot) : 0 < s.limit := Nat.succ_pos _

/-! ## Deletions -/

/-- Block `n` deletes one key, `limit` blocks back, and no other. -/
lemma lookup_expire (hs : s.Sized) :
    (s.expire n).recents.lookup k = some v ↔ s.recents.lookup k = some v ∧ n.toNat ≠ k.toNat + s.limit := by
  have hl : (UInt64.ofNat s.limit).toNat = s.limit := u64_ofNat (by have := hs.limit_lt; omega)
  have hle : UInt64.ofNat s.limit ≤ n ↔ s.limit ≤ n.toNat := by rw [UInt64.le_iff_toNat_le, hl]
  unfold expire
  simp only
  by_cases h : s.limit ≤ n.toNat
  · rw [if_pos (hle.2 h), lookup_erase_iff, and_comm]
    have hk : k = n - UInt64.ofNat s.limit ↔ n.toNat = k.toNat + s.limit := by
      rw [← UInt64.toNat_inj, u64_sub_of_le (hle.2 h), hl]
      omega
    rw [Ne, hk]
  · rw [if_neg (mt hle.1 h)]
    exact ⟨fun hk => ⟨hk, by omega⟩, And.left⟩

lemma mem_droppedKeys : k ∈ droppedKeys n oldLimit newLimit ↔
      ∃ j, newLimit ≤ j ∧ j < oldLimit ∧ k = n - UInt64.ofNat j := by
  unfold droppedKeys
  rw [mem_map]
  have hsub : ∀ i, n - UInt64.ofNat newLimit - UInt64.ofNat i = n - UInt64.ofNat (newLimit + i) := by
    intro i
    rw [UInt64.ofNat_add]
    grind
  constructor
  · rintro ⟨i, hi, rfl⟩
    rw [mem_range] at hi
    exact ⟨newLimit + i, by omega, by omega, hsub i⟩
  · rintro ⟨j, hj, hjo, rfl⟩
    refine ⟨j - newLimit, mem_range.2 (by omega), ?_⟩
    rw [hsub]
    congr 2
    omega

/-! ## The window -/

/-- What the recent signers of a snapshot satisfy. -/
structure Window (s : Snapshot) : Prop where
  sized : s.Sized
  back : ∀ k v, s.recents.lookup k = some v → s.number.toNat < k.toNat + s.limit
  distinct : Distinct s.recents

lemma lookup_empty_ne {k : UInt64} {v : Address} : (∅ : GoMap UInt64 Address).lookup k ≠ some v := by
  rw [Finmap.lookup_empty]
  simp

lemma newSnapshot_window (n : UInt64) (b : Hash) (hv : vals.length < 2 ^ 63) :
    Window (newSnapshot n b vals) where
  sized := newSnapshot_sized n b hv
  back _ _ hk := absurd hk lookup_empty_ne
  distinct _ _ _ hk := absurd hk lookup_empty_ne

/-- The next block brings every key one step nearer to the edge, and deletes
the one that would fall off. -/
lemma signedBy_back (hw : Window s) :
    ∀ k u, (s.signedBy (s.number + 1) v).lookup k = some u → (s.number + 1).toNat < k.toNat + s.limit := by
  intro k u hk
  have hpos := s.limit_pos
  rcases lookup_insert_iff.1 hk with ⟨rfl, -⟩ | ⟨-, hk⟩
  · omega
  · obtain ⟨hk, hne⟩ := (lookup_expire hw.sized).1 hk
    have hback := hw.back k u hk
    rcases u64_succ_cases s.number with hn | hn <;> omega

/-- A shrinking set deletes the keys between the new edge and the old one. -/
lemma back_of_droppedKeys {m : GoMap UInt64 Address}
    (ho : oldLimit < 2 ^ 63) (hm : ∀ k v, m.lookup k = some v → n.toNat < k.toNat + oldLimit) :
    ∀ k v, (eraseAll m (droppedKeys n oldLimit newLimit)).lookup k = some v → n.toNat < k.toNat + newLimit := by
  intro k v hk
  obtain ⟨hnot, hk⟩ := of_lookup_eraseAll hk
  have hback := hm k v hk
  by_contra hge
  refine hnot (mem_droppedKeys.2 ⟨n.toNat - k.toNat, by omega, by omega, ?_⟩)
  have hn := n.toNat_lt
  have hsub : (UInt64.ofNat (n.toNat - k.toNat)).toNat = n.toNat - k.toNat := u64_ofNat (by omega)
  have hle : UInt64.ofNat (n.toNat - k.toNat) ≤ n := by
    rw [UInt64.le_iff_toNat_le, hsub]
    omega
  rw [← UInt64.toNat_inj, u64_sub_of_le hle, hsub]
  omega

lemma accepted_window (hw : Window s) (hb : e.Accepted s b s') : Window s' := by
  obtain ⟨hnum, hn, -, -, chain, parents, v, t, ht, hs'⟩ := accepted_cases hb
  have hrec : s'.recents = t.recents := by rw [hs']; rfl
  have hvals : s'.validators = t.validators := by rw [hs']; rfl
  have hnew : Distinct (s.signedBy b.1.num v) := by
    refine Distinct.insert ?_ _ _ ht.fresh
    unfold expire
    simp only
    split
    · exact hw.distinct.erase _
    · exact hw.distinct
  have hback := signedBy_back (v := v) hw
  rw [← hn] at hback
  refine ⟨accepted_sized hw.sized hb, ?_, ?_⟩
  · rw [hnum, ← hn, hrec, limit, hvals]
    rcases ht.next with ⟨-, htv, htr⟩ | ⟨-, c, vals, -, -, htv, htr⟩
    · rw [htv, htr]
      exact hback
    · rw [htv, htr]
      exact back_of_droppedKeys hw.sized.limit_lt hback
  · rw [hrec]
    rcases ht.next with ⟨-, -, htr⟩ | ⟨-, c, vals, -, -, -, htr⟩
    · rw [htr]
      exact hnew
    · rw [htr]
      exact hnew.eraseAll _

/-- A signer on record after a block signed it, or was on record before. -/
lemma accepted_lookup (hb : e.Accepted s b s') {u : Address} (hk : s'.recents.lookup k = some u) :
    k = s.number + 1 ∨ s.recents.lookup k = some u := by
  obtain ⟨-, hn, -, -, chain, parents, v, t, ht, hs'⟩ := accepted_cases hb
  have hrec : s'.recents = t.recents := by rw [hs']; rfl
  rw [hrec] at hk
  have hnew : (s.signedBy b.1.num v).lookup k = some u := by
    rcases ht.next with ⟨-, -, htr⟩ | ⟨-, c, vals, -, -, -, htr⟩
    · exact htr ▸ hk
    · rw [htr] at hk
      exact (of_lookup_eraseAll hk).2
  rcases lookup_insert_iff.1 hnew with ⟨rfl, -⟩ | ⟨-, hk⟩
  · exact .inl hn
  · refine .inr ?_
    unfold expire at hk
    simp only at hk
    split at hk
    · exact (lookup_erase_iff.1 hk).2
    · exact hk

lemma run_number (hr : Run e.Accepted s bs s') : s'.number = s.number + UInt64.ofNat bs.length := by
  induction hr with
  | nil s => exact (UInt64.add_zero _).symm
  | @cons s t u b bs hb _ ih =>
    rw [ih, (accepted_cases hb).1, length_cons, UInt64.ofNat_add, UInt64.add_assoc,
      UInt64.add_comm (UInt64.ofNat bs.length)]
    rfl

/-- No key is ahead of the block the snapshot stands at. -/
def Snapshot.NotAhead (s : Snapshot) : Prop := ∀ k v, s.recents.lookup k = some v → k.toNat ≤ s.number.toNat

/-- As long as the block numbers stay in range. -/
lemma run_notAhead (hr : Run e.Accepted s bs s') (h0 : s.NotAhead)
    (hlt : s.number.toNat + bs.length < 2 ^ 64) : s'.NotAhead := by
  induction hr with
  | nil s => exact h0
  | @cons s t u b bs hb _ ih =>
    rw [length_cons] at hlt
    have hsucc : (s.number + 1).toNat = s.number.toNat + 1 := u64_succ (by omega)
    have hnum : t.number = s.number + 1 := (accepted_cases hb).1
    apply ih
    · intro k v hk
      rw [hnum, hsucc]
      rcases accepted_lookup hb hk with rfl | hk
      · omega
      · have := h0 k v hk
        omega
    · rw [hnum, hsucc]
      omega

lemma History.window {s₀ : Snapshot} (hh : History e s₀ bs s) (h0 : Window s₀) : Window s :=
  hh.run.inv Window h0 fun _ _ _ hw hb => accepted_window hw hb

/-! ## Waiting -/

/-- A signer is on record right after its block: whatever the switch deletes,
it is not the newest key. -/
lemma accepted_signer (hs : s.Sized) (hb : e.Accepted s b s') (hv : e.ecrecover b.1 = .ok v) :
    s'.recents.lookup b.1.num = some v := by
  obtain ⟨-, -, -, -, chain, parents, u, t, ht, hs'⟩ := accepted_cases hb
  have hrec : s'.recents = t.recents := by rw [hs']; rfl
  obtain rfl : u = v := by
    have := ht.signer.symm.trans hv
    exact Except.ok.inj this
  have hnew : (s.signedBy b.1.num u).lookup b.1.num = some u := Finmap.lookup_insert _
  rw [hrec]
  rcases ht.next with ⟨-, -, htr⟩ | ⟨-, c, vals, -, -, -, htr⟩
  · rw [htr]
    exact hnew
  · rw [htr, lookup_eraseAll, if_neg, hnew]
    intro hmem
    obtain ⟨j, hj, hjo, hk⟩ := mem_droppedKeys.1 hmem
    have hj64 : (UInt64.ofNat j).toNat = j := u64_ofNat (by have := hs.limit_lt; omega)
    have hzero : UInt64.ofNat j = 0 := by grind
    rw [hzero] at hj64
    have : j = 0 := hj64.symm
    omega

/-- A block under an unchanged set deletes no key less than `limit` back. -/
lemma accepted_keeps (hs : s.Sized) (hb : e.Accepted s b s') (hsame : s'.validators = s.validators)
    (hk : s.recents.lookup k = some v) (hd : s.number = k + UInt64.ofNat d)
    (hlim : d + 1 < s.limit) : s'.recents.lookup k = some v := by
  obtain ⟨-, hn, -, -, chain, parents, u, t, ht, hs'⟩ := accepted_cases hb
  have hrec : s'.recents = t.recents := by rw [hs']; rfl
  have hvals : t.validators = s.validators := by rw [← hsame, hs']; rfl
  have hd1 : (UInt64.ofNat (d + 1)).toNat = d + 1 := u64_ofNat (by have := hs.limit_lt; omega)
  have hnum : b.1.num = k + UInt64.ofNat (d + 1) := by
    rw [hn, hd, UInt64.ofNat_add, UInt64.add_assoc]
    rfl
  have hnew : (s.signedBy b.1.num u).lookup k = some v := by
    refine lookup_insert_iff.2 (.inr ⟨?_, (lookup_expire hs).2 ⟨hk, ?_⟩⟩)
    · intro he
      have hzero : UInt64.ofNat (d + 1) = 0 := by grind
      rw [hzero] at hd1
      exact absurd hd1 (by simp)
    · rw [hnum, UInt64.toNat_add, hd1]
      have := k.toNat_lt
      have := hs.limit_lt
      omega
  rw [hrec]
  rcases ht.next with ⟨-, -, htr⟩ | ⟨-, c, vals, -, -, htv, htr⟩
  · rw [htr]
    exact hnew
  · -- a switch to the same set has nothing to cut
    rw [← htv, hvals] at htr
    have hnil : droppedKeys b.1.num s.limit (s.validators.card / 2 + 1) = [] := by
      unfold droppedKeys limit
      rw [Nat.sub_self]
      rfl
    rw [htr, hnil]
    exact hnew

/-- So a signer stays on record until `limit` blocks have passed. -/
lemma run_keeps (hr : Run e.Accepted s bs s') (hs : s.Sized) (hsame : ∀ c ∈ bs, c.2.validators = s.validators)
    (hk : s.recents.lookup k = some v) (hd : s.number = k + UInt64.ofNat d) (hlim : d + bs.length < s.limit) :
    s'.recents.lookup k = some v ∧ s'.validators = s.validators ∧ s'.Sized := by
  induction hr generalizing d with
  | nil s => exact ⟨hk, rfl, hs⟩
  | @cons s t u b bs hb _ ih =>
    rw [length_cons] at hlim
    obtain rfl : t = b.2 := hb.1
    have hsame1 : b.2.validators = s.validators := hsame b mem_cons_self
    have hlimit : b.2.limit = s.limit := by unfold limit; rw [hsame1]
    have hnum : b.2.number = k + UInt64.ofNat (d + 1) := by
      rw [(accepted_cases hb).1, hd, UInt64.ofNat_add, UInt64.add_assoc]
      rfl
    have hkeep := accepted_keeps hs hb hsame1 hk hd (by omega)
    obtain ⟨h1, h2, h3⟩ := ih (accepted_sized hs hb)
      (fun c hc => (hsame c (mem_cons_of_mem b hc)).trans hsame1.symm) hkeep hnum (by omega)
    exact ⟨h1, h2.trans hsame1, h3⟩

/-- Two blocks of one signer under one set are at least `limit` apart. -/
lemma run_waits {a b : Block} {mid : List Block} (hs : s.Sized) (hr : Run e.Accepted s (a :: mid ++ [b]) s')
    (ha : e.ecrecover a.1 = .ok v) (hb : e.ecrecover b.1 = .ok v) (hsame : ∀ c ∈ mid, c.2.validators = a.2.validators) :
    a.2.limit ≤ mid.length + 1 ∧ b.1.num = a.1.num + UInt64.ofNat (mid.length + 1) := by
  obtain ⟨t, hta, hr⟩ := Run.cons_iff.1 hr
  obtain ⟨u, hmid, hub⟩ := Run.snoc_iff.1 hr
  obtain rfl : t = a.2 := hta.1
  obtain ⟨hta1, hta2, -⟩ := accepted_cases hta
  obtain ⟨-, hub2, -, -, chain, parents, w, t', ht', -⟩ := accepted_cases hub
  have hanum : a.2.number = a.1.num := hta1.trans hta2.symm
  have hbnum : b.1.num = a.1.num + UInt64.ofNat (mid.length + 1) := by
    rw [hub2, run_number hmid, hanum, UInt64.ofNat_add, UInt64.add_assoc]
    rfl
  refine ⟨?_, hbnum⟩
  -- otherwise the first block is still on record when the second is checked
  by_contra hlim
  obtain ⟨hk, hvals, hus⟩ := run_keeps hmid (accepted_sized hs hta) hsame (accepted_signer hs hta ha)
    (d := 0) (by rw [hanum]; exact (UInt64.add_zero _).symm) (by omega)
  obtain rfl : w = v := Except.ok.inj (ht'.signer.symm.trans hb)
  refine ht'.fresh (hasValue_iff.2 ⟨a.1.num, (lookup_expire hus).2 ⟨hk, ?_⟩⟩)
  have hlimit : u.limit = a.2.limit := by unfold limit; rw [hvals]
  have hlt := (accepted_sized hs hta).limit_lt
  have hd : (UInt64.ofNat (mid.length + 1)).toNat = mid.length + 1 := u64_ofNat (by omega)
  have hka := a.1.num.toNat_lt
  rw [hbnum, UInt64.toNat_add, hd, hlimit]
  omega

/-! ## Every history -/

/-- Whatever headers are applied from a new snapshot on, and however the set
grows or shrinks: no key is `limit` or more behind, none is ahead as long as
the numbers stay below `2 ^ 64`, no signer is held twice, and a signer's next
block under the same set comes at least `limit` blocks later. -/
theorem recent_signers (e : Engine) (number : UInt64) (hash : Hash) (validators : List Address)
    (hlen : validators.length < 2 ^ 63) (bs : List Block) (s : Snapshot)
    (hh : History e (newSnapshot number hash validators) bs s) :
    (∀ k v, s.recents.lookup k = some v → s.number.toNat < k.toNat + s.limit) ∧
    (number.toNat + bs.length < 2 ^ 64 → ∀ k v, s.recents.lookup k = some v → k.toNat ≤ s.number.toNat) ∧
    Distinct s.recents ∧
    ∀ pre a mid b post v, bs = pre ++ a :: mid ++ b :: post →
      e.ecrecover a.1 = .ok v → e.ecrecover b.1 = .ok v → (∀ c ∈ mid, c.2.validators = a.2.validators) →
      a.2.limit ≤ mid.length + 1 ∧ b.1.num = a.1.num + UInt64.ofNat (mid.length + 1) := by
  have h0 := newSnapshot_window number hash hlen
  have hw := hh.window h0
  refine ⟨hw.back, fun hlt => ?_, hw.distinct, ?_⟩
  · exact run_notAhead hh.run (fun _ _ hk => absurd hk lookup_empty_ne) hlt
  · intro pre a mid b post v hbs ha hb hsame
    have hr := hh.run
    rw [hbs, append_assoc, Run.append_iff] at hr
    obtain ⟨t, hpre, hr⟩ := hr
    rw [show a :: mid ++ b :: post = (a :: mid ++ [b]) ++ post by simp, Run.append_iff] at hr
    obtain ⟨u, hab, -⟩ := hr
    have ht : t.Sized := (hpre.inv Window h0 fun _ _ _ hw hb => accepted_window hw hb).sized
    exact run_waits ht hab ha hb hsame

/-- Three blocks under three validators, by 1, 2 and 1 again. -/
theorem recent_signers_of_three :
    ∃ bs s, History (smallEngine 200 (by decide) 1) (newSnapshot 10 0 [1, 2, 3]) bs s ∧ bs.length = 3 ∧
      s.recents.lookup 13 = some 1 ∧ Distinct s.recents := by
  let e := smallEngine 200 (by decide) 1
  let h1 := smallHeader 0 11 1 []
  let h2 := smallHeader (e.hashOf h1) 12 2 []
  let h3 := smallHeader (e.hashOf h2) 13 1 []
  let s0 := newSnapshot 10 0 [1, 2, 3]
  have hrun : returns (e.apply s0 [h1, h2, h3] (smallChain [] []) []) (fun s => s.recents.lookup 13 == some 1) = true := by
    decide +kernel
  have hlen : ([] ++ e.trace (smallChain [] []) [] s0 [h1, h2, h3]).length = 3 := by decide +kernel
  obtain ⟨s, hs, hk⟩ := of_returns hrun
  have hh : History e s0 ([] ++ e.trace (smallChain [] []) [] s0 [h1, h2, h3]) s := .call .start hs
  refine ⟨_, s, hh, hlen, beq_iff_eq.1 hk, ?_⟩
  exact (recent_signers e 10 0 [1, 2, 3] (by decide) _ s hh).2.2.1

/-- After block `2 ^ 64 - 1` comes number 0, and the key of the former stays,
ahead of the snapshot. -/
theorem recents_ahead_past_last_number :
    ¬ ∀ (e : Engine) (number : UInt64) (hash : Hash) (validators : List Address), validators ≠ [] →
      validators.length < 2 ^ 63 → ∀ bs s, History e (newSnapshot number hash validators) bs s →
      ∀ k v, s.recents.lookup k = some v → s.number.toNat < k.toNat + s.limit ∧ k.toNat ≤ s.number.toNat := by
  intro hall
  let e := smallEngine 200 (by decide) 1
  let h1 := smallHeader 0 (2 ^ 64 - 1) 1 []
  let h2 := smallHeader (e.hashOf h1) (2 ^ 64) 2 []
  let s0 := newSnapshot (UInt64.ofNat (2 ^ 64 - 2)) 0 [1, 2]
  have hrun : returns (e.apply s0 [h1, h2] (smallChain [] []) [])
      (fun s => s.recents.lookup (UInt64.ofNat (2 ^ 64 - 1)) == some 1 && s.number == 0) = true := by
    decide +kernel
  obtain ⟨s, hs, hk⟩ := of_returns hrun
  simp only [Bool.and_eq_true, beq_iff_eq] at hk
  have := (hall e _ 0 [1, 2] (by decide) (by decide) _ s (.call .start hs) _ _ hk.1).2
  rw [hk.2] at this
  exact absurd this (by decide)

end TurboOctopus.Parlia
