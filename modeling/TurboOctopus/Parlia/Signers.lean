import TurboOctopus.Parlia.Engine
import TurboOctopus.Parlia.Recents
/-!
# Who may sign the next block

Three places ask it: `verifySeal` of a received header, `apply` when the child
snapshot is built, and `SignRecently` before the engine seals a block of its
own. The last two agree in every reachable state. `verifySeal` subtracts
`limit` from the number without asking whether that goes below zero, and lets a
recent signer through at the start of a chain (`signer_checks_agree_iff`).
-/
namespace TurboOctopus.Parlia

open Lib TurboOctopus.Types

variable {e : Engine} {s : Snapshot} {signer : Address} {h : Header}

/-! ## The three answers -/

/-- `apply` refuses the header neither for its signer's membership nor for its
recent blocks. -/
def Engine.AppliesSigner (e : Engine) (s : Snapshot) (h : Header) (chain : ChainReader) (parents : List Header) :
    Prop :=
  e.apply s [h] chain parents ≠ .error .errUnauthorizedValidator ∧
    e.apply s [h] chain parents ≠ .error .errRecentlySigned

/-- `SignRecently` answers `(false, nil)`. -/
def Engine.MaySign (e : Engine) (chain : ChainReader) (parent : Header) (c : Caches) : Prop :=
  ∃ c', e.signRecently chain parent c = .ok false c'

variable {chain : ChainReader} {err : Err} {n seen : UInt64} {v : Address}

lemma verifySigner_iff : s.verifySigner signer n = .ok () ↔ signer ∈ s.validators ∧
      ¬ ∃ seen, s.recents.lookup seen = some signer ∧ (n - UInt64.ofNat s.limit).toNat < seen.toNat := by
  unfold Snapshot.verifySigner
  rw [failIf_bind_ok_iff, failIf_ok_iff, not_not]
  refine and_congr_right fun _ => not_congr ⟨?_, ?_⟩
  · rintro ⟨seen, -, hseen, hlt⟩
    exact ⟨seen, hseen, UInt64.lt_iff_toNat_lt.1 hlt⟩
  · rintro ⟨seen, hseen, hlt⟩
    exact ⟨seen, mem_keys_of_lookup hseen, hseen, UInt64.lt_iff_toNat_lt.2 hlt⟩

lemma recentlySigned_iff (hs : s.Sized) : s.RecentlySigned signer n ↔ ∃ seen, s.recents.lookup seen = some signer ∧
      (n.toNat < s.limit ∨ (n - UInt64.ofNat s.limit).toNat < seen.toNat) := by
  have hl : (UInt64.ofNat s.limit).toNat = s.limit := u64_ofNat (by have := hs.limit_lt; omega)
  unfold Snapshot.RecentlySigned
  simp only [UInt64.lt_iff_toNat_lt, hl]
  constructor
  · rintro ⟨seen, -, hseen⟩
    exact ⟨seen, hseen⟩
  · rintro ⟨seen, hseen, hlt⟩
    exact ⟨seen, mem_keys_of_lookup hseen, hseen, hlt⟩

lemma changeValidators_error {find : Nat → Header → Option Header} (hc : e.changeValidators find s h = .error err) :
    err = .errUnknownAncestor ∨ err = .panic ∨ err = .invalidValidatorsBytes := by
  unfold Engine.changeValidators at hc
  split at hc
  · split at hc
    · cases hc
      exact .inl rfl
    · rename_i c _
      unfold extraValidators at hc
      by_cases hl : c.extra.length < extraVanity + extraSeal
      · rw [failIf_of hl] at hc
        cases hc
        exact .inr (.inl rfl)
      · rw [failIf_of_not hl, ok_bind, parseValidators] at hc
        by_cases hm : ((c.extra.drop extraVanity).take (c.extra.length - extraVanity - extraSeal)).length %
            validatorBytesLength ≠ 0
        · rw [failIf_of hm] at hc
          cases hc
          exact .inr (.inr rfl)
        · rw [failIf_of_not hm] at hc
          cases hc
  · cases hc

lemma recordForkHash_error (hr : s.recordForkHash h = .error err) : err = .panic := by
  unfold Snapshot.recordForkHash at hr
  by_cases hl : h.extra.length < extraVanity
  · rw [failIf_of hl] at hr
    cases hr
    rfl
  · rw [failIf_of_not hl] at hr
    cases hr

/-- Past the two checks of the signer, no error is about the signer. -/
lemma applyHeader_signer_iff (find : Nat → Header → Option Header) (hsig : e.ecrecover h = .ok signer) :
    (e.applyHeader find s h ≠ .error .errUnauthorizedValidator ∧ e.applyHeader find s h ≠ .error .errRecentlySigned) ↔
      signer ∈ s.validators ∧ ¬ HasValue (s.expire h.num).recents signer := by
  rw [← expire_validators s h.num]
  unfold Engine.applyHeader
  rw [hsig]
  simp only [ok_bind]
  by_cases hm : signer ∉ (s.expire h.num).validators
  · rw [failIf_of hm]
    exact iff_of_false (fun hne => hne.1 rfl) (fun hmem => hm hmem.1)
  rw [failIf_of_not hm]
  by_cases hr : HasValue (s.expire h.num).recents signer
  · rw [failIf_of hr]
    simp [hr]
  rw [failIf_of_not hr]
  simp only [ok_bind]
  refine iff_of_true ?_ ⟨not_not.1 hm, hr⟩
  cases hc : e.changeValidators find
      { s.expire h.num with recents := (s.expire h.num).recents.insert h.num signer } h with
  | error err =>
    have := changeValidators_error hc
    constructor <;> rintro ⟨⟩ <;> simp at this
  | ok t =>
    constructor
    all_goals
      intro herr
      cases recordForkHash_error (herr : t.recordForkHash h = _)

lemma appliesSigner_iff {parents : List Header} (hs : s.Sized) (hn : h.num = s.number + 1)
    (hp : h.parentHash = s.hash) (hsig : e.ecrecover h = .ok signer) : e.AppliesSigner s h chain parents ↔
      signer ∈ s.validators ∧ ¬ ∃ seen, s.recents.lookup seen = some signer ∧ h.num.toNat ≠ seen.toNat + s.limit := by
  have hexp : HasValue (s.expire h.num).recents signer ↔
      ∃ seen, s.recents.lookup seen = some signer ∧ h.num.toNat ≠ seen.toNat + s.limit := by
    rw [hasValue_iff]
    exact exists_congr fun seen => lookup_expire hs
  rw [← hexp, ← applyHeader_signer_iff (e.findAncientHeader chain parents) hsig]
  unfold Engine.AppliesSigner Engine.apply
  simp only [Engine.checkLinked, ok_bind]
  rw [failIf_of_not (not_not.2 hn), failIf_of_not (not_not.2 hp)]
  simp only [ok_bind, List.foldlM_cons, List.foldlM_nil]
  cases e.applyHeader (e.findAncientHeader chain parents) s h with
  | error err => exact Iff.rfl
  | ok t =>
    have hne : ∀ (u : Snapshot) (err : Err), Except.ok u ≠ .error err := by
      intro u err herr
      cases herr
    exact iff_of_true ⟨hne _ _, hne _ _⟩ ⟨hne _ _, hne _ _⟩

lemma maySign_iff {parent : Header} {c c' : Caches} (hs : s.Sized)
    (hsnap : e.snapshot chain parent.num (e.hashOf parent) [] c = .ok s c') : e.MaySign chain parent c ↔
      e.val ∈ s.validators ∧ ¬ ∃ seen, s.recents.lookup seen = some e.val ∧
      ((parent.num + 1).toNat < s.limit ∨ (parent.num + 1 - UInt64.ofNat s.limit).toNat < seen.toNat) := by
  rw [← recentlySigned_iff hs]
  unfold Engine.MaySign Engine.signRecently
  rw [run_bind_of_ok hsnap]
  by_cases hm : e.val ∉ s.validators
  · rw [failIf_of hm]
    refine iff_of_false ?_ (fun h => hm h.1)
    rintro ⟨c'', hc⟩
    cases hc
  · rw [failIf_of_not hm]
    constructor
    · rintro ⟨c'', hc⟩
      have : decide (s.RecentlySigned e.val (parent.num + 1)) = false := by
        injection hc
      exact ⟨not_not.1 hm, of_decide_eq_false this⟩
    · rintro ⟨-, hr⟩
      exact ⟨c', by rw [decide_eq_false hr]; rfl⟩

/-! ## Where they agree -/

/-- The block is so early that `number - limit` wraps, and the signer is on
record: `verifySeal` takes the wrapped difference for a block far ahead. -/
def Snapshot.LetThrough (s : Snapshot) (signer : Address) (n : UInt64) : Prop :=
  n.toNat < s.limit ∧ signer ∈ s.validators ∧
    ∃ seen, s.recents.lookup seen = some signer ∧ seen.toNat + s.limit ≤ n.toNat + 2 ^ 64

/-- A key in the window is shifted out by block `n` exactly if it is `limit` behind. -/
lemma window_edge (hw : Window s) (hk : s.recents.lookup seen = some v) :
    (s.number + 1).toNat ≤ seen.toNat + s.limit := by
  have hback := hw.back seen v hk
  have hpos := s.limit_pos
  rcases u64_succ_cases s.number with hn | hn <;> omega

/-- `number - limit` as `verifySeal` computes it. -/
lemma sub_limit_lt_iff (hs : s.Sized) : (n - UInt64.ofNat s.limit).toNat < seen.toNat ↔
      if s.limit ≤ n.toNat then n.toNat < seen.toNat + s.limit else n.toNat + 2 ^ 64 < seen.toNat + s.limit := by
  have hlt := hs.limit_lt
  have hl : (UInt64.ofNat s.limit).toNat = s.limit := u64_ofNat (by omega)
  have hn := n.toNat_lt
  rw [UInt64.toNat_sub, hl]
  split <;> omega

/-- `apply` and `SignRecently` ask the same of the signer. -/
lemma signer_shifted_iff (hw : Window s) :
    (∃ seen, s.recents.lookup seen = some v ∧ (s.number + 1).toNat ≠ seen.toNat + s.limit) ↔
      ∃ seen, s.recents.lookup seen = some v ∧ ((s.number + 1).toNat < s.limit ∨
        (s.number + 1 - UInt64.ofNat s.limit).toNat < seen.toNat) := by
  refine exists_congr fun seen => and_congr_right fun hk => ?_
  have hedge := window_edge hw hk
  rw [sub_limit_lt_iff hw.sized]
  by_cases hle : s.limit ≤ (s.number + 1).toNat
  · rw [if_pos hle]
    omega
  · rw [if_neg hle]
    omega

/-- In every reachable state `verifySeal`, `apply` and `SignRecently` agree on
the signer of the next block, except where `verifySeal` lets it through. -/
theorem signer_checks_agree_iff (e : Engine) (number : UInt64) (hash : Hash) (validators : List Address)
    (hlen : validators.length < 2 ^ 63) (bs : List Block) (s : Snapshot)
    (hh : History e (newSnapshot number hash validators) bs s) (h : Header) (hn : h.num = s.number + 1)
    (hp : h.parentHash = s.hash) (hsig : e.ecrecover h = .ok e.val) (chain : ChainReader) (parents : List Header)
    (parent : Header) (c c' : Caches) (hpn : parent.num = s.number)
    (hsnap : e.snapshot chain parent.num (e.hashOf parent) [] c = .ok s c') :
    ((s.verifySigner e.val h.num = .ok () ↔ e.AppliesSigner s h chain parents) ∧
      (s.verifySigner e.val h.num = .ok () ↔ e.MaySign chain parent c)) ↔
    ¬ s.LetThrough e.val h.num := by
  have hw := hh.window (newSnapshot_window number hash hlen)
  rw [verifySigner_iff, appliesSigner_iff hw.sized hn hp hsig, maySign_iff hw.sized hsnap, hpn, hn,
    ← signer_shifted_iff hw]
  unfold Snapshot.LetThrough
  by_cases hm : e.val ∈ s.validators
  · simp only [hm, true_and, and_self]
    rw [not_iff_not, signer_shifted_iff hw]
    by_cases hle : s.limit ≤ (s.number + 1).toNat
    · have hge : ¬ (s.number + 1).toNat < s.limit := by omega
      simp only [hge, false_or, false_and, not_false_eq_true]
    · have hlt : (s.number + 1).toNat < s.limit := by omega
      simp only [hlt, true_or, and_true, true_and, not_exists, not_and]
      constructor
      · intro hiff seen hk hwrap
        obtain ⟨seen', hk', hlt'⟩ := hiff.2 ⟨seen, hk⟩
        obtain rfl := hw.distinct _ _ _ hk hk'
        rw [sub_limit_lt_iff hw.sized, if_neg hle] at hlt'
        omega
      · intro hnone
        refine ⟨fun ⟨seen, hk, _⟩ => ⟨seen, hk⟩, fun ⟨seen, hk⟩ => ⟨seen, hk, ?_⟩⟩
        rw [sub_limit_lt_iff hw.sized, if_neg hle]
        have := hnone seen hk
        omega
  · simp [hm]

/-- The engine signs block 13 after it signed block 11: under three validators
that is far enough. -/
theorem signer_checks_agree_after_two : ∃ s h parent c c', parent.num = s.number ∧
      (smallEngine 200 (by decide) 1).snapshot (smallChain [] []) parent.num
        ((smallEngine 200 (by decide) 1).hashOf parent) [] c = .ok s c' ∧
      s.recents.lookup 11 = some 1 ∧ s.verifySigner 1 h.num = .ok () ∧
      (s.verifySigner 1 h.num = .ok () ↔ (smallEngine 200 (by decide) 1).AppliesSigner s h (smallChain [] []) []) := by
  let e := smallEngine 200 (by decide) 1
  let h1 := smallHeader 0 11 1 []
  let h2 := smallHeader (e.hashOf h1) 12 2 []
  let h3 := smallHeader (e.hashOf h2) 13 1 []
  let s0 := newSnapshot 10 0 [1, 2, 3]
  have hrun : returns (e.apply s0 [h1, h2] (smallChain [] []) []) (fun s => s.recents.lookup 11 == some 1 &&
      decide (s.number = 12) && decide (s.hash = e.hashOf h2) && decide (s.verifySigner 1 13 = .ok ()) &&
      decide (s.limit = 2)) = true := by
    decide +kernel
  obtain ⟨s, hs, hk⟩ := of_returns hrun
  simp only [Bool.and_eq_true, beq_iff_eq, decide_eq_true_eq] at hk
  obtain ⟨⟨⟨⟨hk, hnum⟩, hhash⟩, hver⟩, hlim⟩ := hk
  have hrec : (Caches.empty.add s).recentSnaps (e.hashOf h2) = some s := by
    rw [← hhash]
    exact Function.update_self _ _ _
  have hsnap := snapshot_of_recent e (smallChain [] []) h2.num [] hrec
  have hh2 : h2.num = 12 := smallHeader_num _ _ _ _ _
  have hh3 : h3.num = 13 := smallHeader_num _ _ _ _ _
  have hp3 : h3.parentHash = e.hashOf h2 := smallHeader_parentHash _ _ _ _ _
  have hsig : e.ecrecover h3 = .ok e.val := by decide +kernel
  refine ⟨s, h3, h2, _, _, hh2.trans hnum.symm, hsnap, hk, by rw [hh3]; exact hver, ?_⟩
  refine ((signer_checks_agree_iff e 10 0 [1, 2, 3] (by decide) _ s (.call .start hs) h3 (by rw [hh3, hnum]; rfl)
    (hp3.trans hhash.symm) hsig (smallChain [] []) [] h2 _ _ (hh2.trans hnum.symm) hsnap).2 ?_).1
  rintro ⟨hlt, -⟩
  rw [hlim, hh3] at hlt
  exact absurd hlt (by decide)

/-- Under five validators block 2 of the signer of block 1 passes `verifySeal`,
and has no child snapshot. -/
theorem second_block_let_through :
    ∃ bs s h, History (smallEngine 200 (by decide) 1) (newSnapshot 0 0 [1, 2, 3, 4, 5]) bs s ∧
      h.num = s.number + 1 ∧ h.parentHash = s.hash ∧ (smallEngine 200 (by decide) 1).ecrecover h = .ok 1 ∧
      s.verifySigner 1 h.num = .ok () ∧
      (smallEngine 200 (by decide) 1).apply s [h] (smallChain [] []) [] = .error .errRecentlySigned ∧
      ∃ c c', (smallEngine 200 (by decide) 1).signRecently (smallChain [] []) (smallHeader 0 1 1 []) c = .ok true c' := by
  let e := smallEngine 200 (by decide) 1
  let h1 := smallHeader 0 1 1 []
  let h2 := smallHeader (e.hashOf h1) 2 1 []
  let s0 := newSnapshot 0 0 [1, 2, 3, 4, 5]
  have hrun : returns (e.apply s0 [h1] (smallChain [] []) []) (fun s => decide (s.number = 1) &&
      decide (s.hash = e.hashOf h1) && decide (s.verifySigner 1 2 = .ok ()) &&
      decide (e.apply s [h2] (smallChain [] []) [] = .error .errRecentlySigned) &&
      decide (1 ∈ s.validators) && decide (s.RecentlySigned 1 2)) = true := by
    decide +kernel
  obtain ⟨s, hs, hk⟩ := of_returns hrun
  simp only [Bool.and_eq_true, decide_eq_true_eq] at hk
  obtain ⟨⟨⟨⟨⟨hnum, hhash⟩, hver⟩, happ⟩, hmem⟩, hrecent⟩ := hk
  have hh1 : h1.num = 1 := smallHeader_num _ _ _ _ _
  have hh2 : h2.num = 2 := smallHeader_num _ _ _ _ _
  have hp2 : h2.parentHash = e.hashOf h1 := smallHeader_parentHash _ _ _ _ _
  have hsig : e.ecrecover h2 = .ok 1 := by decide +kernel
  refine ⟨_, s, h2, .call .start hs, by rw [hh2, hnum]; rfl, hp2.trans hhash.symm, hsig, ?_, happ, ?_⟩
  · rw [hh2]
    exact hver
  · have hrec : (Caches.empty.add s).recentSnaps (e.hashOf h1) = some s := by
      rw [← hhash]
      exact Function.update_self _ _ _
    have hsnap := snapshot_of_recent e (smallChain [] []) h1.num [] hrec
    refine ⟨Caches.empty.add s, (Caches.empty.add s).add s, ?_⟩
    have hmem' : ¬ e.val ∉ s.validators := not_not.2 hmem
    have htrue : decide (s.RecentlySigned e.val (h1.num + 1)) = true := by
      rw [hh1]
      exact decide_eq_true hrecent
    unfold Engine.signRecently
    rw [run_bind_of_ok hsnap, failIf_of_not hmem', htrue]
    rfl

end TurboOctopus.Parlia
