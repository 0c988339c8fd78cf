import TurboOctopus.Parlia.Ancestry
/-!
# How the validator set changes

The set announced by an epoch header comes into force half the old set's size
later. `Steps.unchanged` and `Steps.announced` say what one block does to the
set. The height of the switch depends on the set that is replaced, so a set that
grew can be switched to twice in one epoch; the second time changes nothing
(`Steps.second_switch`).
-/
namespace TurboOctopus.Parlia

open Lib TurboOctopus.Types List

variable {e : Engine} {g : Header} {b p : Block} {bs : List Block}

/-- The place of block `n` in its epoch is half the size of the set in force. -/
def Engine.Triggers (e : Engine) (n : UInt64) (s : Snapshot) : Prop :=
  n.toNat % e.config.epoch.toNat = s.validators.card / 2

/-- The header at the start of the epoch of the first of `bs` announces `vals`. -/
def Engine.EpochAnnounces (e : Engine) (n : UInt64) (bs : List Block) (vals : List Address) : Prop :=
  ∃ a, bs[n.toNat % e.config.epoch.toNat]? = some a ∧ a.1.num = n - n % e.config.epoch ∧
    extraValidators a.1 = .ok vals

lemma triggers_iff {s : Snapshot} {n : UInt64} (hs : s.Sized) :
    e.Triggers n s ↔ n % e.config.epoch = UInt64.ofNat (s.validators.card / 2) := by
  unfold Snapshot.Sized at hs
  rw [← UInt64.toNat_inj, UInt64.toNat_mod, u64_ofNat (by omega)]
  rfl

namespace Steps

lemma tail (hb : Steps e g (b :: p :: bs)) : Steps e g (p :: bs) := by
  cases hb with
  | block hp _ _ => exact hp

lemma sized (hb : Steps e g (b :: bs)) : b.2.Sized :=
  (refSnapshot_spec hb.ref.1 hb.ref.2).1

/-- What the block's own path says about its acceptance. -/
lemma accepts (hb : Steps e g (b :: p :: bs)) :
    ∃ v t, Accepts e (fun k _ => ((b :: p :: bs).map Prod.fst)[k]?) p.2 b.1 v t ∧ b.2.validators = t.validators := by
  obtain ⟨s, hs, ha⟩ := refSnapshot_child.1 hb.ref.2
  obtain rfl : s = p.2 := Except.ok.inj (hs.symm.trans hb.tail.ref.2)
  obtain ⟨-, -, t, ht, hb2⟩ := applyOne_ok_iff.1 ha
  obtain ⟨v, hv⟩ := applyHeader_ok ht
  refine ⟨v, t, hv, ?_⟩
  rw [hb2]
  rfl

/-! ## One block -/

lemma unchanged (hb : Steps e g (b :: p :: bs)) (hn : ¬ e.Triggers b.1.num p.2) :
    b.2.validators = p.2.validators := by
  obtain ⟨v, t, hv, hbt⟩ := hb.accepts
  rw [hbt]
  rcases hv.next with ⟨-, hvals, -⟩ | ⟨hsw, -⟩
  · exact hvals
  · exact absurd ((triggers_iff hb.tail.sized).2 hsw.2) hn

lemma announced (hb : Steps e g (b :: p :: bs)) (hpos : 0 < b.1.num) (ht : e.Triggers b.1.num p.2) :
    ∃ vals, e.EpochAnnounces b.1.num (b :: p :: bs) vals ∧ b.2.validators = vals.toFinset := by
  obtain ⟨v, t, hv, hbt⟩ := hb.accepts
  have hmod := (triggers_iff hb.tail.sized).1 ht
  rcases hv.next with ⟨hsw, -⟩ | ⟨-, c, vals, hc, hex, hvals, -⟩
  · exact absurd ⟨hpos, hmod⟩ hsw
  · rw [List.getElem?_map] at hc
    obtain ⟨a, ha, rfl⟩ := Option.map_eq_some_iff.1 hc
    refine ⟨vals, ⟨a, ?_, ?_, hex⟩, hbt.trans hvals⟩
    · unfold Engine.Triggers at ht
      rw [ht]
      exact ha
    · have hnum := hb.ref.1.num_of_getElem? (k := p.2.validators.card / 2) (a := a.1) (by
        rw [← map_cons, List.getElem?_map, ha]
        rfl)
      rw [hnum, hmod]

/-! ## One epoch -/

/-- The place in the epoch of the block before. -/
lemma place (hb : Steps e g (b :: p :: bs)) (hpos : 0 < b.1.num.toNat % e.config.epoch.toNat) :
    b.1.num.toNat % e.config.epoch.toNat = p.1.num.toNat % e.config.epoch.toNat + 1 := by
  have hnum : b.1.num = p.1.num + 1 := by
    have hpath := hb.ref.1
    cases hpath with
    | child _ hnum _ => exact hnum
  have hsucc : b.1.num.toNat = p.1.num.toNat + 1 := by
    rcases u64_succ_cases p.1.num with h | h
    · rw [hnum, h]
    · rw [hnum, h, Nat.zero_mod] at hpos
      exact absurd hpos (by simp)
  rw [hsucc] at hpos ⊢
  exact succ_mod hpos

/-- From its first switch on, an epoch's announcement is in force. -/
lemma in_force {i : Nat} {t q : Block} (hb : Steps e g (b :: bs))
    (hi : i ≤ b.1.num.toNat % e.config.epoch.toNat) (ht : (b :: bs)[i]? = some t) (hq : (b :: bs)[i + 1]? = some q)
    (hpos : 0 < t.1.num) (htrig : e.Triggers t.1.num q.2) :
    ∃ vals, e.EpochAnnounces b.1.num (b :: bs) vals ∧ b.2.validators = vals.toFinset := by
  induction i generalizing b bs with
  | zero =>
    cases bs with
    | nil => cases hq
    | cons p bs =>
      cases ht
      cases hq
      exact hb.announced hpos htrig
  | succ i ih =>
    cases bs with
    | nil => cases ht
    | cons p bs =>
      have hplace := hb.place (by omega)
      obtain ⟨vals, ⟨a, ha, hnum, hex⟩, hvals⟩ := ih hb.tail (by omega) ht hq
      have hann : e.EpochAnnounces b.1.num (b :: p :: bs) vals := by
        have ha' : (b :: p :: bs)[b.1.num.toNat % e.config.epoch.toNat]? = some a := by
          rw [hplace, List.getElem?_cons_succ]
          exact ha
        refine ⟨a, ha', ?_, hex⟩
        have hdepth := hb.ref.1.num_of_getElem? (k := b.1.num.toNat % e.config.epoch.toNat) (a := a.1) (by
          rw [← map_cons, List.getElem?_map, ha']
          rfl)
        rw [hdepth, ← UInt64.toNat_mod, UInt64.ofNat_toNat]
      refine ⟨vals, hann, ?_⟩
      by_cases htb : e.Triggers b.1.num p.2
      · have hposb : 0 < b.1.num := by
          rw [UInt64.lt_iff_toNat_lt]
          by_contra hzero
          have : b.1.num.toNat = 0 := by simpa using hzero
          rw [this, Nat.zero_mod] at hi
          omega
        -- both switches read the same header
        obtain ⟨vals', ⟨a', ha', -, hex'⟩, hvals'⟩ := hb.announced hposb htb
        obtain ⟨a'', ha'', -, hex''⟩ := hann
        cases ha'.symm.trans ha''
        cases hex'.symm.trans hex''
        exact hvals'
      · exact (hb.unchanged htb).trans hvals

/-- A second switch in one epoch leaves the set as it is. -/
lemma second_switch {i : Nat} {t q : Block} (hb : Steps e g (b :: p :: bs))
    (hi : i < b.1.num.toNat % e.config.epoch.toNat) (ht : (p :: bs)[i]? = some t) (hq : (p :: bs)[i + 1]? = some q)
    (hpos : 0 < t.1.num) (htrig : e.Triggers t.1.num q.2) : b.2.validators = p.2.validators := by
  have hplace := hb.place (by omega)
  obtain ⟨vals, ⟨a, ha, -, hex⟩, hvals⟩ := hb.in_force (i := i + 1) hi ht hq hpos htrig
  obtain ⟨vals', ⟨a', ha', -, hex'⟩, hvals'⟩ := hb.tail.in_force (i := i) (by omega) ht hq hpos htrig
  rw [hplace, List.getElem?_cons_succ] at ha
  cases ha.symm.trans ha'
  cases hex.symm.trans hex'
  rw [hvals, hvals']

/-! ## The whole lineage -/

lemma suffix {post : List Block} (hb : Steps e g (post ++ b :: bs)) : Steps e g (b :: bs) := by
  induction post with
  | nil => exact hb
  | cons x post ih =>
    cases post with
    | nil => exact hb.tail
    | cons y post => exact ih hb.tail

/-- The snapshots depend on the headers alone. -/
lemma unique {bs bs' : List Block} (hb : Steps e g bs) (hb' : Steps e g bs')
    (heq : bs'.map Prod.fst = bs.map Prod.fst) : bs' = bs := by
  induction bs generalizing bs' with
  | nil => cases hb
  | cons b bs ih =>
    cases bs' with
    | nil => cases hb'
    | cons b' bs' =>
      obtain ⟨hfst, htail⟩ := List.cons.inj heq
      have hsnd : b'.2 = b.2 := by
        have hr := hb'.ref.2
        rw [heq, hb.ref.2] at hr
        exact (Except.ok.inj hr).symm
      have hbb : b' = b := Prod.ext hfst hsnd
      cases bs with
      | nil =>
        cases bs' with
        | nil => rw [hbb]
        | cons _ _ => cases htail
      | cons p bs =>
        cases bs' with
        | nil => cases htail
        | cons p' bs' => rw [hbb, ih hb.tail hb'.tail htail]

end Steps

/-- In every lineage the set changes only at a block whose place in its epoch
is half the set's size; there the new set is the one the first header of the
epoch announces; a further such block of that epoch leaves it unchanged; and the
snapshots depend on the headers alone, not on where a node found them. -/
theorem validators_evolve (e : Engine) (g : Header) (bs : List Block) (hl : Lineage e g bs) :
    (∀ post b p pre, bs = post ++ b :: p :: pre → (b.2.validators ≠ p.2.validators → e.Triggers b.1.num p.2) ∧
      (0 < b.1.num → e.Triggers b.1.num p.2 →
        ∃ vals, e.EpochAnnounces b.1.num (b :: p :: pre) vals ∧ b.2.validators = vals.toFinset) ∧
      ∀ i t q, i < b.1.num.toNat % e.config.epoch.toNat → (p :: pre)[i]? = some t → (p :: pre)[i + 1]? = some q →
        0 < t.1.num → e.Triggers t.1.num q.2 → b.2.validators = p.2.validators) ∧
    ∀ bs', Lineage e g bs' → bs'.map Prod.fst = bs.map Prod.fst → bs' = bs := by
  refine ⟨?_, fun bs' hl' heq => hl.steps.unique hl'.steps heq⟩
  intro post b p pre hbs
  have hb : Steps e g (b :: p :: pre) := Steps.suffix (hbs ▸ hl.steps)
  refine ⟨fun hne => ?_, hb.announced, fun i t q hi ht hq hpos htrig => hb.second_switch hi ht hq hpos htrig⟩
  by_contra hn
  exact hne (hb.unchanged hn)

/-- One header from the chain, on a node that has its ancestors stored. -/
lemma Lineage.block {chain : ChainReader} {h : Header} {s : Snapshot} (hl : Lineage e g (b :: bs))
    (ha : e.apply b.2 [h] chain [] = .ok s)
    (hc : ∀ a ∈ (b :: bs).map Prod.fst, chain.getHeader (e.hashOf a) a.num = some a) :
    Lineage e g ((h, s) :: b :: bs) := by
  have hsee : Sees e chain [] ([h].reverse ++ (b :: bs).map Prod.fst).tail :=
    ⟨.nil, fun _ _ p hp => absurd hp not_mem_nil, fun a ha => .inr (hc a ha)⟩
  have hcall := hl.call ha hsee
  rw [Engine.trace, ha] at hcall
  exact hcall

/-- Epochs of two blocks. Block 2 announces a second validator and is switched to
at once, as there was one before; block 3 switches to it again. -/
theorem validators_of_third_block :
    ∃ b p bs, Lineage (smallEngine 2 (by decide) 1) (smallHeader 0 0 0 [1]) (b :: p :: bs) ∧ b.1.num = 3 ∧
      p.2.validators = {1, 2} ∧ b.2.validators = p.2.validators := by
  let e := smallEngine 2 (by decide) 1
  let g := smallHeader 0 0 0 [1]
  let h1 := smallHeader (e.hashOf g) 1 1 []
  let h2 := smallHeader (e.hashOf h1) 2 1 [1, 2]
  let h3 := smallHeader (e.hashOf h2) 3 2 []
  let chain := smallChain [1] [h2, h1]
  have hrun : returns (e.apply (newSnapshot 0 (e.hashOf g) [1]) [h1] chain []) (fun t1 =>
      decide (t1.validators.card = 1) && returns (e.apply t1 [h2] chain []) (fun t2 =>
        decide (t2.validators = {1, 2}) && returns (e.apply t2 [h3] chain []) (fun _ => true))) = true := by
    decide +kernel
  obtain ⟨t1, ha1, hr⟩ := of_returns hrun
  rw [Bool.and_eq_true, decide_eq_true_eq] at hr
  obtain ⟨hcard, hr⟩ := hr
  obtain ⟨t2, ha2, hr⟩ := of_returns hr
  rw [Bool.and_eq_true, decide_eq_true_eq] at hr
  obtain ⟨hvals, hr⟩ := hr
  obtain ⟨t3, ha3, -⟩ := of_returns hr
  have hg : chain.getHeader (e.hashOf g) g.num = some g := by decide +kernel
  have hs1 : chain.getHeader (e.hashOf h1) h1.num = some h1 := by decide +kernel
  have hs2 : chain.getHeader (e.hashOf h2) h2.num = some h2 := by decide +kernel
  have hl0 : Lineage e g [(g, newSnapshot 0 (e.hashOf g) [1])] := .genesis rfl (by decide +kernel)
  have hl1 := hl0.block ha1 (by simpa using hg)
  have hl2 := hl1.block ha2 (by simpa using ⟨hs1, hg⟩)
  have hl3 := hl2.block ha3 (by simpa using ⟨hs2, hs1, hg⟩)
  have htrig : e.Triggers h2.num t1 := by
    unfold Engine.Triggers
    rw [hcard]
    decide +kernel
  have hn3 : h3.num = 3 := smallHeader_num _ _ _ _ _
  have hplace : 0 < h3.num.toNat % e.config.epoch.toNat := by decide +kernel
  have hpos : 0 < h2.num := by decide +kernel
  refine ⟨_, _, _, hl3, hn3, hvals, ?_⟩
  exact ((validators_evolve e g _ hl3).1 [] _ _ _ rfl).2.2 0 (h2, t2) (h1, t1) hplace rfl rfl hpos htrig

end TurboOctopus.Parlia
