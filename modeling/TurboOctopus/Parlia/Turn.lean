import TurboOctopus.Parlia.Engine
import TurboOctopus.Parlia.Recents
/-!
# Whose turn it is

The turn of a validator is a remainder by the number of validators. The set
comes from the extra-data of an epoch header, and header verification asks only
that its length is a multiple of an address. An epoch header without validators
passes, and empties the set when it takes effect (`empty_epoch_header_accepted`).
Where every epoch header announces someone, every snapshot the engine computes
has validators (`turns_never_by_zero`).
-/
namespace TurboOctopus.Parlia

open Lib TurboOctopus.Types List Ends Engine

variable {e : Engine} {s s' : Snapshot} {chain : ChainReader} {parents : List Header}

/-! ## Turns of a non-empty set -/

/-- What the turn arithmetic needs of a snapshot. -/
structure Snapshot.Manned (s : Snapshot) : Prop where
  nonempty : s.validators.Nonempty
  sized : s.Sized

lemma supposeValidator_ok (hs : s.Manned) : ∃ v, s.supposeValidator = .ok v := by
  have hpos : 0 < s.validatorList.length := by
    rw [length_validatorList]
    exact hs.nonempty.card_pos
  have hlen : s.validatorList.length < 2 ^ 64 := by
    have hsized := hs.sized
    unfold Snapshot.Sized at hsized
    rw [length_validatorList]
    omega
  unfold Snapshot.supposeValidator
  rw [failIf_of_not (by omega)]
  have hlt : ((s.number + 1) % UInt64.ofNat s.validatorList.length).toNat < s.validatorList.length := by
    rw [UInt64.toNat_mod, u64_ofNat hlen]
    exact Nat.mod_lt _ hpos
  rw [ok_bind, List.getElem?_eq_getElem hlt]
  exact ⟨_, rfl⟩

lemma inturn_ok (hs : s.Manned) (v : Address) : ∃ b, s.inturn v = .ok b := by
  obtain ⟨u, hu⟩ := supposeValidator_ok hs
  unfold Snapshot.inturn
  rw [hu]
  exact ⟨_, rfl⟩

lemma indexOfVal_lt {v : Address} {i : Nat} (hi : s.indexOfVal v = some i) : i < s.validators.card := by
  unfold Snapshot.indexOfVal at hi
  obtain ⟨hlt, -⟩ := idxOf?_eq_some_iff.1 hi
  rwa [length_validatorList] at hlt

lemma backOffTime_ok (hs : s.Manned) (v : Address) : ∃ d, e.backOffTime s v = .ok d := by
  obtain ⟨b, hb⟩ := inturn_ok hs v
  unfold backOffTime
  rw [hb]
  cases b with
  | true => exact ⟨0, rfl⟩
  | false =>
    cases hi : s.indexOfVal v with
    | none => exact ⟨0, rfl⟩
    | some i =>
      have hlt := indexOfVal_lt hi
      simp only [ok_bind, Bool.false_eq_true, if_false]
      rw [dif_pos hlt]
      exact ⟨_, rfl⟩

/-! ## Headers at hand -/

/-- Every header the engine can get hold of is one of `hs`. -/
structure Within (hs : List Header) (chain : ChainReader) (parents : List Header) : Prop where
  chain_mem : ∀ b n x, chain.getHeader b n = some x → x ∈ hs ∧ x.num = n
  parents_mem : ∀ p ∈ parents, p ∈ hs

lemma findParent_within {hs : List Header} (hw : Within hs chain parents) {x p : Header}
    (hp : e.findParent chain parents x = some p) : p ∈ hs ∧ p.num = x.num - 1 := by
  unfold findParent at hp
  dsimp only at hp
  split at hp
  · rename_i q hq
    split at hp
    · rename_i hmatch
      cases hp
      exact ⟨hw.parents_mem _ (mem_of_getElem? hq), hmatch.1⟩
    · exact hw.chain_mem _ _ _ hp
  · exact hw.chain_mem _ _ _ hp

/-- The walk from one of `hs` stays in `hs`, and every round goes one down. -/
lemma findAncientHeader_within {hs : List Header} (hw : Within hs chain parents) {k : Nat} {x a : Header}
    (hx : x ∈ hs) (ha : e.findAncientHeader chain parents k x = some a) : a ∈ hs ∧ a.num = x.num - UInt64.ofNat k := by
  induction k generalizing x with
  | zero =>
    cases ha
    exact ⟨hx, (UInt64.sub_zero _).symm⟩
  | succ k ih =>
    unfold findAncientHeader at ha
    split at ha
    · rename_i p hp
      obtain ⟨hmem, hnum⟩ := findParent_within hw hp
      obtain ⟨hain, hanum⟩ := ih hmem ha
      refine ⟨hain, ?_⟩
      rw [hanum, hnum, UInt64.ofNat_add]
      grind
    · cases ha

/-! ## Announcements -/

/-- The header announces at least one validator. -/
def Announces (h : Header) : Prop := ∃ vals, extraValidators h = .ok vals ∧ vals ≠ []

/-- Every epoch header among `hs` announces someone. -/
def Engine.EpochsAnnounce (e : Engine) (hs : List Header) : Prop :=
  ∀ x ∈ hs, x.num % e.config.epoch = 0 → Announces x

lemma sub_mod_epoch (n m : UInt64) : (n - n % m) % m = 0 := by
  have hle : n % m ≤ n := by
    rw [UInt64.le_iff_toNat_le, UInt64.toNat_mod]
    exact Nat.mod_le _ _
  rw [← UInt64.toNat_inj, UInt64.toNat_mod, u64_sub_of_le hle, UInt64.toNat_mod]
  have hdiv : n.toNat - n.toNat % m.toNat = m.toNat * (n.toNat / m.toNat) := by
    have := Nat.div_add_mod n.toNat m.toNat
    omega
  rw [hdiv]
  exact Nat.mul_mod_right _ _

/-- A block leaves someone in force, if the epoch headers announce someone. -/
lemma apply_manned_of_singleton {hs : List Header} {h : Header} (hw : Within hs chain parents)
    (hann : e.EpochsAnnounce hs) (hh : h ∈ hs) (hm : s.Manned) (ha : e.apply s [h] chain parents = .ok s') :
    s'.Manned := by
  obtain ⟨-, -, t, ht, rfl⟩ := apply_singleton.1 ha
  obtain ⟨v, hv⟩ := applyHeader_ok ht
  have hacc : e.Accepted s (h, t.at (s.number + 1) (e.hashOf h)) _ := ⟨rfl, chain, parents, ha⟩
  refine ⟨?_, accepted_sized hm.sized hacc⟩
  show t.validators.Nonempty
  rcases hv.next with ⟨-, hvals, -⟩ | ⟨hsw, c, vals, hc, hex, hvals, -⟩
  · rw [hvals]
    exact hm.nonempty
  · -- the checkpoint of a switch is an epoch header
    obtain ⟨hmem, hnum⟩ := findAncientHeader_within hw hh hc
    rw [← hsw.2] at hnum
    obtain ⟨vals', hex', hne⟩ := hann c hmem (by rw [hnum]; exact sub_mod_epoch _ _)
    obtain rfl : vals' = vals := Except.ok.inj (hex'.symm.trans hex)
    rw [hvals, toFinset_nonempty_iff]
    exact hne

lemma apply_manned {hs headers : List Header} (hw : Within hs chain parents) (hann : e.EpochsAnnounce hs)
    (hh : ∀ h ∈ headers, h ∈ hs) (hm : s.Manned) (ha : e.apply s headers chain parents = .ok s') : s'.Manned := by
  induction headers generalizing s with
  | nil => cases ha; exact hm
  | cons h headers ih =>
    obtain ⟨t, ht, ha⟩ := apply_cons.1 ha
    have hmt := apply_manned_of_singleton hw hann (hh h mem_cons_self) hm ht
    exact ih (fun x hx => hh x (mem_cons_of_mem h hx)) hmt ha

/-! ## Snapshots -/

/-- Every snapshot at hand satisfies `P`. -/
def Caches.All (P : Snapshot → Prop) (c : Caches) : Prop :=
  (∀ b s, c.recentSnaps b = some s → P s) ∧ ∀ b s, c.db b = some s → P s

section All
variable {P : Snapshot → Prop} {c : Caches}

lemma Caches.All.add (hc : c.All P) (hs : P s) : (c.add s).All P := by
  refine ⟨fun b t ht => ?_, hc.2⟩
  rw [add_recentSnaps] at ht
  split at ht
  · exact Option.some.inj ht ▸ hs
  · exact hc.1 b t ht

lemma Caches.All.store (hc : c.All P) (hs : P s) : (c.store s).All P := by
  refine ⟨hc.1, fun b t ht => ?_⟩
  rw [store_db] at ht
  split at ht
  · exact Option.some.inj ht ▸ hs
  · exact hc.2 b t ht

lemma Caches.All.keep (hc : c.All P) (hs : P s) (headers : List Header) : (c.keep s headers).All P := by
  unfold Caches.keep
  split
  · exact (hc.add hs).store hs
  · exact hc.add hs

lemma takeHeader_within {hs : List Header} {number : UInt64} {hash : Hash} (hw : Within hs chain parents) {x : Header}
    {ps : List Header} (ht : e.takeHeader chain number hash parents = .ok (x, ps)) : x ∈ hs ∧ Within hs chain ps := by
  unfold takeHeader at ht
  split at ht
  · rename_i y hy
    obtain ⟨-, ht⟩ := failIf_bind_ok_iff.1 ht
    cases ht
    refine ⟨hw.parents_mem x (mem_of_getLast? hy), hw.chain_mem, fun p hp => ?_⟩
    exact hw.parents_mem p (dropLast_subset parents hp)
  · split at ht
    · rename_i y hy
      cases ht
      exact ⟨(hw.chain_mem _ _ _ hy).1, hw.chain_mem, fun _ hp => absurd hp not_mem_nil⟩
    · cases ht

variable {hs : List Header}

variable (hgen : ∀ g vals, chain.getHeaderByNumber 0 = some g → extraValidators g = .ok vals →
    P (newSnapshot 0 (e.hashOf g) vals))
include hgen

lemma findBase_all {number : UInt64} {hash : Hash} (hc : c.All P) :
    Ends (e.findBase chain number hash c) (fun o c' => c'.All P ∧ ∀ s, o = some s → P s) (Caches.All P) := by
  unfold findBase
  split
  · rename_i s hs
    exact ⟨hc, fun t ht => Option.some.inj ht ▸ hc.1 hash s hs⟩
  · split
    · rename_i s hs
      refine ⟨hc, fun t ht => Option.some.inj ht ▸ hc.2 hash s ?_⟩
      unfold Caches.loadSnapshot at hs
      split at hs
      · exact hs
      · cases hs
    · split
      · rename_i hzero
        subst hzero
        split
        · rename_i g hg
          split
          · rename_i vals hvals
            have hP := hgen g vals hg hvals
            exact ⟨hc.store hP, fun t ht => Option.some.inj ht ▸ hP⟩
          · exact hc
        · exact ⟨hc, nofun⟩
      · exact ⟨hc, nofun⟩

lemma gather_all (hw : Within hs chain parents) (hc : c.All P) (fuel : Nat) (number : UInt64) (hash : Hash) (headers : List Header) (hh : ∀ x ∈ headers, x ∈ hs) :
    Ends (e.gather chain fuel number hash parents headers c)
      (fun r c' => c'.All P ∧ P r.1 ∧ (∀ x ∈ r.2.1, x ∈ hs) ∧ Within hs chain r.2.2) (Caches.All P) := by
  induction fuel generalizing number hash parents headers c with
  | zero => exact hc
  | succ fuel ih =>
    unfold gather
    refine bind (findBase_all hgen hc) ?_
    rintro o c' ⟨hc', hbase⟩
    cases o with
    | some base => exact ⟨hc', hbase base rfl, hh, hw⟩
    | none =>
      refine bind (Q := fun r c'' => c''.All P ∧ r.1 ∈ hs ∧ Within hs chain r.2) ?_ ?_
      · exact lift (fun r hr => ⟨hc', takeHeader_within hw hr⟩) hc'
      · rintro ⟨x, ps⟩ c'' ⟨hc'', hx, hps⟩
        exact ih hps hc'' _ _ _ (forall_mem_cons.2 ⟨hx, hh⟩)

variable (happ : ∀ base headers ps s, P base → (∀ x ∈ headers, x ∈ hs) → Within hs chain ps →
    e.apply base headers chain ps = .ok s → P s)
include happ

/-- What `apply` keeps and the genesis snapshot has, every computed snapshot has. -/
lemma snapshot_all (hw : Within hs chain parents) (hc : c.All P) (number : UInt64) (hash : Hash) :
    Ends (e.snapshot chain number hash parents c) (fun s c' => c'.All P ∧ P s) (Caches.All P) := by
  unfold snapshot
  refine bind (gather_all hgen hw hc _ _ _ _ fun _ hx => absurd hx not_mem_nil) ?_
  rintro ⟨base, headers, ps⟩ c1 ⟨hc1, hbase, hheaders, hps⟩
  refine bind (Q := fun s c' => c'.All P ∧ P s) ?_ ?_
  · exact lift (fun s hs => ⟨hc1, happ base headers ps s hbase hheaders hps hs⟩) hc1
  · rintro s c2 ⟨hc2, hs⟩
    exact ⟨hc2.keep hs headers, hs⟩

lemma verifyHeader_all (hw : Within hs chain parents) (hc : c.All P) (now : UInt64) (h : Header) :
    Ends (e.verifyHeader chain now h parents c) (fun _ c' => c'.All P) (Caches.All P) := by
  have hlift : ∀ {α : Type} (x : Except Err α) c, c.All P → Ends (lift x c) (fun _ c' => c'.All P) (Caches.All P) :=
    fun x c hc => lift (fun _ _ => hc) hc
  have hsnap : ∀ c : Caches, c.All P → Ends (e.snapshot chain (h.num - 1) h.parentHash parents c)
      (fun s c' => c'.All P ∧ P s) (Caches.All P) := fun c hc => snapshot_all hgen happ hw hc _ _
  unfold verifyHeader
  refine bind (hlift _ c hc) fun _ c1 hc1 => ?_
  unfold verifyCascadingFields
  split
  · exact hc1
  refine bind (hlift _ c1 hc1) fun parent c2 hc2 => ?_
  refine bind (hsnap c2 hc2) fun snap c3 hc3 => ?_
  refine bind (hlift _ c3 hc3.1) fun _ c4 hc4 => ?_
  refine bind (hlift _ c4 hc4) fun _ c5 hc5 => ?_
  unfold verifySeal
  refine bind (hlift _ c5 hc5) fun _ c6 hc6 => ?_
  refine bind (hsnap c6 hc6) fun snap c7 hc7 => ?_
  exact hlift _ c7 hc7.1

end All

/-! ## Verified chains -/

/-- The node has genesis `g`, and no header that is not one of `hs`. -/
structure AtHand (g : Header) (hs : List Header) (chain : ChainReader) (parents : List Header) : Prop
    extends Within hs chain parents where
  genesis : chain.getHeaderByNumber 0 = some g

/-- Headers accepted one after another above the genesis `g`, and snapshots the
node has at hand by then: those its calls have left, without what the caches
have lost. -/
inductive Verified (e : Engine) (g : Header) : List Header → Caches → Prop
  | genesis : g.num = 0 → Verified e g [g] Caches.empty
  | accept {hs chain parents now h c c'} : Verified e g hs c → AtHand g hs chain parents →
      e.verifyHeader chain now h parents c = .ok () c' → Verified e g (h :: hs) c'
  | reject {hs chain parents now h c c' err} : Verified e g hs c → AtHand g hs chain parents →
      e.verifyHeader chain now h parents c = .error err c' → Verified e g hs c'
  | query {hs chain parents number hash c} : Verified e g hs c → AtHand g hs chain parents →
      Verified e g hs (stateOf (e.snapshot chain number hash parents c))
  | lose {hs} {c c' : Caches} : Verified e g hs c →
      (∀ b s, c'.recentSnaps b = some s → c.recentSnaps b = some s) →
      (∀ b s, c'.db b = some s → c.db b = some s) → Verified e g hs c'

variable {g : Header}

lemma Verified.genesis_mem {hs : List Header} {c : Caches} (hv : Verified e g hs c) : g ∈ hs ∧ g.num = 0 := by
  induction hv with
  | genesis hg => exact ⟨mem_singleton_self g, hg⟩
  | accept _ _ _ ih => exact ⟨mem_cons_of_mem _ ih.1, ih.2⟩
  | reject _ _ _ ih => exact ih
  | query _ _ ih => exact ih
  | lose _ _ _ ih => exact ih

lemma genesis_manned {hs : List Header} (hann : e.EpochsAnnounce hs) (hg : g ∈ hs) (hnum : g.num = 0)
    {vals : List Address} (hvals : extraValidators g = .ok vals) : (newSnapshot 0 (e.hashOf g) vals).Manned := by
  obtain ⟨vals', hex, hne⟩ := hann g hg (by rw [hnum]; exact UInt64.zero_mod)
  obtain rfl : vals' = vals := Except.ok.inj (hex.symm.trans hvals)
  exact ⟨(toFinset_nonempty_iff _).2 hne, newSnapshot_sized _ _ (length_extraValidators hvals)⟩

lemma AtHand.genesis_manned {hs : List Header} (hat : AtHand g hs chain parents)
    (hann : e.EpochsAnnounce hs) (hg : g ∈ hs ∧ g.num = 0) : ∀ g' vals, chain.getHeaderByNumber 0 = some g' →
      extraValidators g' = .ok vals → (newSnapshot 0 (e.hashOf g') vals).Manned := by
  intro g' vals hg' hvals
  obtain rfl : g = g' := Option.some.inj (hat.genesis.symm.trans hg')
  exact Parlia.genesis_manned hann hg.1 hg.2 hvals

lemma Verified.manned {hs : List Header} {c : Caches} (hv : Verified e g hs c)
    (hann : e.EpochsAnnounce hs) : c.All Snapshot.Manned := by
  induction hv with
  | genesis _ => exact ⟨nofun, nofun⟩
  | @accept hs chain parents now h c c' hv hat hver ih =>
    have hann' : e.EpochsAnnounce hs := fun x hx => hann x (mem_cons_of_mem h hx)
    have := verifyHeader_all (hat.genesis_manned hann' hv.genesis_mem)
      (fun base headers ps s hb hh hw ha => apply_manned hw hann' hh hb ha) hat.toWithin (ih hann') now h
    rw [hver] at this
    exact this
  | @reject hs chain parents now h c c' err hv hat hver ih =>
    have := verifyHeader_all (hat.genesis_manned hann hv.genesis_mem)
      (fun base headers ps s hb hh hw ha => apply_manned hw hann hh hb ha) hat.toWithin (ih hann) now h
    rw [hver] at this
    exact this
  | query hv hat ih =>
    exact (snapshot_all (hat.genesis_manned hann hv.genesis_mem)
      (fun base headers ps s hb hh hw ha => apply_manned hw hann hh hb ha) hat.toWithin (ih hann) _ _).stateOf fun _ _ h => h.1
  | lose _ hr hd ih => exact ⟨fun b s h => (ih hann).1 b s (hr b s h), fun b s h => (ih hann).2 b s (hd b s h)⟩

/-- If every epoch header accepted so far announces someone, then every
snapshot the engine computes has validators, and no turn is a remainder by
zero. -/
theorem turns_never_by_zero (e : Engine) (g : Header) (hs : List Header) (c : Caches) (hv : Verified e g hs c)
    (hann : e.EpochsAnnounce hs) (chain : ChainReader) (parents : List Header) (hat : AtHand g hs chain parents)
    (number : UInt64) (hash : Hash) (s : Snapshot) (c' : Caches)
    (hsnap : e.snapshot chain number hash parents c = .ok s c') :
    s.validators.Nonempty ∧ (∀ v, ∃ b, s.inturn v = .ok b) ∧ (∃ v, s.supposeValidator = .ok v) ∧
      ∀ v, ∃ d, e.backOffTime s v = .ok d := by
  have hall := snapshot_all (hat.genesis_manned hann hv.genesis_mem)
    (fun base headers ps s hb hh hw ha => apply_manned hw hann hh hb ha) hat.toWithin (hv.manned hann) number hash
  rw [hsnap] at hall
  have hm : s.Manned := hall.2
  exact ⟨hm.nonempty, inturn_ok hm, supposeValidator_ok hm, backOffTime_ok hm⟩

/-! ## A chain of two blocks -/

lemma chainOf_atHand {config : Params.ChainConfig} {C : Crypto} {hg : g.num = 0} (hs : List Header)
    (hpos : ∀ x ∈ hs, x.num ≠ 0) : AtHand g (hs ++ [g]) (chainOf config C g hg hs) [] where
  chain_mem b n x hx := by
    have hmem := mem_of_find?_eq_some hx
    have hnum := find?_some hx
    simp only [Bool.and_eq_true, decide_eq_true_eq] at hnum
    exact ⟨hmem, hnum.2⟩
  parents_mem p hp := absurd hp not_mem_nil
  genesis := by
    have hnone : hs.find? (fun x => decide (x.num = 0)) = none := by
      rw [find?_eq_none]
      intro x hx
      simpa using hpos x hx
    show (hs ++ [g]).find? _ = some g
    rw [find?_append, hnone]
    simp [hg]

/-- An engine with epochs of two blocks, past the Ramanujan fork. -/
def shortEpochs : Engine :=
  { smallEngine 2 epoch_two 1 with chainConfig := { Params.noForks 1 with ramanujanBlock := some 0 } }

def shortGenesis : Header := smallHeader 0 0 0 [1] few_one
def shortFirst : Header := smallHeader (shortEpochs.hashOf shortGenesis) 1 1 [] few_none

/-- Epoch block 2, which announces somebody or nobody. -/
def shortEpoch : Header := smallHeader (shortEpochs.hashOf shortFirst) 2 1 [1] few_one
def shortSecond : Header := smallHeader (shortEpochs.hashOf shortFirst) 2 1 [] few_none
def shortThird : Header := smallHeader (shortEpochs.hashOf shortSecond) 3 1 [] few_none

def shortChain (hs : List Header) : ChainReader := chainOf (Params.noForks 1) smallCrypto shortGenesis rfl hs

lemma shortChain_atHand (hs : List Header) (hpos : ∀ x ∈ hs, x.num ≠ 0) :
    AtHand shortGenesis (hs ++ [shortGenesis]) (shortChain hs) [] := chainOf_atHand hs hpos

/-- The caches after block 1 and a block 2. -/
def shortCaches (x : Header) : Caches :=
  stateOf (shortEpochs.verifyHeader (shortChain [shortFirst]) 100 x []
    (stateOf (shortEpochs.verifyHeader (shortChain []) 100 shortFirst [] Caches.empty)))

lemma short_verified {x : Header} (hx : resultOf (shortEpochs.verifyHeader (shortChain [shortFirst]) 100 x []
      (stateOf (shortEpochs.verifyHeader (shortChain []) 100 shortFirst [] Caches.empty))) = .ok ()) :
    Verified shortEpochs shortGenesis [x, shortFirst, shortGenesis] (shortCaches x) := by
  have hfirst : resultOf (shortEpochs.verifyHeader (shortChain []) 100 shortFirst [] Caches.empty) = .ok () := by
    decide +kernel
  refine .accept (.accept (.genesis rfl) (shortChain_atHand [] fun _ hx => absurd hx not_mem_nil)
    (of_resultOf_ok hfirst)) ?_ (of_resultOf_ok hx)
  exact shortChain_atHand [shortFirst] (by simp [shortFirst])

theorem turns_of_epoch_block :
    ∃ s c', shortEpochs.snapshot (shortChain [shortEpoch, shortFirst]) 2 (shortEpochs.hashOf shortEpoch) []
        (shortCaches shortEpoch) = .ok s c' ∧ s.validators.Nonempty := by
  have hrun : returns (resultOf (shortEpochs.snapshot (shortChain [shortEpoch, shortFirst]) 2
      (shortEpochs.hashOf shortEpoch) [] (shortCaches shortEpoch))) (fun _ => true) = true := by
    decide +kernel
  obtain ⟨s, hs, -⟩ := of_returns hrun
  have hann : shortEpochs.EpochsAnnounce [shortEpoch, shortFirst, shortGenesis] := by
    refine forall_mem_cons.2 ⟨fun _ => ⟨[1], by decide +kernel, by decide⟩, forall_mem_cons.2 ⟨fun hzero => ?_, ?_⟩⟩
    · exact absurd hzero (by decide +kernel)
    · exact forall_mem_singleton.2 fun _ => ⟨[1], by decide +kernel, by decide⟩
  have hat := shortChain_atHand [shortEpoch, shortFirst] (by simp [shortFirst, shortEpoch])
  exact ⟨s, _, of_resultOf_ok hs, (turns_never_by_zero _ _ _ _ (short_verified (by decide +kernel)) hann _ _ hat _ _ _ _
    (of_resultOf_ok hs)).1⟩

/-- The genesis announces a validator, and both blocks above it are accepted. The
snapshot after them has no validators, and verifying the next header divides by
zero. -/
theorem empty_epoch_header_accepted :
    ∃ c s c', Announces shortGenesis ∧ Verified shortEpochs shortGenesis [shortSecond, shortFirst, shortGenesis] c ∧
      AtHand shortGenesis [shortSecond, shortFirst, shortGenesis] (shortChain [shortSecond, shortFirst]) [] ∧
      shortEpochs.snapshot (shortChain [shortSecond, shortFirst]) 2 (shortEpochs.hashOf shortSecond) [] c = .ok s c' ∧
      s.validators = ∅ ∧ (∀ v, s.inturn v = .error .panic) ∧
      resultOf (shortEpochs.verifyHeader (shortChain [shortSecond, shortFirst]) 100 shortThird [] c) =
        .error .panic := by
  have hrun : returns (resultOf (shortEpochs.snapshot (shortChain [shortSecond, shortFirst]) 2
      (shortEpochs.hashOf shortSecond) [] (shortCaches shortSecond))) (fun s => decide (s.validators = ∅)) = true := by
    decide +kernel
  obtain ⟨s, hs, hempty⟩ := of_returns hrun
  have hempty := of_decide_eq_true hempty
  refine ⟨shortCaches shortSecond, s, _, ⟨[1], by decide +kernel, by decide⟩, short_verified (by decide +kernel),
    shortChain_atHand [shortSecond, shortFirst] (by simp [shortFirst, shortSecond]), of_resultOf_ok hs, hempty,
    fun v => ?_, by decide +kernel⟩
  unfold Snapshot.inturn Snapshot.supposeValidator
  rw [failIf_of (by rw [length_validatorList, hempty]; rfl)]
  rfl

end TurboOctopus.Parlia
