import TurboOctopus.Parlia.Cache
import TurboOctopus.Parlia.Signers
/-!
# What a validator prepares, every node accepts

`Prepare` and `Seal` compute the extra-data, difficulty, time and gas limit of a
header, and `verifyHeader` derives each of them again. `prepare_ok` and
`seal_ok` say what a produced header looks like; the sections after them go
through the checks of `verifyHeader` in the order it makes them. Two things can
still turn an honest header down: a fork hash pinned to its number, and a clock
that went back while `Prepare` read it twice (`produced_header_accepted`).
-/
namespace TurboOctopus.Parlia

open Lib TurboOctopus.Types Params List UInt64

/-! ## Gas limits -/

lemma toInt64_neg_iff (x : UInt64) : x.toInt64 < 0 ↔ 2 ^ 63 ≤ x.toNat := by
  rw [Int64.lt_iff_toInt_lt, ← Int64.toInt_toBitVec, UInt64.toBitVec_toInt64, BitVec.toInt_eq_toNat_cond]
  have := x.toNat_lt
  simp only [Int64.toInt_zero, UInt64.toNat_toBitVec]
  split <;> omega

lemma toInt64_mul_neg_one (x : UInt64) : (x.toInt64 * (-1)).toUInt64 = 0 - x := by
  have hmul : (x.toInt64 * (-1)).toUInt64 = x * (-1) := by
    rw [← UInt64.toBitVec_inj]
    simp
  rw [hmul]
  grind

/-- Within the capacity the signed arithmetic gives the distance. -/
lemma gasLimitDiff_toNat {a b : UInt64} (ha : a.toNat < 2 ^ 63) (hb : b.toNat < 2 ^ 63) :
    (gasLimitDiff a b).toNat = (a.toNat - b.toNat) + (b.toNat - a.toNat) := by
  have hsub : a.toInt64 - b.toInt64 = (a - b).toInt64 := by simp
  unfold gasLimitDiff
  dsimp only
  rw [hsub]
  by_cases hle : b ≤ a
  · have hab := le_iff_toNat_le.1 hle
    have hnn : ¬ (a - b).toInt64 < 0 := by
      rw [toInt64_neg_iff, u64_sub_of_le hle]
      omega
    rw [if_neg hnn, UInt64.toUInt64_toInt64, u64_sub_of_le hle]
    omega
  · have hlt : a < b := UInt64.not_le.1 hle
    have hab := lt_iff_toNat_lt.1 hlt
    have hwrap := u64_sub_of_lt hlt
    have hneg : (a - b).toInt64 < 0 := by
      rw [toInt64_neg_iff, hwrap]
      omega
    rw [if_pos hneg, toInt64_mul_neg_one, u64_sub_of_lt, hwrap]
    · simp only [UInt64.toNat_zero]
      omega
    · rw [lt_iff_toNat_lt, hwrap]
      simp only [UInt64.toNat_zero]
      omega

variable {c c' : Caches} {chain : ChainReader} {config : ChainConfig} {d : Nat} {desired now now' t : UInt64}
  {e : Engine} {extra sig : List UInt8} {h h' parent : Header} {s : Snapshot} {v : Address}

/-- `CalcGasLimit` moves by less than the allowed step, and stays in range. -/
lemma calcGasLimit_toNat {parent : UInt64} (hmin : 5000 ≤ parent.toNat) (hcap : parent.toNat < 2 ^ 63)
    (hdes : desired.toNat < 2 ^ 63) :
    (calcGasLimit parent desired).toNat < 2 ^ 63 ∧ 5000 ≤ (calcGasLimit parent desired).toNat ∧
      parent.toNat < (calcGasLimit parent desired).toNat + parent.toNat / 256 ∧
      (calcGasLimit parent desired).toNat < parent.toNat + parent.toNat / 256 := by
  have hdiv : (parent / gasLimitBoundDivisor).toNat = parent.toNat / 256 := UInt64.toNat_div _ _
  have hone : (1 : UInt64) ≤ parent / gasLimitBoundDivisor := by
    rw [le_iff_toNat_le, hdiv, UInt64.toNat_one]
    omega
  have hdelta : (parent / gasLimitBoundDivisor - 1).toNat = parent.toNat / 256 - 1 := by
    rw [u64_sub_of_le hone, hdiv, UInt64.toNat_one]
  have hup : (parent + (parent / gasLimitBoundDivisor - 1)).toNat = parent.toNat + (parent.toNat / 256 - 1) := by
    rw [UInt64.toNat_add, hdelta]
    exact Nat.mod_eq_of_lt (by omega)
  have hdown : (parent - (parent / gasLimitBoundDivisor - 1)).toNat = parent.toNat - (parent.toNat / 256 - 1) := by
    rw [u64_sub_of_le, hdelta]
    rw [le_iff_toNat_le, hdelta]
    omega
  have hm : minGasLimit.toNat = 5000 := rfl
  unfold calcGasLimit
  simp only [lt_iff_toNat_lt, hup, hdown, hm]
  -- the desired limit, lifted to the minimum
  generalize hD : (if desired.toNat < 5000 then minGasLimit else desired) = D
  have hD1 : 5000 ≤ D.toNat ∧ D.toNat < 2 ^ 63 := by
    rw [← hD]
    split
    · rw [hm]; omega
    · omega
  split
  · split <;> omega
  · split
    · split <;> omega
    · omega

lemma verifyGas_ok {header : Header} (hmin : minGasLimit ≤ parent.gasLimit) (hcap : parent.gasLimit.toNat < 2 ^ 63)
    (hdes : desired.toNat < 2 ^ 63) (hlimit : header.gasLimit = calcGasLimit parent.gasLimit desired)
    (hused : header.gasUsed ≤ header.gasLimit) : verifyGas header parent = .ok () := by
  have hmin' : 5000 ≤ parent.gasLimit.toNat := le_iff_toNat_le.1 hmin
  obtain ⟨hc, hm, hlow, hhigh⟩ := calcGasLimit_toNat hmin' hcap hdes
  rw [← hlimit] at hc hm hlow hhigh
  have hdiv : (parent.gasLimit / gasLimitBoundDivisor).toNat = parent.gasLimit.toNat / 256 := UInt64.toNat_div _ _
  unfold verifyGas
  refine failIf_bind_ok_iff.2 ⟨?_, failIf_bind_ok_iff.2 ⟨UInt64.not_lt.2 hused, failIf_ok_iff.2 ?_⟩⟩
  · rw [lt_iff_toNat_lt]
    exact Nat.not_lt.2 (Nat.le_of_lt_succ hc)
  · rw [le_iff_toNat_le, lt_iff_toNat_lt, gasLimitDiff_toNat hcap hc, hdiv]
    have hm5 : minGasLimit.toNat = 5000 := rfl
    omega

/-! ## Nodes of one chain -/

/-- The cache of signatures holds only what recovery gives. -/
def Engine.SoundSignatures (e : Engine) : Prop :=
  ∀ h a, e.signatures (e.hashOf h) = some a → e.recoverSigner h = .ok a

open Engine

lemma ecrecover_of_sound (hs : e.SoundSignatures) (h : Header) : e.ecrecover h = e.recoverSigner h := by
  unfold ecrecover
  split
  · rename_i a ha
    exact (hs h a ha).symm
  · rfl

/-- Two engines that run the same chain. -/
structure Engine.SameRules (e e' : Engine) : Prop where
  crypto : e'.crypto = e.crypto
  chainConfig : e'.chainConfig = e.chainConfig
  config : e'.config = e.config
  shuffle : e'.shuffle = e.shuffle
  sound : e.SoundSignatures
  sound' : e'.SoundSignatures

section SameRules
variable {e e' : Engine} (hr : e.SameRules e')
include hr

namespace Engine

lemma SameRules.hashOf (h : Header) : e'.hashOf h = e.hashOf h := by
  unfold Engine.hashOf
  rw [hr.crypto]

lemma SameRules.recoverSigner (h : Header) : e'.recoverSigner h = e.recoverSigner h := by
  unfold Engine.recoverSigner Engine.sealHash Engine.parliaRLP
  rw [hr.crypto, hr.chainConfig]

lemma SameRules.ecrecover (h : Header) : e'.ecrecover h = e.ecrecover h := by
  rw [ecrecover_of_sound hr.sound, ecrecover_of_sound hr.sound', hr.recoverSigner]

lemma SameRules.changeValidators (find : Nat → Header → Option Header) (s : Snapshot) (h : Header) :
    e'.changeValidators find s h = e.changeValidators find s h := by
  have hiff : e'.Switches s h.num ↔ e.Switches s h.num := by
    unfold Engine.Switches
    rw [hr.config]
  unfold Engine.changeValidators
  by_cases hsw : e.Switches s h.num
  · rw [if_pos hsw, if_pos (hiff.2 hsw)]
  · rw [if_neg hsw, if_neg (mt hiff.1 hsw)]

lemma SameRules.applyOne (find : Nat → Header → Option Header) (s : Snapshot) (h : Header) :
    e'.applyOne find s h = e.applyOne find s h := by
  unfold Engine.applyOne Engine.applyHeader
  simp only [hr.ecrecover, hr.hashOf, hr.changeValidators]

lemma SameRules.refSnapshot (path : List Header) : e'.refSnapshot path = e.refSnapshot path := by
  match path with
  | [] => rfl
  | [g] =>
    unfold Engine.refSnapshot
    rw [hr.hashOf]
  | h :: p :: path =>
    unfold Engine.refSnapshot
    rw [Engine.SameRules.refSnapshot (p :: path)]
    simp only [hr.applyOne]

lemma SameRules.backOffTime (s : Snapshot) (v : Address) : e'.backOffTime s v = e.backOffTime s v := by
  unfold Engine.backOffTime
  rw [hr.shuffle]

end Engine

end SameRules

/-- The node stores a path and holds correct snapshots of it. -/
structure Follows (e : Engine) (chain : ChainReader) (path : List Header) (c : Caches) : Prop where
  stored : BatchOver e chain [] path
  correct : c.Correct e path

section Follows
variable {e : Engine} {chain : ChainReader} {parent : Header} {rest : List Header} {c c' : Caches} {s : Snapshot}

/-- Such a node computes the snapshot of the path, and nothing else. -/
lemma Follows.snapshot_iff (hf : Follows e chain (parent :: rest) c) :
    resultOf (e.snapshot chain parent.num (e.hashOf parent) [] c) = .ok s ↔ e.refSnapshot (parent :: rest) = .ok s := by
  refine (snapshot_batch_iff hf.stored hf.correct rfl).trans (and_iff_left ?_)
  rintro ⟨post, x, y, pre, t, -, hy, -⟩
  exact absurd hy not_mem_nil

lemma Follows.ref_of_snapshot (hf : Follows e chain (parent :: rest) c)
    (hs : e.snapshot chain parent.num (e.hashOf parent) [] c = .ok s c') : e.refSnapshot (parent :: rest) = .ok s := by
  refine hf.snapshot_iff.1 ?_
  rw [hs]
  rfl

/-- The snapshot a call returns stays in memory. -/
lemma recentSnaps_of_snapshot {number : UInt64} {hash : Hash} {parents : List Header}
    (hs : e.snapshot chain number hash parents c = .ok s c') : c'.recentSnaps s.hash = some s := by
  unfold snapshot at hs
  obtain ⟨⟨base, headers, ps⟩, c1, -, hs⟩ := bind_run_ok hs
  obtain ⟨t, c2, -, hs⟩ := bind_run_ok hs
  cases hs
  unfold Caches.keep
  split
  · exact (add_recentSnaps c2 s s.hash).trans (if_pos rfl)
  · exact (add_recentSnaps c2 s s.hash).trans (if_pos rfl)

/-- Asked twice for the snapshot of its head, the node answers twice. -/
lemma Follows.snapshot_twice (hf : Follows e chain (parent :: rest) c)
    (href : e.refSnapshot (parent :: rest) = .ok s) : ∃ c1 c2, e.snapshot chain parent.num (e.hashOf parent) [] c =
      .ok s c1 ∧ e.snapshot chain parent.num (e.hashOf parent) [] c1 = .ok s c2 := by
  have h1 := of_resultOf_ok (hf.snapshot_iff.2 href)
  obtain ⟨-, -, hhash⟩ := refSnapshot_spec hf.stored.path href
  have hrec := recentSnaps_of_snapshot h1
  rw [hhash] at hrec
  exact ⟨_, _, h1, snapshot_of_recent _ _ _ _ hrec⟩

end Follows

/-! ## Produced headers -/

lemma withExtra_ok (hw : Header.withExtra h extra = .ok h') :
    ∃ hl, h' = { h with extra := extra, extra_len := hl } := by
  unfold Header.withExtra at hw
  split at hw
  · rename_i hl
    cases hw
    exact ⟨hl, rfl⟩
  · cases hw

lemma storedParent_ok (hp : chain.storedParent h = .ok parent) :
    chain.getHeader h.parentHash (h.num - 1) = some parent := by
  unfold ChainReader.storedParent at hp
  split at hp
  · rename_i p hget
    cases hp
    exact hget
  · cases hp

lemma length_vanity (extra : List UInt8) : (vanity extra).length = extraVanity - nextForkHashSize := by
  unfold vanity
  rw [length_take, length_append, length_replicate]
  omega

lemma length_addresses (vals : List Address) :
    (vals.flatMap Address.bytes).length = vals.length * validatorBytesLength := by
  simp [length_flatMap, Address.bytes, validatorBytesLength]

lemma epochValidators_nil {vals : List Address} (hn : h.num % e.config.epoch ≠ 0)
    (hv : e.epochValidators h = .ok vals) : vals = [] := by
  unfold epochValidators at hv
  rw [if_neg hn] at hv
  cases hv
  rfl

/-- What `Prepare` leaves of the header it was given. -/
structure Prepared (e : Engine) (now now' : UInt64) (s : Snapshot) (parent h₀ h : Header) : Prop where
  parentHash : h.parentHash = h₀.parentHash
  number : h.number = h₀.number
  coinbase : h.coinbase = e.val
  mixDigest : h.mixDigest = 0
  difficulty : ∃ d, Engine.calcDifficulty s e.val = .ok d ∧ h.difficulty = some d
  extra : ∃ k, h.extra.length = extraVanity + k * validatorBytesLength + extraSeal ∧
    (h.num % e.config.epoch ≠ 0 → k = 0)
  announced : ∃ vals, e.epochValidators h = .ok vals ∧
    (h.extra.drop extraVanity).take (h.extra.length - extraVanity - extraSeal) = vals.flatMap Address.bytes
  time : ∃ t, e.blockTimeForRamanujanFork s h parent = .ok t ∧ h.time = if t < now then now' else t

lemma prepare_ok {h₀ : Header} (hp : e.prepare chain now now' h₀ c = .ok h c') :
    ∃ s parent c1, e.snapshot chain (h₀.num - 1) h₀.parentHash [] c = .ok s c1 ∧
      chain.getHeader h₀.parentHash (h₀.num - 1) = some parent ∧ Prepared e now now' s parent h₀ h := by
  unfold prepare at hp
  obtain ⟨s, c1, hs, hp⟩ := bind_run_ok hp
  obtain ⟨d, c2, hd, hp⟩ := bind_run_ok hp
  obtain ⟨vals, c3, hv, hp⟩ := bind_run_ok hp
  obtain ⟨h1, c4, hx, hp⟩ := bind_run_ok hp
  obtain ⟨hl, rfl⟩ := withExtra_ok (lift_run_ok hx).1
  obtain ⟨parent, c5, hpar, hp⟩ := bind_run_ok hp
  obtain ⟨t, c6, ht, hp⟩ := bind_run_ok hp
  have hvals := (lift_run_ok hv).1
  cases hp
  have hfront : (vanity h₀.extra ++ ForkId.nextForkHash e.chainConfig e.genesisHash h₀.num).length = extraVanity := by
    rw [length_append, length_vanity, ForkId.length_nextForkHash]
    rfl
  refine ⟨s, parent, c1, hs, storedParent_ok (lift_run_ok hpar).1, rfl, rfl, rfl, rfl, ⟨d, (lift_run_ok hd).1, rfl⟩,
    ⟨vals.length, ?_, ?_⟩, ⟨vals, hvals, ?_⟩, t, (lift_run_ok ht).1, rfl⟩
  · rw [length_append, length_append, hfront, length_addresses, length_replicate]
  · intro hne
    rw [epochValidators_nil hne hvals]
    rfl
  · dsimp only
    rw [length_append, length_append, hfront, length_replicate, append_assoc, drop_left' hfront]
    exact take_left' (by omega)

/-- What is filled in between `Prepare` and `Seal`. The transaction, state and
receipt roots and the bloom are whatever the block's execution gave. -/
structure Completed (e : Engine) (parent : Header) (desired : UInt64) (h h' : Header) : Prop where
  parentHash : h'.parentHash = h.parentHash
  number : h'.number = h.number
  coinbase : h'.coinbase = h.coinbase
  mixDigest : h'.mixDigest = h.mixDigest
  difficulty : h'.difficulty = h.difficulty
  extra : h'.extra = h.extra
  time : h'.time = h.time
  uncleHash : h'.uncleHash = calcUncleHash e.crypto []
  gasLimit : h'.gasLimit = calcGasLimit parent.gasLimit desired
  gasUsed : h'.gasUsed ≤ h'.gasLimit

/-! ## The seal -/

lemma length_copySeal (hx : extraSeal ≤ extra.length) (hs : sig.length = extraSeal) :
    (copySeal extra sig).length = extra.length := by
  unfold copySeal
  simp only [length_append, length_take, length_drop, hs]
  omega

lemma take_copySeal (hx : extraSeal ≤ extra.length) :
    (copySeal extra sig).take (extra.length - extraSeal) = extra.take (extra.length - extraSeal) := by
  unfold copySeal
  rw [append_assoc, take_append_of_le_length (by rw [length_take]; omega), take_take, Nat.min_self]

lemma drop_copySeal (hx : extraSeal ≤ extra.length) (hs : sig.length = extraSeal) :
    (copySeal extra sig).drop (extra.length - extraSeal) = sig := by
  unfold copySeal
  have hlen : (extra.take (extra.length - extraSeal)).length = extra.length - extraSeal := by
    rw [length_take]
    omega
  rw [append_assoc, drop_left' hlen, ← hs, take_length, drop_drop, drop_eq_nil_of_le, append_nil]
  omega

/-- A signature made by the account is recovered as the account's. -/
def Engine.SignsAs (e : Engine) : Prop :=
  ∀ data sig, e.signFn e.val data = .ok sig → sig.length = extraSeal ∧
    ∃ pubkey, e.crypto.ecrecover (e.crypto.keccak256 data) sig = some pubkey ∧
      e.crypto.pubkeyToAddress pubkey = e.val

/-- The signature covers everything but itself, so sealing does not disturb it. -/
lemma recoverSigner_of_sealed {hl} (hsigns : e.SignsAs)
    (hsig : e.signFn e.val (e.parliaRLP h) = .ok sig) (hx : extraSeal ≤ h.extra.length) :
    e.recoverSigner { h with extra := copySeal h.extra sig, extra_len := hl } = .ok e.val := by
  obtain ⟨hlen, pubkey, hrec, haddr⟩ := hsigns _ _ hsig
  have hxl : (copySeal h.extra sig).length = h.extra.length := length_copySeal hx hlen
  have hrlp : e.parliaRLP { h with extra := copySeal h.extra sig, extra_len := hl } = e.parliaRLP h := by
    unfold parliaRLP sigItem
    rw [hxl, take_copySeal hx]
  unfold recoverSigner sealHash
  rw [hrlp]
  rw [hxl, drop_copySeal hx hlen, hrec, failIf_of_not (by omega)]
  dsimp only [ok_bind]
  rw [haddr]

/-- What `Seal` leaves of the header it was given. -/
structure Sealed (e : Engine) (h h' : Header) : Prop where
  parentHash : h'.parentHash = h.parentHash
  number : h'.number = h.number
  coinbase : h'.coinbase = h.coinbase
  mixDigest : h'.mixDigest = h.mixDigest
  difficulty : h'.difficulty = h.difficulty
  time : h'.time = h.time
  uncleHash : h'.uncleHash = h.uncleHash
  gasLimit : h'.gasLimit = h.gasLimit
  gasUsed : h'.gasUsed = h.gasUsed
  extra : h'.extra.length = h.extra.length
  signer : e.recoverSigner h' = .ok e.val

lemma seal_ok {txs : Nat} (hsigns : e.SignsAs) (hs : e.seal chain h txs c = .ok (some h') c') :
    ∃ s c1, e.snapshot chain (h.num - 1) h.parentHash [] c = .ok s c1 ∧ h.num ≠ 0 ∧ e.val ∈ s.validators ∧
      ¬ s.RecentlySigned e.val h.num ∧ Sealed e h h' := by
  unfold Engine.seal at hs
  obtain ⟨_, c1, hn, hs1⟩ := bind_run_ok hs
  obtain ⟨hnum, rfl⟩ := lift_run_ok hn
  split at hs1
  · cases hs1
  obtain ⟨s, c2, hsnap, hs2⟩ := bind_run_ok hs1
  obtain ⟨_, c3, hm, hs3⟩ := bind_run_ok hs2
  split at hs3
  · cases hs3
  rename_i hrec
  obtain ⟨sig, c4, hsig, hs4⟩ := bind_run_ok hs3
  obtain ⟨_, c5, hlen, hs5⟩ := bind_run_ok hs4
  obtain ⟨h1, c6, hx, hs6⟩ := bind_run_ok hs5
  obtain ⟨hl, rfl⟩ := withExtra_ok (lift_run_ok hx).1
  have hsig := (lift_run_ok hsig).1
  have hlen := Nat.not_lt.1 (failIf_ok_iff.1 (lift_run_ok hlen).1)
  obtain ⟨hsiglen, -⟩ := hsigns _ _ hsig
  cases hs6
  exact ⟨s, c2, hsnap, failIf_ok_iff.1 hnum, not_not.1 (failIf_ok_iff.1 (lift_run_ok hm).1), hrec,
    rfl, rfl, rfl, rfl, rfl, rfl, rfl, rfl, rfl, length_copySeal hlen hsiglen,
    recoverSigner_of_sealed hsigns hsig hlen⟩

/-! ## The checks of `verifyHeader` -/

/-- A fork hash is pinned to the header's number, and it is another one. -/
def Engine.PinnedAway (e : Engine) (config : ChainConfig) (h : Header) : Prop :=
  config.eip150Block.isSome ∧ config.eip150Block = h.number ∧ config.eip150Hash ≠ 0 ∧ config.eip150Hash ≠ e.hashOf h

instance (e : Engine) (config : ChainConfig) (h : Header) : Decidable (e.PinnedAway config h) :=
  inferInstanceAs (Decidable (_ ∧ _))

lemma verifyStandalone_ok {k : Nat} (hnum : h.number ≠ none) (htime : h.time ≤ now)
    (hextra : h.extra.length = extraVanity + k * validatorBytesLength + extraSeal)
    (hk : h.num % e.config.epoch ≠ 0 → k = 0) (hmix : h.mixDigest = 0)
    (huncle : h.uncleHash = calcUncleHash e.crypto []) (hdiff : h.difficulty ≠ none) (hpin : ¬ e.PinnedAway config h) :
    e.verifyStandalone config now h = .ok () := by
  have hsigners : h.extra.length - extraVanity - extraSeal = k * validatorBytesLength := by omega
  unfold verifyStandalone
  rw [hsigners]
  refine failIf_bind_ok_iff.2 ⟨hnum, failIf_bind_ok_iff.2 ⟨UInt64.not_lt.2 htime, ?_⟩⟩
  refine failIf_bind_ok_iff.2 ⟨by omega, failIf_bind_ok_iff.2 ⟨by omega, ?_⟩⟩
  refine failIf_bind_ok_iff.2 ⟨?_, failIf_bind_ok_iff.2 ⟨?_, ?_⟩⟩
  · rintro ⟨hne, hpos⟩
    rw [hk hne, Nat.zero_mul] at hpos
    exact hpos rfl
  · rintro ⟨-, hmod⟩
    exact hmod (Nat.mul_mod_left _ _)
  refine failIf_bind_ok_iff.2 ⟨not_not.2 hmix, failIf_bind_ok_iff.2 ⟨not_not.2 huncle, ?_⟩⟩
  exact failIf_bind_ok_iff.2 ⟨fun h => hdiff h.2, failIf_ok_iff.2 hpin⟩

lemma blockTimeVerify_ok {e' : Engine} (hr : e.SameRules e')
    (hcoin : h.coinbase = e.val) (ht : e.blockTimeForRamanujanFork s h parent = .ok t) (hlate : t ≤ h.time) :
    e'.blockTimeVerifyForRamanujanFork s h parent = .ok () := by
  unfold blockTimeForRamanujanFork at ht
  unfold blockTimeVerifyForRamanujanFork
  rw [hr.chainConfig, hr.config, hcoin]
  split at ht
  · rename_i hram
    rw [if_pos hram]
    obtain ⟨d, hd, ht⟩ := bind_ok_iff.1 ht
    cases ht
    rw [hr.backOffTime, hd]
    exact failIf_ok_iff.2 (UInt64.not_lt.2 hlate)
  · rename_i hram
    rw [if_neg hram]

lemma verifySigner_ok {n : UInt64} (hm : v ∈ s.validators)
    (hr : ¬ s.RecentlySigned v n) : s.verifySigner v n = .ok () := by
  refine verifySigner_iff.2 ⟨hm, ?_⟩
  rintro ⟨seen, hk, hlt⟩
  exact hr ⟨seen, mem_keys_of_lookup hk, hk, .inr (lt_iff_toNat_lt.2 hlt)⟩

lemma verifyDifficulty_ok
    (hd : calcDifficulty s v = .ok d) (hh : h.difficulty = some d) : s.verifyDifficulty v h = .ok () := by
  unfold calcDifficulty at hd
  obtain ⟨b, hb, hd⟩ := bind_ok_iff.1 hd
  unfold Snapshot.verifyDifficulty
  rw [hb, hh]
  cases b with
  | true => cases hd; rfl
  | false => cases hd; rfl

lemma verifySealWith_ok (hsig : e.ecrecover h = .ok v) (hcoin : h.coinbase = v) (hm : v ∈ s.validators)
    (hr : ¬ s.RecentlySigned v h.num) (hd : calcDifficulty s v = .ok d) (hh : h.difficulty = some d) :
    e.verifySealWith s h = .ok () := by
  unfold verifySealWith
  refine bind_ok_iff.2 ⟨v, hsig, failIf_bind_ok_iff.2 ⟨not_not.2 hcoin.symm, ?_⟩⟩
  refine bind_ok_iff.2 ⟨(), verifySigner_ok hm hr, ?_⟩
  split
  · rfl
  · exact verifyDifficulty_ok hd hh

/-- A header passes once its standalone checks pass, the parent and its snapshot
are there, and the checks against them pass. -/
lemma verifyHeader_ok {c1 c2 : Caches} (hnum : h.num ≠ 0) (halone : e.verifyStandalone chain.config now h = .ok ())
    (hpar : e.parentOf chain h [] = .ok parent) (hs1 : e.snapshot chain (h.num - 1) h.parentHash [] c = .ok s c1)
    (hs2 : e.snapshot chain (h.num - 1) h.parentHash [] c1 = .ok s c2)
    (htime : e.blockTimeVerifyForRamanujanFork s h parent = .ok ()) (hgas : verifyGas h parent = .ok ())
    (hseal : e.verifySealWith s h = .ok ()) : e.verifyHeader chain now h [] c = .ok () c2 := by
  unfold verifyHeader
  rw [halone, run_bind_of_ok (lift_ok _ c)]
  unfold verifyCascadingFields
  rw [if_neg hnum, hpar, run_bind_of_ok (lift_ok _ c), run_bind_of_ok hs1, htime, run_bind_of_ok (lift_ok _ c1),
    hgas, run_bind_of_ok (lift_ok _ c1)]
  unfold verifySeal
  rw [failIf_of_not hnum, run_bind_of_ok (lift_ok _ c1), run_bind_of_ok hs2, hseal, lift_ok]

/-! ## From one node to another -/

/-- The engine makes `h` above `parent`: it prepares a header, whose number and
parent the worker has set, reading its clock twice; the header is completed for
some desired gas limit; and it is sealed. -/
def Engine.Produces (e : Engine) (chain : ChainReader) (parent : Header) (rest : List Header) (h : Header) : Prop :=
  ∃ h₀ h₁ h₂ c c₁ c₂ c₃ now now' desired txs,
    Follows e chain (parent :: rest) c ∧ Follows e chain (parent :: rest) c₂ ∧
    h₀.number = some (parent.number.getD 0 + 1) ∧ h₀.parentHash = e.hashOf parent ∧ now ≤ now' ∧
    e.prepare chain now now' h₀ c = .ok h₁ c₁ ∧ desired.toNat < 2 ^ 63 ∧ Completed e parent desired h₁ h₂ ∧
    e.seal chain h₂ txs c₂ = .ok (some h) c₃

/-- What a header produced above `parent` looks like, `s` being the snapshot there. -/
structure Honest (e : Engine) (s : Snapshot) (parent h : Header) : Prop where
  number : h.number ≠ none
  num : h.num = parent.num + 1
  num_ne : h.num ≠ 0
  parentHash : h.parentHash = e.hashOf parent
  coinbase : h.coinbase = e.val
  mixDigest : h.mixDigest = 0
  uncleHash : h.uncleHash = calcUncleHash e.crypto []
  difficulty : ∃ d, Engine.calcDifficulty s e.val = .ok d ∧ h.difficulty = some d
  extra : ∃ k, h.extra.length = extraVanity + k * validatorBytesLength + extraSeal ∧
    (h.num % e.config.epoch ≠ 0 → k = 0)
  time : ∃ t, e.blockTimeForRamanujanFork s h parent = .ok t ∧ t ≤ h.time
  gas : verifyGas h parent = .ok ()
  member : e.val ∈ s.validators
  fresh : ¬ s.RecentlySigned e.val h.num
  signer : e.recoverSigner h = .ok e.val

/-- Of two clock readings in order, the time set is no earlier than the time due. -/
lemma le_time_of_clock (hclock : now ≤ now') : t ≤ if t < now then now' else t := by
  split
  · rename_i hlt
    exact UInt64.le_trans (UInt64.le_of_lt hlt) hclock
  · exact UInt64.le_refl t

lemma produces_honest {rest : List Header} (hsigns : e.SignsAs) (hmin : minGasLimit ≤ parent.gasLimit)
    (hcap : parent.gasLimit.toNat < 2 ^ 63) (hprod : e.Produces chain parent rest h) :
    ∃ s, e.refSnapshot (parent :: rest) = .ok s ∧ Honest e s parent h := by
  obtain ⟨h₀, h₁, h₂, c, c₁, c₂, c₃, now₁, now₂, desired, txs, hf, hf₂, hn₀, hp₀, hclock, hprep, hdes, hcomp, hseal⟩ :=
    hprod
  obtain ⟨s, parent', c4, hsnap, hget, hpre⟩ := prepare_ok hprep
  obtain ⟨s', c5, hsnap', hnz, hmem, hrec, hsealed⟩ := seal_ok hsigns hseal
  -- the header's number is the parent's and one more
  have hdown : parent.num + 1 - 1 = parent.num := by grind
  have hnum₀ : h₀.num = parent.num + 1 := by
    unfold Header.num
    rw [hn₀, Option.getD_some, UInt64.ofNat_add]
    rfl
  have hnum₁ : h₁.num = h₀.num := by unfold Header.num; rw [hpre.number]
  have hnum₂ : h₂.num = h₀.num := by unfold Header.num; rw [hcomp.number, hpre.number]
  have hnum : h.num = h₀.num := by unfold Header.num; rw [hsealed.number, hcomp.number, hpre.number]
  have hpar : h₂.parentHash = e.hashOf parent := by rw [hcomp.parentHash, hpre.parentHash, hp₀]
  rw [hnum₀, hdown, hp₀] at hsnap hget
  rw [hnum₂, hnum₀, hdown, hpar] at hsnap'
  obtain rfl : parent = parent' := by
    have hstored := hf.stored.get_stored parent mem_cons_self
    exact Option.some.inj (hstored.symm.trans hget)
  -- both calls work on the snapshot of the path
  have href := hf.ref_of_snapshot hsnap
  obtain rfl : s = s' := Except.ok.inj (href.symm.trans (hf₂.ref_of_snapshot hsnap'))
  obtain ⟨d, hd, hdiff⟩ := hpre.difficulty
  obtain ⟨k, hk, hk0⟩ := hpre.extra
  obtain ⟨t, ht, htime⟩ := hpre.time
  refine ⟨s, href, ⟨?_, by rw [hnum, hnum₀], by rw [hnum, ← hnum₂]; exact hnz, by rw [hsealed.parentHash, hpar],
    by rw [hsealed.coinbase, hcomp.coinbase, hpre.coinbase], by rw [hsealed.mixDigest, hcomp.mixDigest, hpre.mixDigest],
    by rw [hsealed.uncleHash, hcomp.uncleHash], ⟨d, hd, by rw [hsealed.difficulty, hcomp.difficulty, hdiff]⟩,
    ⟨k, by rw [hsealed.extra, hcomp.extra, hk], by rw [hnum, ← hnum₁]; exact hk0⟩, ⟨t, ?_, ?_⟩, ?_, hmem,
    by rw [hnum, ← hnum₂]; exact hrec, hsealed.signer⟩⟩
  · rw [hsealed.number, hcomp.number, hpre.number, hn₀]
    exact Option.some_ne_none _
  · unfold blockTimeForRamanujanFork at ht ⊢
    rw [hsealed.number, hcomp.number]
    exact ht
  · rw [hsealed.time, hcomp.time, htime]
    exact le_time_of_clock hclock
  · refine verifyGas_ok hmin hcap hdes (by rw [hsealed.gasLimit, hcomp.gasLimit]) ?_
    rw [hsealed.gasUsed, hsealed.gasLimit]
    exact hcomp.gasUsed

/-- A header that a validator produced above a block passes verification on
every node of the chain that follows the same path, once its time has come,
unless a fork hash pinned to its number says otherwise. -/
theorem produced_header_accepted (e e' : Engine) (hr : e.SameRules e') (hsigns : e.SignsAs)
    (chain chain' : ChainReader) (parent : Header) (rest : List Header) (hmin : minGasLimit ≤ parent.gasLimit)
    (hcap : parent.gasLimit.toNat < 2 ^ 63) (h : Header) (hprod : e.Produces chain parent rest h) (c : Caches)
    (hf : Follows e' chain' (parent :: rest) c) (now : UInt64) (htime : h.time ≤ now)
    (hpin : ¬ e'.PinnedAway chain'.config h) : ∃ c', e'.verifyHeader chain' now h [] c = .ok () c' := by
  obtain ⟨s, href, hh⟩ := produces_honest hsigns hmin hcap hprod
  obtain ⟨c1, c2, hs1, hs2⟩ := hf.snapshot_twice (s := s) (by rw [hr.refSnapshot]; exact href)
  have hpar : h.parentHash = e'.hashOf parent := by rw [hr.hashOf, hh.parentHash]
  have hnum : h.num - 1 = parent.num := by rw [hh.num]; grind
  rw [← hnum, ← hpar] at hs1 hs2
  obtain ⟨d, hd, hdiff⟩ := hh.difficulty
  obtain ⟨k, hk, hk0⟩ := hh.extra
  obtain ⟨t, ht, hlate⟩ := hh.time
  refine ⟨c2, verifyHeader_ok hh.num_ne ?_ ?_ hs1 hs2 (blockTimeVerify_ok hr hh.coinbase ht hlate) hh.gas ?_⟩
  · refine verifyStandalone_ok hh.number htime hk ?_ hh.mixDigest ?_ ?_ hpin
    · rw [hr.config]
      exact hk0
    · rw [hr.crypto, hh.uncleHash]
    · rw [hdiff]
      exact Option.some_ne_none d
  · unfold Engine.parentOf
    rw [hpar, hnum, hf.stored.get_stored parent mem_cons_self]
    exact failIf_bind_ok_iff.2 ⟨by simp, rfl⟩
  · refine verifySealWith_ok ?_ hh.coinbase hh.member hh.fresh hd hdiff
    rw [hr.ecrecover, ecrecover_of_sound hr.sound, hh.signer]

/-! ## A chain with one validator -/

def soloEngine (config : ChainConfig) : Engine := { smallEngine 200 epoch_twoHundred 1 with chainConfig := config }

def soloGenesis : Header := smallHeader 0 0 0 [1] few_one

def soloChain (config : ChainConfig) : ChainReader := chainOf config smallCrypto soloGenesis rfl []

/-- What the worker hands to `Prepare`, and what it fills in after. -/
def soloTemplate : Header := smallHeader (soloGenesis.hash smallCrypto) 1 0 [] few_none

def soloComplete (h : Header) : Header :=
  { h with
    uncleHash := calcUncleHash smallCrypto []
    gasLimit := calcGasLimit soloGenesis.gasLimit 40000000
    gasUsed := 21000 }

/-- The validator makes block 1 at time 10, and `p` holds of it. -/
def soloMakes (config : ChainConfig) (p : Header → Bool) : Bool :=
  returns (resultOf ((soloEngine config).prepare (soloChain config) 10 10 soloTemplate Caches.empty)) fun h =>
  returns (resultOf ((soloEngine config).seal (soloChain config) (soloComplete h) 1 Caches.empty)) fun o => o.any p

/-- A node that has stored nothing but the genesis. -/
lemma follows_genesis (config : ChainConfig) {g : Header} (hg : g.num = 0) :
    Follows e (chainOf config e.crypto g hg []) [g] Caches.empty := by
  refine ⟨⟨.genesis hg, by simp, by simp, by simp, ?_, by simp, ?_⟩, ?_⟩
  · intro a ha
    obtain rfl := mem_singleton.1 ha
    simp [chainOf, hashOf]
  · simp [chainOf, hg]
  · rintro h rest s - (hs | hs) <;> cases hs

lemma solo_follows (config : ChainConfig) :
    Follows (soloEngine config) (soloChain config) [soloGenesis] Caches.empty :=
  follows_genesis config rfl

lemma soloComplete_gas (h : Header) : (soloComplete h).gasUsed ≤ (soloComplete h).gasLimit := by
  have hle : (21000 : UInt64) ≤ calcGasLimit soloGenesis.gasLimit 40000000 := by decide +kernel
  exact hle

lemma soloMakes_produces {p : Header → Bool} (hm : soloMakes config p = true) :
    ∃ h, (soloEngine config).Produces (soloChain config) soloGenesis [] h ∧ p h = true := by
  obtain ⟨h₁, hprep, hm⟩ := of_returns hm
  obtain ⟨o, hseal, ho⟩ := of_returns hm
  cases o with
  | none => cases ho
  | some h =>
    have hcomp : Completed (soloEngine config) soloGenesis 40000000 h₁ (soloComplete h₁) :=
      ⟨rfl, rfl, rfl, rfl, rfl, rfl, rfl, rfl, rfl, soloComplete_gas h₁⟩
    exact ⟨h, ⟨soloTemplate, h₁, soloComplete h₁, Caches.empty, _, Caches.empty, _, 10, 10, 40000000, 1,
      solo_follows config, solo_follows config, rfl, smallHeader_parentHash _ _ _ _ _, UInt64.le_refl _,
      of_resultOf_ok hprep, by decide, hcomp, of_resultOf_ok hseal⟩, ho⟩

lemma sound_of_uncached (hnone : ∀ b, e.signatures b = none) : e.SoundSignatures := by
  intro h a ha
  rw [hnone] at ha
  cases ha

lemma solo_sameRules (config : ChainConfig) : (soloEngine config).SameRules (soloEngine config) :=
  ⟨rfl, rfl, rfl, rfl, sound_of_uncached fun _ => rfl, sound_of_uncached fun _ => rfl⟩

lemma solo_signsAs (config : ChainConfig) : (soloEngine config).SignsAs := by
  have hlen : (smallSeal 1).length = extraSeal := by decide
  have haddr : smallCrypto.pubkeyToAddress (4 :: (smallSeal 1).take 20) = 1 := by decide +kernel
  rintro data sig hsig
  cases hsig
  exact ⟨hlen, _, rfl, haddr⟩

/-- Without forks, block 1 is accepted. -/
theorem solo_block_accepted : ∃ h c', (soloEngine (noForks 1)).Produces (soloChain (noForks 1)) soloGenesis [] h ∧
      (soloEngine (noForks 1)).verifyHeader (soloChain (noForks 1)) 20 h [] Caches.empty = .ok () c' := by
  have hm : soloMakes (noForks 1) (fun h => decide (h.time ≤ 20) &&
      decide (¬ (soloEngine (noForks 1)).PinnedAway (noForks 1) h)) = true := by decide +kernel
  obtain ⟨h, hprod, hp⟩ := soloMakes_produces hm
  rw [Bool.and_eq_true, decide_eq_true_eq, decide_eq_true_eq] at hp
  obtain ⟨c', hc'⟩ := produced_header_accepted _ _ (solo_sameRules _) (solo_signsAs _) _ (soloChain (noForks 1))
    soloGenesis [] (by decide +kernel) (by decide +kernel) h hprod _ (solo_follows _) 20 hp.1 hp.2
  exact ⟨h, c', hprod, hc'⟩

/-- The chain pins a hash to block 1. -/
def pinnedForks : ChainConfig := { noForks 1 with eip150Block := some 1, eip150Hash := 5 }

/-- What the validator makes there is turned down, by its own node too. -/
theorem pinned_block_rejected :
    ∃ h, (soloEngine pinnedForks).Produces (soloChain pinnedForks) soloGenesis [] h ∧ h.time ≤ 20 ∧
      Follows (soloEngine pinnedForks) (soloChain pinnedForks) [soloGenesis] Caches.empty ∧
      resultOf ((soloEngine pinnedForks).verifyHeader (soloChain pinnedForks) 20 h [] Caches.empty) =
        .error .gasRepriceForkHash := by
  have hm : soloMakes pinnedForks (fun h => decide (h.time ≤ 20) &&
      decide (resultOf ((soloEngine pinnedForks).verifyHeader (soloChain pinnedForks) 20 h [] Caches.empty) =
        .error .gasRepriceForkHash)) = true := by decide +kernel
  obtain ⟨h, hprod, hp⟩ := soloMakes_produces hm
  rw [Bool.and_eq_true, decide_eq_true_eq, decide_eq_true_eq] at hp
  exact ⟨h, hprod, hp.1, solo_follows _, hp.2⟩

end TurboOctopus.Parlia
