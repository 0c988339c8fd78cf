import TurboOctopus.Lib.Runs
import TurboOctopus.Parlia.Snapshot
/-!
# What accepting a header does

`applyHeader_ok` says it once: the signer is a validator that is not among the
recent ones, it is recorded, and on a switching block the set is replaced and
the windows cut. `apply` over a list is the same as accepting its headers one
by one (`apply_cons`), so every history of calls is a run of single headers
(`History.run`).
-/
namespace TurboOctopus.Parlia

open Lib TurboOctopus.Types List

variable {e : Engine} {find : Nat → Header → Option Header} {s s' : Snapshot} {h : Header}

/-! ## One header -/

@[simp] lemma expire_validators (s : Snapshot) (n : UInt64) : (s.expire n).validators = s.validators := rfl

/-- The signers on record once `v` has signed block `n`. -/
def Snapshot.signedBy (s : Snapshot) (n : UInt64) (v : Address) : GoMap UInt64 Address :=
  (s.expire n).recents.insert n v

/-- What accepting `h`, signed by `v`, makes of the validators and the recent
signers of `s`. -/
structure Accepts (e : Engine) (find : Nat → Header → Option Header) (s : Snapshot) (h : Header)
    (v : Address) (s' : Snapshot) : Prop where
  signer : e.ecrecover h = .ok v
  member : v ∈ s.validators
  fresh : ¬ HasValue (s.expire h.num).recents v
  number : s'.number = s.number
  hash : s'.hash = s.hash
  next : (¬ e.Switches s h.num ∧ s'.validators = s.validators ∧ s'.recents = s.signedBy h.num v) ∨
    (e.Switches s h.num ∧ ∃ c vals, find (s.validators.card / 2) h = some c ∧ extraValidators c = .ok vals ∧
      s'.validators = vals.toFinset ∧
      s'.recents = eraseAll (s.signedBy h.num v) (droppedKeys h.num s.limit (vals.toFinset.card / 2 + 1)))

open Engine

lemma changeValidators_ok (hc : e.changeValidators find s h = .ok s') :
    (¬ e.Switches s h.num ∧ s' = s) ∨
    (e.Switches s h.num ∧ ∃ c vals, find (s.validators.card / 2) h = some c ∧ extraValidators c = .ok vals ∧
      s' = s.switchTo h.num vals.toFinset) := by
  unfold changeValidators at hc
  split at hc
  · rename_i hsw
    split at hc
    · cases hc
    · rename_i c hfind
      obtain ⟨vals, hvals, hs⟩ := bind_ok_iff.1 hc
      simp only [Except.ok.injEq] at hs
      exact .inr ⟨hsw, c, vals, hfind, hvals, hs.symm⟩
  · rename_i hsw
    simp only [Except.ok.injEq] at hc
    exact .inl ⟨hsw, hc.symm⟩

lemma recordForkHash_ok (hr : s.recordForkHash h = .ok s') :
    s'.number = s.number ∧ s'.hash = s.hash ∧ s'.validators = s.validators ∧ s'.recents = s.recents := by
  unfold Snapshot.recordForkHash at hr
  obtain ⟨-, hr⟩ := failIf_bind_ok_iff.1 hr
  simp only [Except.ok.injEq] at hr
  subst hr
  exact ⟨rfl, rfl, rfl, rfl⟩

lemma applyHeader_ok (ha : e.applyHeader find s h = .ok s') : ∃ v, Accepts e find s h v s' := by
  unfold applyHeader at ha
  obtain ⟨v, hv, ha⟩ := bind_ok_iff.1 ha
  obtain ⟨hm, ha⟩ := failIf_bind_ok_iff.1 ha
  obtain ⟨hf, ha⟩ := failIf_bind_ok_iff.1 ha
  obtain ⟨snap, hs, ha⟩ := bind_ok_iff.1 ha
  obtain ⟨hnum, hhash, hvals, hrec⟩ := recordForkHash_ok ha
  have hm' : v ∈ s.validators := by simpa using hm
  rcases changeValidators_ok hs with ⟨hsw, rfl⟩ | ⟨hsw, c, vals, hc, hex, rfl⟩
  · exact ⟨v, hv, hm', hf, hnum, hhash, .inl ⟨hsw, hvals, hrec⟩⟩
  · exact ⟨v, hv, hm', hf, hnum, hhash, .inr ⟨hsw, c, vals, hc, hex, hvals, hrec⟩⟩

variable {find' : Nat → Header → Option Header}

/-- `find` matters only on a switching block, and only at one depth. -/
lemma changeValidators_congr
    (hf : e.Switches s h.num → find (s.validators.card / 2) h = find' (s.validators.card / 2) h) :
    e.changeValidators find s h = e.changeValidators find' s h := by
  unfold changeValidators
  by_cases hsw : e.Switches s h.num
  · rw [if_pos hsw, if_pos hsw, hf hsw]
  · rw [if_neg hsw, if_neg hsw]

lemma applyHeader_congr (hf : e.Switches s h.num → find (s.validators.card / 2) h = find' (s.validators.card / 2) h) :
    e.applyHeader find s h = e.applyHeader find' s h := by
  unfold applyHeader
  have hc : ∀ v, e.changeValidators find
      { s.expire h.num with recents := (s.expire h.num).recents.insert h.num v } h =
      e.changeValidators find' { s.expire h.num with recents := (s.expire h.num).recents.insert h.num v } h :=
    fun v => changeValidators_congr hf
  simp only [hc]

/-! ## Where a snapshot stands -/

/-- The snapshot as if it stood at another block. -/
def Snapshot.at (s : Snapshot) (n : UInt64) (b : Hash) : Snapshot := { s with number := n, hash := b }


lemma changeValidators_at (e : Engine) (find : Nat → Header → Option Header) (s : Snapshot) (h : Header) (n : UInt64)
    (b : Hash) : e.changeValidators find (s.at n b) h = (e.changeValidators find s h).map fun t => t.at n b := by
  unfold changeValidators
  by_cases hsw : e.Switches s h.num
  · have hsw' : e.Switches (s.at n b) h.num := hsw
    rw [if_pos hsw, if_pos hsw']
    have hv : (s.at n b).validators = s.validators := rfl
    rw [hv]
    cases find (s.validators.card / 2) h with
    | none => rfl
    | some c =>
      simp only
      cases extraValidators c with
      | error err => rfl
      | ok vals => rfl
  · have hsw' : ¬ e.Switches (s.at n b) h.num := hsw
    rw [if_neg hsw, if_neg hsw']
    rfl

lemma recordForkHash_at (n : UInt64) (b : Hash) :
    (s.at n b).recordForkHash h = (s.recordForkHash h).map fun t => t.at n b := by
  unfold Snapshot.recordForkHash
  by_cases hl : h.extra.length < extraVanity
  · rw [failIf_of hl]; rfl
  · rw [failIf_of_not hl]; rfl

/-- Where a snapshot stands plays no part in accepting a header. -/
lemma applyHeader_at (n : UInt64) (b : Hash) :
    e.applyHeader find (s.at n b) h = (e.applyHeader find s h).map fun t => t.at n b := by
  have hex : (s.at n b).expire h.num = (s.expire h.num).at n b := rfl
  unfold applyHeader
  rw [hex]
  cases e.ecrecover h with
  | error err => rfl
  | ok v =>
    simp only [ok_bind]
    -- the checks read only the two fields that `at` leaves alone
    have hm : ((s.expire h.num).at n b).validators = (s.expire h.num).validators := rfl
    have hr : ((s.expire h.num).at n b).recents = (s.expire h.num).recents := rfl
    rw [hm, hr]
    cases failIf (v ∉ (s.expire h.num).validators) Err.errUnauthorizedValidator with
    | error err => rfl
    | ok _ =>
      cases failIf (HasValue (s.expire h.num).recents v) Err.errRecentlySigned with
      | error err => rfl
      | ok _ =>
        simp only [ok_bind]
        have hc := changeValidators_at e find { s.expire h.num with recents := (s.expire h.num).recents.insert h.num v } h n b
        refine (congrArg (· >>= fun snap => snap.recordForkHash h) hc).trans ?_
        cases e.changeValidators find
            { s.expire h.num with recents := (s.expire h.num).recents.insert h.num v } h with
        | error err => rfl
        | ok snap => exact recordForkHash_at n b

/-! ## Lists of headers -/

section Apply
variable {chain : ChainReader} {parents : List Header}

/-- The loop of `apply`, without the checks around it. -/
abbrev Engine.applyLoop (e : Engine) (find : Nat → Header → Option Header) (s : Snapshot)
    (headers : List Header) : Except Err Snapshot := headers.foldlM (e.applyHeader find) s

variable {hs : List Header}

lemma applyLoop_cons :
    e.applyLoop find s (h :: hs) = .ok s' ↔ ∃ t, e.applyHeader find s h = .ok t ∧ e.applyLoop find t hs = .ok s' := by
  unfold applyLoop
  rw [foldlM_cons, bind_ok_iff]

lemma applyLoop_number (ha : e.applyLoop find s hs = .ok s') : s'.number = s.number := by
  induction hs generalizing s with
  | nil => cases ha; rfl
  | cons h hs ih =>
    obtain ⟨t, ht, ha⟩ := applyLoop_cons.1 ha
    obtain ⟨v, hv⟩ := applyHeader_ok ht
    rw [ih ha, hv.number]

lemma applyLoop_at (n : UInt64) (b : Hash) :
    e.applyLoop find (s.at n b) hs = (e.applyLoop find s hs).map fun t => t.at n b := by
  induction hs generalizing s with
  | nil => rfl
  | cons h hs ih =>
    unfold applyLoop at ih ⊢
    rw [foldlM_cons, foldlM_cons, applyHeader_at]
    cases e.applyHeader find s h with
    | error err => rfl
    | ok t => exact ih

lemma checkLinked_cons {h' : Header} : e.checkLinked (h :: h' :: hs) = .ok () ↔ h'.num = h.num + 1 ∧ h'.parentHash =
      e.hashOf h ∧ e.checkLinked (h' :: hs) = .ok () := by
  rw [checkLinked, failIf_bind_ok_iff, failIf_bind_ok_iff, not_not, not_not]

lemma apply_ok_iff : e.apply s (h :: hs) chain parents = .ok s' ↔ e.checkLinked (h :: hs) = .ok () ∧ h.num =
      s.number + 1 ∧ h.parentHash = s.hash ∧ ∃ t, e.applyLoop (e.findAncientHeader chain parents) s (h :: hs) = .ok t ∧
      s' = t.at (s.number + UInt64.ofNat (hs.length + 1)) (e.hashOf ((h :: hs).getLast (cons_ne_nil h hs))) := by
  unfold apply
  constructor
  · intro ha
    obtain ⟨_, hl, ha⟩ := bind_ok_iff.1 ha
    obtain ⟨hn, ha⟩ := failIf_bind_ok_iff.1 ha
    obtain ⟨hp, ha⟩ := failIf_bind_ok_iff.1 ha
    obtain ⟨t, ht, ha⟩ := bind_ok_iff.1 ha
    refine ⟨hl, not_not.1 hn, not_not.1 hp, t, ht, ?_⟩
    cases ha
    rw [applyLoop_number ht]
    rfl
  · rintro ⟨hl, hn, hp, t, ht, rfl⟩
    refine bind_ok_iff.2 ⟨(), hl, failIf_bind_ok_iff.2 ⟨not_not.2 hn, failIf_bind_ok_iff.2 ⟨not_not.2 hp, ?_⟩⟩⟩
    refine bind_ok_iff.2 ⟨t, ht, ?_⟩
    rw [applyLoop_number ht]
    rfl

/-- `apply` of one header, whatever it finds ancestors with. -/
def Engine.applyOne (e : Engine) (find : Nat → Header → Option Header) (s : Snapshot) (h : Header) :
    Except Err Snapshot := do
  failIf (h.num ≠ s.number + 1) .errOutOfRangeChain
  failIf (h.parentHash ≠ s.hash) .errBlockHashInconsistent
  let t ← e.applyHeader find s h
  .ok (t.at (s.number + 1) (e.hashOf h))

lemma apply_singleton_eq : e.apply s [h] chain parents = e.applyOne (e.findAncientHeader chain parents) s h := by
  unfold apply applyOne
  simp only [checkLinked, ok_bind, foldlM_cons, foldlM_nil]
  cases failIf (h.num ≠ s.number + 1) Err.errOutOfRangeChain with
  | error err => rfl
  | ok _ =>
    cases failIf (h.parentHash ≠ s.hash) Err.errBlockHashInconsistent with
    | error err => rfl
    | ok _ =>
      cases ht : e.applyHeader (e.findAncientHeader chain parents) s h with
      | error err => rfl
      | ok t =>
        obtain ⟨v, hv⟩ := applyHeader_ok ht
        simp only [ok_bind, pure_ok, Snapshot.at, hv.number]
        rfl

lemma applyOne_congr (hf : e.Switches s h.num → find (s.validators.card / 2) h = find' (s.validators.card / 2) h) :
    e.applyOne find s h = e.applyOne find' s h := by
  unfold applyOne
  rw [applyHeader_congr hf]

lemma applyOne_ok_iff : e.applyOne find s h = .ok s' ↔ h.num = s.number + 1 ∧ h.parentHash = s.hash ∧
      ∃ t, e.applyHeader find s h = .ok t ∧ s' = t.at (s.number + 1) (e.hashOf h) := by
  unfold applyOne
  rw [failIf_bind_ok_iff, failIf_bind_ok_iff, bind_ok_iff, not_not, not_not]
  simp only [Except.ok.injEq, eq_comm]

/-- What `apply` checks and does on one header. -/
lemma apply_singleton : e.apply s [h] chain parents = .ok s' ↔ h.num = s.number + 1 ∧ h.parentHash = s.hash ∧
      ∃ t, e.applyHeader (e.findAncientHeader chain parents) s h = .ok t ∧ s' = t.at (s.number + 1) (e.hashOf h) := by
  rw [apply_singleton_eq, applyOne_ok_iff]

/-- Applying a list is applying its headers one by one. -/
lemma apply_cons : e.apply s (h :: hs) chain parents = .ok s' ↔
      ∃ t, e.apply s [h] chain parents = .ok t ∧ e.apply t hs chain parents = .ok s' := by
  cases hs with
  | nil =>
    constructor
    · intro ha
      exact ⟨s', ha, rfl⟩
    · rintro ⟨t, ha, ht⟩
      cases ht
      exact ha
  | cons h' hs =>
    have hnum : s.number + UInt64.ofNat ((h' :: hs).length + 1) = s.number + 1 + UInt64.ofNat (hs.length + 1) := by
      rw [length_cons, UInt64.ofNat_add (hs.length + 1) 1, UInt64.add_comm (UInt64.ofNat (hs.length + 1)),
        UInt64.add_assoc]
      rfl
    rw [apply_ok_iff, checkLinked_cons]
    constructor
    · rintro ⟨⟨hn', hp', hl⟩, hn, hp, t, ht, rfl⟩
      obtain ⟨u, hu, ht⟩ := applyLoop_cons.1 ht
      refine ⟨u.at (s.number + 1) (e.hashOf h), apply_singleton.2 ⟨hn, hp, u, hu, rfl⟩, ?_⟩
      refine apply_ok_iff.2 ⟨hl, by rw [hn', hn]; rfl, hp', t.at (s.number + 1) (e.hashOf h), ?_, ?_⟩
      · rw [applyLoop_at, ht]
        rfl
      · rw [hnum]
        rfl
    · rintro ⟨t, ht, ha⟩
      obtain ⟨hn, hp, u, hu, rfl⟩ := apply_singleton.1 ht
      obtain ⟨hl, hn', hp', w, hw, rfl⟩ := apply_ok_iff.1 ha
      rw [applyLoop_at] at hw
      cases hx : e.applyLoop (e.findAncientHeader chain parents) u (h' :: hs) with
      | error err => rw [hx] at hw; cases hw
      | ok x =>
        rw [hx] at hw
        cases hw
        refine ⟨⟨by rw [hn', hn]; rfl, hp', hl⟩, hn, hp, x, applyLoop_cons.2 ⟨u, hu, hx⟩, ?_⟩
        rw [hnum]
        rfl

lemma apply_append {hs' : List Header} : e.apply s (hs ++ hs') chain parents = .ok s' ↔
      ∃ t, e.apply s hs chain parents = .ok t ∧ e.apply t hs' chain parents = .ok s' := by
  induction hs generalizing s with
  | nil =>
    constructor
    · intro ha
      exact ⟨s, rfl, ha⟩
    · rintro ⟨t, ht, ha⟩
      cases ht
      exact ha
  | cons h hs ih =>
    rw [cons_append, apply_cons]
    simp only [ih]
    constructor
    · rintro ⟨t, ht, u, hu, ha⟩
      exact ⟨u, apply_cons.2 ⟨t, ht, hu⟩, ha⟩
    · rintro ⟨u, hu, ha⟩
      obtain ⟨t, ht, hu⟩ := apply_cons.1 hu
      exact ⟨t, ht, u, hu, ha⟩

/-- The snapshot of one call is that of two calls, for any cut of the headers, and where
one of the two fails there is none. -/
theorem apply_in_two_calls (e : Engine) (s : Snapshot) (hs hs' : List Header) (chain : ChainReader) (parents : List Header) :
    (e.apply s (hs ++ hs') chain parents).toOption =
      (e.apply s hs chain parents).toOption.bind fun t => (e.apply t hs' chain parents).toOption := by
  have hsome {x : Except Err Snapshot} {t : Snapshot} : x.toOption = some t ↔ x = .ok t := by
    cases x <;> simp [Except.toOption]
  refine Option.ext fun s' => ?_
  simp only [Option.bind_eq_some_iff, hsome, apply_append]

end Apply

/-! ## Histories -/

/-- A header, and the snapshot after it. -/
abbrev Block := Header × Snapshot

/-- `apply` takes the snapshot over one header, with some chain and parents at
hand. -/
def Engine.Accepted (e : Engine) (s : Snapshot) (b : Block) (s' : Snapshot) : Prop :=
  s' = b.2 ∧ ∃ chain parents, e.apply s [b.1] chain parents = .ok b.2

/-- The blocks of one call of `apply`, with the snapshots it goes through. -/
def Engine.trace (e : Engine) (chain : ChainReader) (parents : List Header) :
    Snapshot → List Header → List Block
  | _, [] => []
  | s, h :: hs =>
    match e.apply s [h] chain parents with
    | .ok t => (h, t) :: e.trace chain parents t hs
    | .error _ => []

/-- The blocks accepted from `s₀` on by successful calls of `apply`, and the
snapshot after them. -/
inductive History (e : Engine) (s₀ : Snapshot) : List Block → Snapshot → Prop
  | start : History e s₀ [] s₀
  | call {bs : List Block} {s s' : Snapshot} {headers chain parents} : History e s₀ bs s → e.apply s headers chain parents = .ok s' →
      History e s₀ (bs ++ e.trace chain parents s headers) s'

lemma trace_run {chain : ChainReader} {parents hs : List Header}
    (ha : e.apply s hs chain parents = .ok s') : Run e.Accepted s (e.trace chain parents s hs) s' := by
  induction hs generalizing s with
  | nil => cases ha; exact .nil _
  | cons h hs ih =>
    obtain ⟨t, ht, ha⟩ := apply_cons.1 ha
    unfold trace
    rw [ht]
    exact .cons ⟨rfl, chain, parents, ht⟩ (ih ha)

/-- However the headers were handed over, they were accepted one by one. -/
lemma History.run {s₀ : Snapshot} {bs : List Block} (hh : History e s₀ bs s) : Run e.Accepted s₀ bs s := by
  induction hh with
  | start => exact .nil s₀
  | call _ ha ih => exact ih.append (trace_run ha)

/-- What one accepted block is made of. -/
lemma accepted_cases {b : Block} (hb : e.Accepted s b s') :
    s'.number = s.number + 1 ∧ b.1.num = s.number + 1 ∧ b.1.parentHash = s.hash ∧ s'.hash = e.hashOf b.1 ∧
      ∃ chain parents v t, Accepts e (e.findAncientHeader chain parents) s b.1 v t ∧
        s' = t.at (s.number + 1) (e.hashOf b.1) := by
  obtain ⟨rfl, chain, parents, ha⟩ := hb
  obtain ⟨hn, hp, t, ht, hs'⟩ := apply_singleton.1 ha
  obtain ⟨v, hv⟩ := applyHeader_ok ht
  refine ⟨?_, hn, hp, ?_, chain, parents, v, t, hv, hs'⟩
  · rw [hs']; rfl
  · rw [hs']; rfl

end TurboOctopus.Parlia
