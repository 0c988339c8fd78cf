import TurboOctopus.Core.Reorg
/-!
# Ancestors by number

`GetAncestor` follows parent links until it meets the canonical chain, and from there
looks the ancestor up by its number. `ancestor` and the counter are natural numbers here.
-/
namespace TurboOctopus.Core

open Lib

variable {H κ : Type} [DecidableEq κ] {v : HeaderFields H κ} {s : HeaderChain H κ}

variable (v)

/-- The loop, with the counter it leaves. The zero hash is `none`. The source reads the hash
at `number` again after the ancestor's; nothing is written in between. -/
def HeaderChain.ancestorLoop : Nat → κ → UInt64 → Nat → HeaderChain H κ → Option (κ × UInt64) × Nat × HeaderChain H κ
  | 0, hash, number, maxNonCanonical, s => (some (hash, number), maxNonCanonical, s)
  | ancestor + 1, hash, number, maxNonCanonical, s =>
    if s.getCanonicalHash number = some hash then
      let number := number - UInt64.ofNat (ancestor + 1)
      ((s.getCanonicalHash number).map (·, number), maxNonCanonical, s)
    else
      match maxNonCanonical with
      | 0 => (none, 0, s)
      | left + 1 =>
        match s.getHeader hash number with
        | (none, s) => (none, left, s)
        | (some header, s) => ancestorLoop ancestor (v.parentHash header) (number - 1) left s

def HeaderChain.getAncestor (s : HeaderChain H κ) (hash : κ) (number : UInt64) (ancestor maxNonCanonical : Nat) :
    Option (κ × UInt64) × Nat × HeaderChain H κ :=
  if number.toNat < ancestor then (none, maxNonCanonical, s)
  else if ancestor = 1 then
    match s.getHeader hash number with
    | (none, s) => (none, maxNonCanonical, s)
    | (some header, s) => (some (v.parentHash header, number - 1), maxNonCanonical, s)
  else ancestorLoop v ancestor hash number maxNonCanonical s

/-- So many parent links lead from the first hash to the second. -/
def HeaderFields.Links : Nat → κ → κ → Prop
  | 0, k, k' => k' = k
  | n + 1, k, k' => ∃ h, v.hash h = k ∧ Links n (v.parentHash h) k'

/-- A header on the way is not stored, or the headers that may be looked at are not canonical. -/
def HeaderDb.Unreached (db : HeaderDb H κ) (k : κ) (number : UInt64) (ancestor maxNonCanonical : Nat) : Prop :=
  (∃ i < ancestor, ∃ k', v.Links i k k' ∧ ∀ h, db.Stored v h → v.hash h ≠ k') ∨
    maxNonCanonical < ancestor ∧ ∀ i ≤ maxNonCanonical, ∃ k', v.Links i k k' ∧
      db.canonical.lookup (number - UInt64.ofNat i) ≠ some k'

variable {v}

omit [DecidableEq κ] in
lemma HeaderFields.Descends.links {h a : H} (ha : v.Descends h a) :
    v.Links ((v.number h).toNat - (v.number a).toNat) (v.hash h) (v.hash a) := by
  induction ha with
  | refl h => rw [Nat.sub_self]; exact rfl
  | @parent h p a hp ha ih =>
    have hsucc : (v.number h).toNat - (v.number a).toNat = (v.number p).toNat - (v.number a).toNat + 1 := by
      have := v.number_parent h p hp
      have := ha.number_le
      omega
    rw [hsucc]
    exact ⟨h, rfl, hp ▸ ih⟩

lemma toNat_sub_one {n : UInt64} (hn : 1 ≤ n.toNat) : (n - 1).toNat = n.toNat - 1 :=
  UInt64.toNat_sub_of_le _ _ (UInt64.le_iff_toNat_le.2 hn)

lemma HeaderChain.Sound.of_getHeader (hs : s.Sound v) {k : κ} {n : UInt64} {h : H} (hget : (s.getHeader k n).1 = some h) :
    v.hash h = k ∧ s.db.Stored v h := by
  rw [HeaderChain.getHeader_fst] at hget
  cases hc : s.headerCache.peek k with
  | none =>
    rw [hc] at hget
    exact (hs.db.stored_of_lookup hget).2
  | some q =>
    rw [hc] at hget
    cases hget
    exact hs.header _ _ hc

lemma HeaderChain.Sound.ancestorLoop {k : κ} {number : UInt64} {ancestor max : Nat} (hs : s.Sound v)
    (hassigns : s.db.Assigns v s.currentHeader) (hdown : ∀ n ∈ s.db.canonical, ∀ m ≤ n, m ∈ s.db.canonical)
    (hk : ∀ h, v.hash h = k → v.number h = number) (hle : ancestor ≤ number.toNat) :
    (∀ r, (ancestorLoop v ancestor k number max s).1 = some r → v.Links ancestor k r.1 ∧ r.2.toNat + ancestor = number.toNat) ∧
      ((ancestorLoop v ancestor k number max s).1 = none → s.db.Unreached v k number ancestor max) := by
  induction ancestor generalizing k number max s with
  | zero =>
    refine ⟨?_, nofun⟩
    rintro r ⟨⟩
    exact ⟨rfl, rfl⟩
  | succ ancestor ih =>
    by_cases hcanonical : s.getCanonicalHash number = some k
    · obtain ⟨a, ha, rfl, rfl⟩ := (hassigns _ _).1 hcanonical
      have hsmall : (UInt64.ofNat (ancestor + 1)).toNat = ancestor + 1 :=
        UInt64.toNat_ofNat_of_lt' (Nat.lt_of_le_of_lt hle (UInt64.toNat_lt _))
      have hto : UInt64.ofNat (ancestor + 1) ≤ v.number a := UInt64.le_iff_toNat_le.2 (hsmall.symm ▸ hle)
      have hnum := UInt64.toNat_sub_of_le _ _ hto
      rw [hsmall] at hnum
      have hmem := hdown _ (Finmap.mem_of_lookup_eq_some hcanonical) (v.number a - UInt64.ofNat (ancestor + 1))
        (UInt64.le_iff_toNat_le.2 (by omega))
      obtain ⟨k, hlookup⟩ := Option.isSome_iff_exists.1 (Finmap.lookup_isSome.2 hmem)
      obtain ⟨b, hb, hbn, rfl⟩ := (hassigns _ _).1 hlookup
      have hrun : HeaderChain.ancestorLoop v (ancestor + 1) (v.hash a) (v.number a) max s =
          (some (v.hash b, v.number a - UInt64.ofNat (ancestor + 1)), max, s) :=
        (if_pos hcanonical).trans (congrArg (fun o : Option κ => (o.map (·, _), max, s)) hlookup)
      rw [hrun]
      refine ⟨?_, nofun⟩
      rintro r ⟨⟩
      have hlinks := (ha.of_number_le hb (by rw [hbn]; omega)).links
      rw [hbn, hnum, Nat.sub_sub_self hle] at hlinks
      exact ⟨hlinks, by dsimp only; omega⟩
    have hhere : s.db.canonical.lookup (number - UInt64.ofNat 0) ≠ some k := by
      change s.db.canonical.lookup (number - 0) ≠ some k
      rwa [UInt64.sub_zero]
    cases max with
    | zero =>
      rw [show HeaderChain.ancestorLoop v (ancestor + 1) k number 0 s = (none, 0, s) from if_neg hcanonical]
      refine ⟨nofun, fun _ => .inr ⟨Nat.succ_pos _, fun i hi => ⟨k, ?_⟩⟩⟩
      rw [Nat.le_zero.1 hi]
      exact ⟨rfl, hhere⟩
    | succ left =>
      have hrun : HeaderChain.ancestorLoop v (ancestor + 1) k number (left + 1) s =
          match s.getHeader k number with
          | (none, s) => (none, left, s)
          | (some header, s) => HeaderChain.ancestorLoop v ancestor (v.parentHash header) (number - 1) left s :=
        if_neg hcanonical
      rw [hrun]
      have hreads := hs.getHeader k number
      rcases hget : s.getHeader k number with ⟨_ | header, t⟩ <;> rw [hget] at hreads
      · refine ⟨nofun, fun _ => .inl ⟨0, Nat.succ_pos _, k, rfl, fun h hstored hh => ?_⟩⟩
        subst hh
        have hfound := (hs.getHeader_eq h).trans hstored
        rw [hk h rfl, hget] at hfound
        cases hfound
      · obtain ⟨rfl, -⟩ := hs.of_getHeader (congrArg Prod.fst hget)
        have hnumber := hk header rfl
        have hone := toNat_sub_one (Nat.le_trans (Nat.le_add_left 1 ancestor) hle)
        obtain ⟨hsome, hnone⟩ := @ih t (v.parentHash header) (number - 1) left hreads.sound
          (by rw [hreads.db, hreads.currentHeader]; exact hassigns) (by rw [hreads.db]; exact hdown)
          (fun p hp => by rw [← v.number_sub_one hp, hnumber]) (by omega)
        rw [hreads.db] at hnone
        refine ⟨fun r hr => ⟨⟨header, rfl, (hsome r hr).1⟩, ?_⟩, fun hr => ?_⟩
        · have := (hsome r hr).2
          omega
        rcases hnone hr with ⟨i, hi, k', hlinks, hmissing⟩ | ⟨hlt, hoff⟩
        · exact .inl ⟨i + 1, Nat.succ_lt_succ hi, k', ⟨header, rfl, hlinks⟩, hmissing⟩
        · refine .inr ⟨Nat.succ_lt_succ hlt, fun i hi => ?_⟩
          cases i with
          | zero => exact ⟨_, rfl, hhere⟩
          | succ i =>
            obtain ⟨k', hlinks, hne⟩ := hoff i (Nat.le_of_succ_le_succ hi)
            refine ⟨k', ⟨header, rfl, hlinks⟩, ?_⟩
            have hsub : number - UInt64.ofNat (i + 1) = number - 1 - UInt64.ofNat i := by
              rw [UInt64.ofNat_add]
              grind
            rwa [hsub]

/-- From a stored header, what `GetAncestor` returns is so many links away, and it returns
the zero hash only above the genesis block, where a header is missing, or where more
headers than it may look at are not canonical. -/
theorem ancestor_by_links (hs : s.Sound v) (hassigns : s.db.Assigns v s.currentHeader)
    (hdown : ∀ n ∈ s.db.canonical, ∀ m ≤ n, m ∈ s.db.canonical) {h : H} (hh : s.db.Stored v h) (ancestor max : Nat) :
    (∀ r, (s.getAncestor v (v.hash h) (v.number h) ancestor max).1 = some r →
      v.Links ancestor (v.hash h) r.1 ∧ r.2.toNat + ancestor = (v.number h).toNat) ∧
    ((s.getAncestor v (v.hash h) (v.number h) ancestor max).1 = none →
      (v.number h).toNat < ancestor ∨ s.db.Unreached v (v.hash h) (v.number h) ancestor max) := by
  unfold HeaderChain.getAncestor
  by_cases habove : (v.number h).toNat < ancestor
  · rw [if_pos habove]
    exact ⟨nofun, fun _ => .inl habove⟩
  rw [if_neg habove]
  rw [Nat.not_lt] at habove
  by_cases hone : ancestor = 1
  · -- the header itself is read, whatever the counter
    have hget := (hs.getHeader_eq h).trans hh
    rw [if_pos hone]
    rcases hread : s.getHeader (v.hash h) (v.number h) with ⟨o, t⟩
    rw [hread] at hget
    cases hget
    refine ⟨?_, nofun⟩
    rintro r ⟨⟩
    subst hone
    exact ⟨⟨h, rfl, rfl⟩, (congrArg (· + 1) (toNat_sub_one habove)).trans (Nat.sub_add_cancel habove)⟩
  · rw [if_neg hone]
    obtain ⟨hsome, hnone⟩ := hs.ancestorLoop hassigns hdown (fun x hx => congrArg v.number (v.hash_inj x h hx)) habove
    exact ⟨hsome, fun hr => .inr (hnone hr)⟩

/-- Blocks 2 and 3 have the parent 1. -/
def fork : HeaderFields (Fin 4) Nat where
  hash h := h.val + 1
  parentHash h := min h.val 2
  number h := (min h.val 2).toUInt64
  difficulty _ := 1
  total k := min k 3
  hash_inj := by decide
  number_parent := by decide
  total_hash := by decide

/-- From the block that is not canonical, a link leads to the canonical chain, and its number
to the genesis block. -/
theorem ancestor_by_links_fork : ∃ s : HeaderChain (Fin 4) Nat, s.db.Stored fork 3 ∧
    (s.getAncestor fork 4 2 2 1).1 = some (1, 0) ∧ fork.Links 2 4 1 := by
  have hstart : (HeaderChain.genesis fork 0).Linked fork 0 := .genesis (by decide)
  have hchain : fork.Contiguous [1, 2] := .cons_cons rfl (.singleton 2)
  obtain ⟨_, s, hrun, hs, hstored, -⟩ :=
    hstart.insert hchain rfl ⟨0, by decide, hstart.rooted.genesis⟩ (by decide) byTd
  obtain ⟨_, t, hrun', ht, hstored', -⟩ :=
    hs.insert (.singleton 3) rfl ⟨1, by decide, hstored 1 (by decide)⟩ (by decide) byTd
  have hthree := hstored' 3 (by decide)
  have hget : (t.getAncestor fork 4 2 2 1).1 = some (1, 0) := by
    cases hrun
    cases hrun'
    decide +kernel
  refine ⟨t, hthree, hget, ((ancestor_by_links ht.sound ht.assigns (fun n hn m hm => ?_) hthree 2 1).1 _ hget).1⟩
  exact ht.mem_canonical (UInt64.le_trans hm (ht.le_of_canonical hn))

end TurboOctopus.Core
