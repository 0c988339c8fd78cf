import TurboOctopus.Core.HeaderWrite
/-!
# Ancestors

The headers one comes to going back from a header. Where every header is stored with its
parent, they lead down to the genesis block, with one of every number.
-/
namespace TurboOctopus.Core

open Lib List

variable {H κ : Type} {v : HeaderFields H κ}

/-! ## Ancestors -/

/-- Going back from the first header one comes to the second. -/
inductive HeaderFields.Descends (v : HeaderFields H κ) : H → H → Prop
  | refl (h : H) : v.Descends h h
  | parent {h p a : H} (hp : v.hash p = v.parentHash h) (ha : v.Descends p a) : v.Descends h a

namespace HeaderFields.Descends

variable {h : H}

lemma number_le {a : H} (ha : v.Descends h a) : (v.number a).toNat ≤ (v.number h).toNat := by
  induction ha with
  | refl h => exact le_refl _
  | parent hp _ ih =>
    have := v.number_parent _ _ hp
    omega

lemma trans {a b : H} (ha : v.Descends h a) (hb : v.Descends a b) : v.Descends h b := by
  induction ha with
  | refl h => exact hb
  | parent hp _ ih => exact .parent hp (ih hb)

/-- The ancestors above a number, the header itself first. -/
lemma above_iff {p a : H} {n : Nat} (hp : v.hash p = v.parentHash h) (hn : n < (v.number h).toNat) :
    a = h ∨ v.Descends p a ∧ n < (v.number a).toNat ↔ v.Descends h a ∧ n < (v.number a).toNat := by
  constructor
  · rintro (rfl | ⟨ha, hlt⟩)
    · exact ⟨.refl a, hn⟩
    · exact ⟨.parent hp ha, hlt⟩
  · rintro ⟨ha, hlt⟩
    cases ha with
    | refl => exact .inl rfl
    | parent hq ha =>
      cases v.hash_inj _ _ (hp.trans hq.symm)
      exact .inr ⟨ha, hlt⟩

lemma of_number_le {a b : H} (ha : v.Descends h a) (hb : v.Descends h b)
    (hle : (v.number b).toNat ≤ (v.number a).toNat) : v.Descends a b := by
  induction ha with
  | refl h => exact hb
  | parent hp ha ih =>
    cases hb with
    | refl h =>
      have := v.number_parent _ _ hp
      have := ha.number_le
      omega
    | parent hq hb =>
      cases v.hash_inj _ _ (hp.trans hq.symm)
      exact ih hb hle

lemma eq_of_number_eq {a b : H} (ha : v.Descends h a) (hb : v.Descends h b)
    (heq : v.number a = v.number b) : a = b := by
  cases ha.of_number_le hb (by rw [heq]) with
  | refl h => rfl
  | parent hp hb =>
    have := v.number_parent _ _ hp
    have := hb.number_le
    rw [heq] at *
    omega

end HeaderFields.Descends

lemma HeaderFields.Contiguous.descends {headers : List H} {last a : H} (hc : v.Contiguous headers)
    (hlast : headers.getLast? = some last) (ha : a ∈ headers) : v.Descends last a := by
  induction headers generalizing a with
  | nil => cases ha
  | cons h rest ih =>
    cases rest with
    | nil =>
      cases hlast
      rw [mem_singleton.1 ha]
      exact .refl _
    | cons next rest =>
      rw [getLast?_cons_cons] at hlast
      rcases mem_cons.1 ha with rfl | ha
      · have hnext : v.Descends next a := .parent (isChain_cons_cons.1 hc).1.symm (.refl a)
        exact (ih hc.tail hlast mem_cons_self).trans hnext
      · exact ih hc.tail hlast ha

lemma HeaderFields.Contiguous.parent_mem {first : H} {rest : List H} (hc : v.Contiguous (first :: rest))
    (hh : h ∈ first :: rest) : h = first ∨ ∃ q ∈ first :: rest, v.hash q = v.parentHash h := by
  obtain ⟨front, back, hsplit⟩ := append_of_mem hh
  cases front using List.reverseRecOn with
  | nil =>
    cases hsplit
    exact .inl rfl
  | append_singleton front q =>
    rw [hsplit, append_assoc] at hc
    refine .inr ⟨q, ?_, (isChain_cons_cons.1 (isChain_append.1 hc).2.1).1.symm⟩
    rw [hsplit]
    simp

/-- The ancestors of one of them are among them, or are those of the first one's parent. -/
lemma HeaderFields.Contiguous.mem_or_descends {first a : H} {rest : List H} (hc : v.Contiguous (first :: rest))
    (hh : h ∈ first :: rest) (ha : v.Descends h a) :
    a ∈ first :: rest ∨ ∃ p, v.hash p = v.parentHash first ∧ v.Descends p a := by
  induction ha with
  | refl h => exact .inl hh
  | @parent h p a hp ha ih =>
    rcases hc.parent_mem hh with rfl | ⟨q, hq, hlink⟩
    · exact .inr ⟨p, hp, ha⟩
    · cases v.hash_inj p q (hp.trans hlink.symm)
      exact ih hq

/-! ## Headers down to the genesis block -/

variable [DecidableEq κ] {db : HeaderDb H κ} {g : H}

variable (v g) in
/-- Every header is stored with its parent, down to the genesis block. -/
structure HeaderDb.Rooted (db : HeaderDb H κ) : Prop where
  zero : v.number g = 0
  genesis : db.Stored v g
  parent : ∀ h, db.Stored v h → h ≠ g → ∃ p, v.hash p = v.parentHash h ∧ db.Stored v p

namespace HeaderDb.Rooted

lemma parent_of_number (hr : db.Rooted v g) (hh : db.Stored v h) (hn : v.number h ≠ 0) :
    ∃ p, v.hash p = v.parentHash h ∧ db.Stored v p := by
  apply hr.parent h hh
  rintro rfl
  exact hn hr.zero

lemma stored_of_descends (hr : db.Rooted v g) {a : H} (ha : v.Descends h a) (hh : db.Stored v h) : db.Stored v a := by
  induction ha with
  | refl h => exact hh
  | @parent h p a hp _ ih =>
    have hn : v.number h ≠ 0 := by
      intro hzero
      have := v.number_parent h p hp
      rw [hzero, UInt64.toNat_zero] at this
      omega
    obtain ⟨q, hq, hst⟩ := hr.parent_of_number hh hn
    cases v.hash_inj p q (hp.trans hq.symm)
    exact ih hst

/-- A stored header has an ancestor of every number below its own. -/
lemma exists_ancestor (hr : db.Rooted v g) (hh : db.Stored v h) {n : UInt64} (hn : n ≤ v.number h) :
    ∃ a, v.Descends h a ∧ v.number a = n := by
  generalize hm : (v.number h).toNat = m
  induction m generalizing h with
  | zero =>
    refine ⟨h, .refl h, ?_⟩
    apply UInt64.toNat.inj
    rw [UInt64.le_iff_toNat_le] at hn
    omega
  | succ m ih =>
    by_cases heq : v.number h = n
    · exact ⟨h, .refl h, heq⟩
    · have hne : v.number h ≠ 0 := by
        intro hzero
        rw [hzero, UInt64.toNat_zero] at hm
        omega
      obtain ⟨p, hp, hst⟩ := hr.parent_of_number hh hne
      have hnum := v.number_parent h p hp
      have hle : n ≤ v.number p := by
        rw [UInt64.le_iff_toNat_le] at hn ⊢
        have : n.toNat ≠ (v.number h).toNat := fun h' => heq (UInt64.toNat.inj h'.symm)
        omega
      obtain ⟨a, ha, han⟩ := ih hst hle (by omega)
      exact ⟨a, .parent hp ha, han⟩

lemma descends_genesis (hr : db.Rooted v g) (hh : db.Stored v h) : v.Descends h g := by
  obtain ⟨a, ha, han⟩ := hr.exists_ancestor hh (n := 0) (UInt64.zero_le)
  by_cases hag : a = g
  · rwa [hag] at ha
  · obtain ⟨p, hp, -⟩ := hr.parent a (hr.stored_of_descends ha hh) hag
    have := v.number_parent a p hp
    rw [han, UInt64.toNat_zero] at this
    omega

end HeaderDb.Rooted

variable (v) in
/-- The canonical hashes are those of the header and its ancestors. -/
def HeaderDb.Assigns (db : HeaderDb H κ) (head : H) : Prop :=
  ∀ n k, db.canonical.lookup n = some k ↔ ∃ a, v.Descends head a ∧ v.number a = n ∧ v.hash a = k

end TurboOctopus.Core
