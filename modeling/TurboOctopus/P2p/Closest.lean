import TurboOctopus.Lib.BigEndian
import TurboOctopus.Lib.Words
import TurboOctopus.P2p.Table
/-!
# The closest nodes

`findnodeByID` pushes every entry of the table into a list of bounded length that
is kept in the order of the distances.
-/
namespace TurboOctopus.Discover

open Lib List

/-- The loop of `DistCmp`, from the first byte on. -/
def distCmpFrom : List UInt8 → List UInt8 → List UInt8 → Int
  | t :: target, x :: a, y :: b =>
    let da := x ^^^ t
    let db := y ^^^ t
    if db < da then 1 else if da < db then -1 else distCmpFrom target a b
  | _, _, _ => 0

def distCmp (target a b : ID) : Int :=
  distCmpFrom (fixedBytes 32 target.toNat) (fixedBytes 32 a.toNat) (fixedBytes 32 b.toNat)

def Node.dist (target : ID) (n : Node) : Nat := (n.id ^^^ target).toNat

lemma xor_byte (n x t : Nat) :
    (UInt8.ofNat (x / 256 ^ n) ^^^ UInt8.ofNat (t / 256 ^ n)).toNat = (x ^^^ t) / 256 ^ n % 256 := by
  have hpow : 256 ^ n = 2 ^ (8 * n) := (Nat.pow_mul 2 8 n).symm
  rw [UInt8.toNat_xor, UInt8.toNat_ofNat', UInt8.toNat_ofNat', hpow, ← Nat.shiftRight_eq_div_pow, ← Nat.shiftRight_eq_div_pow,
    ← Nat.shiftRight_eq_div_pow, Nat.shiftRight_xor_distrib]
  exact (Nat.xor_mod_two_pow (n := 8)).symm

lemma distCmpFrom_pos_iff {n t x y : Nat} (h : (x ^^^ t) / 256 ^ n = (y ^^^ t) / 256 ^ n) :
    0 < distCmpFrom (fixedBytes n t) (fixedBytes n x) (fixedBytes n y) ↔ y ^^^ t < x ^^^ t := by
  induction n with
  | zero =>
    rw [Nat.pow_zero, Nat.div_one, Nat.div_one] at h
    simp [distCmpFrom, fixedBytes, h]
  | succ n ih =>
    rw [Nat.pow_succ, ← Nat.div_div_eq_div_mul, ← Nat.div_div_eq_div_mul] at h
    simp only [fixedBytes_succ, distCmpFrom, UInt8.lt_iff_toNat_lt, xor_byte]
    -- the bytes before are the same, so this one decides unless it is the same too
    split_ifs with hlt hgt
    · exact iff_of_true one_pos (Nat.lt_of_div_lt_div (c := 256 ^ n) (by omega))
    · exact iff_of_false (by decide) (Nat.lt_of_div_lt_div (c := 256 ^ n) (by omega)).asymm
    · exact ih (by omega)

variable {target : ID} {a b : Node}

lemma distCmp_pos_iff : 0 < distCmp target a.id b.id ↔ b.dist target < a.dist target := by
  have hzero (z : ID) : z.toNat / 256 ^ 32 = 0 := Nat.div_eq_of_lt z.isLt
  exact distCmpFrom_pos_iff (by rw [← BitVec.toNat_xor, ← BitVec.toNat_xor, hzero, hzero])

lemma Node.dist_inj (h : a.dist target = b.dist target) : a.id = b.id := by
  simpa using BitVec.eq_of_toNat_eq h

def push (target : ID) (maxElems : Int) (entries : List Node) (n : Node) : List Node :=
  let ix := search entries.length fun i => 0 < distCmp target (entries.getD i n).id n.id
  let grown := if entries.length < maxElems then entries ++ [n] else entries
  -- the entries from `ix` on move up, and the last one goes
  if ix = grown.length then grown else grown.take ix ++ n :: (grown.drop ix).dropLast

/-- The nearest of the candidates, in order, and the rest of them. -/
structure Closest (target : ID) (nresults : Int) (candidates found : List Node) : Prop where
  length_eq : found.length = min nresults.toNat candidates.length
  sorted : found.Pairwise fun a b => a.dist target < b.dist target
  nearest : ∃ rest, (found ++ rest).Perm candidates ∧ ∀ a ∈ found, ∀ b ∈ rest, a.dist target < b.dist target

section Push
variable {maxElems : Int} {n : Node} {entries candidates : List Node}

lemma push_eq (maxElems : Int) (n : Node) (hsorted : entries.Pairwise fun a b => a.dist target < b.dist target) :
    ∃ l l', entries = l ++ l' ∧ (∀ b ∈ l, b.dist target ≤ n.dist target) ∧ (∀ b ∈ l', n.dist target < b.dist target) ∧
      push target maxElems entries n = if entries.length < maxElems then l ++ n :: l' else (l ++ n :: l').dropLast := by
  simp only [push, distCmp_pos_iff]
  obtain ⟨hle, hbefore, hafter⟩ := search_spec (n := entries.length)
    (f := fun i => n.dist target < (entries.getD i n).dist target) fun i j hij hj hi => by
      grind [pairwise_iff_getElem]
  generalize search _ _ = ix at hle hbefore hafter ⊢
  refine ⟨entries.take ix, entries.drop ix, (take_append_drop ..).symm, fun b hb => ?_, fun b hb => ?_, ?_⟩
  · grind [mem_take_iff_getElem]
  · grind [mem_drop_iff_getElem]
  · by_cases hroom : entries.length < maxElems
    · simp only [if_pos hroom]
      rw [if_neg (by simp; omega), take_append_of_le_length hle, drop_append_of_le_length hle, dropLast_concat]
    · simp only [if_neg hroom]
      rcases hle.eq_or_lt with rfl | hlt
      · simp
      · rw [if_neg hlt.ne, dropLast_append_cons, dropLast_cons_of_ne_nil (by simpa using hlt)]

lemma Closest.push (h : Closest target maxElems candidates entries) (hn : ∀ b ∈ candidates, b.id ≠ n.id) :
    Closest target maxElems (candidates ++ [n]) (push target maxElems entries n) := by
  obtain ⟨rest, hperm, hrest⟩ := h.nearest
  obtain ⟨l, l', rfl, hl, hl', hpush⟩ := push_eq maxElems n h.sorted
  have hlen := h.length_eq
  have hcount := hperm.length_eq
  have hsorted : (l ++ n :: l').Pairwise fun a b => a.dist target < b.dist target := by
    obtain ⟨hbefore, hafter, hacross⟩ := pairwise_append.1 h.sorted
    refine pairwise_append.2 ⟨hbefore, hafter.cons hl', fun b hb => forall_mem_cons.2 ⟨(hl b hb).lt_of_ne fun he => ?_, hacross b hb⟩⟩
    exact hn b (hperm.subset (mem_append_left _ (mem_append_left _ hb))) (Node.dist_inj he)
  have hperm' : ((l ++ n :: l') ++ rest).Perm (candidates ++ [n]) := by
    rw [append_assoc, cons_append]
    exact perm_middle.trans (((append_assoc .. ▸ hperm).cons n).trans (perm_append_singleton n candidates).symm)
  rw [hpush]
  simp only [length_append] at hlen hcount ⊢
  split
  next hroom =>
    obtain rfl : rest = [] := length_eq_zero_iff.1 (by omega)
    exact ⟨by simp; omega, hsorted, [], hperm', fun _ _ _ hb => absurd hb not_mem_nil⟩
  next hfull =>
    obtain ⟨found, last, hlast⟩ := (eq_nil_or_concat' (l ++ n :: l')).resolve_left (by simp)
    have hlen' := congrArg length hlast
    simp only [length_append, length_cons, length_nil] at hlen'
    rw [hlast] at hperm' hsorted ⊢
    rw [dropLast_concat]
    obtain ⟨hfound, -, hbefore⟩ := pairwise_append.1 hsorted
    refine ⟨by simp; omega, hfound, last :: rest, by simpa using hperm', fun a ha => ?_⟩
    have hlt := hbefore a ha last mem_cons_self
    refine forall_mem_cons.2 ⟨hlt, fun b hb => ?_⟩
    have hmem {c : Node} (hc : c ∈ found ++ [last]) : c = n ∨ c ∈ l ++ l' := mem_cons.1 (perm_middle.subset (hlast ▸ hc))
    rcases hmem (mem_append_left _ ha) with rfl | ha
    · -- the one that goes is another
      exact hlt.trans (hrest last ((hmem (by simp)).resolve_left fun he => hlt.ne' (he ▸ rfl)) b hb)
    · exact hrest a ha b hb

lemma closest_foldl_push (target : ID) (nresults : Int) {l : List Node} (hdistinct : (l.map (·.id)).Nodup) :
    Closest target nresults l (l.foldl (Discover.push target nresults) []) := by
  induction l using reverseRecOn with
  | nil => exact ⟨by simp, .nil, [], .nil, fun _ ha => absurd ha not_mem_nil⟩
  | append_singleton l n ih =>
    rw [map_append, nodup_append] at hdistinct
    rw [foldl_append]
    exact (ih hdistinct.1).push fun b hb => hdistinct.2.2 _ (mem_map_of_mem hb) _ mem_cons_self

end Push

def Table.entries (tab : Table) : List Node := (finRange nBuckets).flatMap fun i => (tab.buckets i).entries

/-- `checks` has the `livenessChecks` of the nodes. -/
def Table.findnodeByID (checks : Node → Nat) (tab : Table) (target : ID) (nresults : Int) (preferLive : Bool) : List Node :=
  let nodes := tab.entries.foldl (push target nresults) []
  let liveNodes := tab.entries.foldl (fun live n => if preferLive ∧ 0 < checks n then push target nresults live n else live) []
  if preferLive ∧ 0 < liveNodes.length then liveNodes else nodes

def Table.candidates (checks : Node → Nat) (tab : Table) (preferLive : Bool) : List Node :=
  if preferLive ∧ ∃ n ∈ tab.entries, 0 < checks n then tab.entries.filter (0 < checks ·) else tab.entries

theorem findnodeByID_closest (checks : Node → Nat) (tab : Table) (target : ID) (nresults : Int) (preferLive : Bool)
    (hdistinct : (tab.entries.map (·.id)).Nodup) :
    Closest target nresults (tab.candidates checks preferLive) (tab.findnodeByID checks target nresults preferLive) := by
  have hnodes := closest_foldl_push target nresults hdistinct
  have hlive := closest_foldl_push target nresults (hdistinct.sublist ((filter_sublist (p := (0 < checks ·))).map _))
  rw [foldl_filter] at hlive
  unfold Table.findnodeByID Table.candidates
  cases preferLive with
  | false => simpa using hnodes
  | true =>
    simp only [true_and, decide_eq_true_eq] at hlive ⊢
    have hcount := hlive.length_eq
    by_cases hsome : ∃ n ∈ tab.entries, 0 < checks n
    · rw [if_pos hsome]
      split
      · exact hlive
      next hzero =>
        -- there are live nodes, but none may be returned
        have hpos : 0 < (tab.entries.filter (0 < checks ·)).length := by simpa [length_filter_pos_iff] using hsome
        have hnone : nresults.toNat = 0 := by omega
        rw [length_eq_zero_iff.1 (hnodes.length_eq.trans (by simp [hnone]))]
        exact ⟨by simp [hnone], .nil, _, .refl _, fun _ ha => absurd ha not_mem_nil⟩
    · have hnil : tab.entries.filter (0 < checks ·) = [] := by simpa using hsome
      rw [hnil, length_nil, Nat.min_zero] at hcount
      rw [if_neg hsome, if_neg (by omega)]
      exact hnodes

/-- Two nodes, and one is asked for. -/
def twoNodes : Table := { newTable 0 with buckets := fun i => ⟨if i.val = 3 then [⟨6, []⟩, ⟨5, []⟩] else [], []⟩ }

theorem findnodeByID_closest_one : twoNodes.findnodeByID (fun _ => 0) 4 1 true = [⟨5, []⟩] ∧
    Closest 4 1 (twoNodes.candidates (fun _ => 0) true) [⟨5, []⟩] := by
  have hfound : twoNodes.findnodeByID (fun _ => 0) 4 1 true = [⟨5, []⟩] := by decide +kernel
  exact ⟨hfound, hfound ▸ findnodeByID_closest (fun _ => 0) twoNodes 4 1 true (by decide +kernel)⟩

end TurboOctopus.Discover
