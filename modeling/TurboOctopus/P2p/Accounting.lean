import Mathlib.Algebra.BigOperators.Fin
import TurboOctopus.Lib.Runs
import TurboOctopus.P2p.Table
/-!
# The accounts of the node table

`Sound` says that the counters are those of the lists. The calls that keep it are
the `Regular` ones; the others are those that delete a record the table does not
have under that subnet, or push a counted replacement aside.
-/

namespace TurboOctopus.Discover

open Lib Netutil Function List DistinctNetSet

/-! ## What the lists hold -/

/-- The subnet that an address is counted under; local addresses are not counted. -/
def subnet (ip : IP) : Option (List UInt8) := if isLAN ip then none else some (key tableSubnet ip)

def Bucket.nodes (b : Bucket) : List Node := b.entries ++ b.replacements

/-- How many nodes of a subnet a bucket holds. -/
def held (buckets : Fin nBuckets → Bucket) (i : Fin nBuckets) (k : List UInt8) : Nat :=
  (buckets i).nodes.countP fun n => subnet n.ip = some k

/-- The counters are these numbers, for the buckets and summed up for the table. -/
structure Counters.Count (c : Counters) (h : Fin nBuckets → List UInt8 → Nat) : Prop where
  bucket : ∀ i k, (c.bucket i).count k = h i k
  table : ∀ k, c.table.count k = ∑ i, h i k

/-- One more in bucket `i`, if the address is counted. -/
def plus (h : Fin nBuckets → List UInt8 → Nat) (i : Fin nBuckets) (a : Option (List UInt8)) :
    Fin nBuckets → List UInt8 → Nat :=
  fun j k => h j k + if j = i ∧ a = some k then 1 else 0

structure Sound (t : Table) : Prop where
  entries_le : ∀ i, (t.buckets i).entries.length ≤ bucketSize
  replacements_le : ∀ i, (t.buckets i).replacements.length ≤ maxReplacements
  placed : ∀ i, ∀ n ∈ (t.buckets i).nodes, t.bucket n.id = i
  distinct : ∀ i, ((t.buckets i).nodes.map (·.id)).Nodup
  counted : t.ips.Count (held t.buckets)
  addressed : ∀ i, ∀ n ∈ (t.buckets i).nodes, n.ip ≠ []

/-! ## The counters -/

section Counters

variable {c : Counters} {h h' : Fin nBuckets → List UInt8 → Nat} {i : Fin nBuckets} {ip : IP}

lemma subnet_of_lan (hl : isLAN ip) : subnet ip = none := by simp [subnet, hl]

lemma subnet_of_not_lan (hl : ¬ isLAN ip) : subnet ip = some (key tableSubnet ip) := by simp [subnet, hl]

lemma plus_none : plus h i none = h := by
  funext j k
  simp [plus]

lemma sum_plus (a : Option (List UInt8)) (k : List UInt8) :
    ∑ j, plus h i a j k = ∑ j, h j k + if a = some k then 1 else 0 := by
  simp [plus, Finset.sum_add_distrib, ite_and]

namespace Counters

/-- Whether an address is let in depends on the counters only, so it is the same
however they were arrived at. -/
lemma Count.addIP_iff (hc : c.Count h) : (c.addIP i ip).2 = true ↔
    ip ≠ [] ∧ ∀ k, subnet ip = some k → h i k < bucketIPLimit ∧ ∑ j, h j k < tableIPLimit := by
  have htable := c.table.add_isSome ip
  have hbucket := (c.bucket i).add_isSome ip
  rw [hc.table] at htable
  rw [hc.bucket] at hbucket
  unfold addIP
  by_cases hnil : ip = []
  · simp [hnil]
  by_cases hlan : isLAN ip = true
  · simp [hnil, hlan, subnet_of_lan hlan]
  simp only [hnil, hlan, if_false, subnet_of_not_lan hlan, Option.some.injEq, forall_eq', ne_eq, not_false_eq_true, true_and]
  change (_ : Option _).isSome = decide (h i (key tableSubnet ip) < _) at hbucket
  cases ht : c.table.add ip with
  | none => simp_all
  | some table =>
    cases hb : (c.bucket i).add ip with
    | none => simp_all
    | some b => simp_all

lemma Count.addIP (hc : c.Count h) (i : Fin nBuckets) (ip : IP) :
    (c.addIP i ip).1.Count (if (c.addIP i ip).2 then plus h i (subnet ip) else h) := by
  unfold Counters.addIP
  by_cases hnil : ip = []
  · simpa [hnil] using hc
  by_cases hlan : isLAN ip = true
  · simpa [hnil, hlan, subnet_of_lan hlan, plus_none] using hc
  simp only [if_neg hnil, if_neg hlan, subnet_of_not_lan hlan]
  split
  · simpa using hc
  next table ht =>
    split
    · refine ⟨hc.bucket, fun k => ?_⟩
      -- the table had room, the bucket has not: the table gives the address back
      rw [count_remove, count_add ht, hc.table]
      simp
    next b hb =>
      refine ⟨fun j k => ?_, fun k => ?_⟩
      · by_cases hj : j = i
        · subst hj
          simp only [update_self, count_add hb, hc.bucket, plus, true_and, if_true, Option.some.injEq,
            eq_comm (a := k)]
          rfl
        · simp [hj, hc.bucket, plus]
      · simp only [if_true, sum_plus, count_add ht, hc.table, Option.some.injEq, eq_comm (a := k)]

lemma Count.removeIP_of (hc : c.Count h') (hb : ∀ j k, h j k = h' j k - if j = i ∧ subnet ip = some k then 1 else 0)
    (ht : ∀ k, ∑ j, h j k = ∑ j, h' j k - if subnet ip = some k then 1 else 0) : (c.removeIP i ip).Count h := by
  unfold Counters.removeIP
  by_cases hlan : isLAN ip = true
  · simp only [hlan, if_true]
    exact ⟨fun j k => by rw [hc.bucket, hb]; simp [subnet_of_lan hlan],
      fun k => by rw [hc.table, ht]; simp [subnet_of_lan hlan]⟩
  rw [subnet_of_not_lan hlan] at hb ht
  rw [if_neg hlan]
  refine ⟨fun j k => ?_, fun k => ?_⟩
  · by_cases hj : j = i
    · subst hj
      simp only [update_self, count_remove, hc.bucket, hb, true_and, Option.some.injEq, eq_comm (a := k)]
      rfl
    · simp [hj, hc.bucket, hb]
  · simp only [count_remove, hc.table, ht, Option.some.injEq, eq_comm (a := k)]

/-- An address that is counted in the bucket is taken away. -/
lemma Count.removeIP (hc : c.Count (plus h i (subnet ip))) : (c.removeIP i ip).Count h := by
  refine hc.removeIP_of (fun j k => ?_) fun k => ?_
  · simp [plus]
  · simp [sum_plus]

/-- An address of a subnet that is not in the table changes nothing. -/
lemma Count.removeIP_absent (hc : c.Count h) (ha : ∀ k, subnet ip = some k → ∑ j, h j k = 0) :
    (c.removeIP i ip).Count h := by
  refine hc.removeIP_of (fun j k => ?_) fun k => ?_
  · by_cases hk : subnet ip = some k
    · have hzero : h j k = 0 := (Finset.sum_eq_zero_iff.1 (ha k hk)) j (Finset.mem_univ j)
      simp [hzero]
    · simp [hk]
  · by_cases hk : subnet ip = some k
    · simp [ha k hk]
    · simp [hk]

end Counters

end Counters

/-! ## The lists -/

variable {b : Bucket} {e n : Node} {f : Fin nBuckets → Bucket} {i : Fin nBuckets} {l : List Node} {t : Table}

lemma deleteNode_of_none (h : l.find? (fun m => m.id = n.id) = none) : deleteNode l n = l :=
  eraseP_of_forall_not (find?_eq_none.1 h)

lemma deleteNode_perm (h : l.find? (fun m => m.id = n.id) = some e) : l.Perm (e :: deleteNode l n) := by
  induction l with
  | nil => cases h
  | cons m l ih =>
    by_cases hm : m.id = n.id
    · obtain rfl : m = e := by simpa [hm] using h
      simp [deleteNode, hm]
    · simp only [find?_cons, hm, decide_false] at h
      have hdel : deleteNode (m :: l) n = m :: deleteNode l n := by simp [deleteNode, hm]
      rw [hdel]
      exact ((ih h).cons m).trans (List.Perm.swap e m _)

lemma find_of_nodup (hd : (l.map (·.id)).Nodup) (he : e ∈ l) (hid : e.id = n.id) :
    (l.find? fun m => m.id = n.id) = some e := by
  cases hfind : l.find? fun m => m.id = n.id with
  | none => exact absurd (decide_eq_true hid) (find?_eq_none.1 hfind e he)
  | some m =>
    have hm : m.id = n.id := by simpa using find?_some hfind
    rw [inj_on_of_nodup_map hd (mem_of_find?_eq_some hfind) he (hm.trans hid.symm)]

lemma containsID_iff {id : ID} : containsID l id = true ↔ ∃ m ∈ l, m.id = id := by
  simp [containsID]

lemma held_update {m : Bucket} (hp : b.nodes.Perm (n :: m.nodes)) : held (update f i b) =
      plus (held (update f i m)) i (subnet n.ip) := by
  funext j k
  unfold held plus
  by_cases hj : j = i
  · subst hj
    simp only [update_self, hp.countP_eq, countP_cons]
    simp
  · simp [hj]

lemma held_grow (hp : b.nodes.Perm (n :: (f i).nodes)) : held (update f i b) = plus (held f) i (subnet n.ip) := by
  simpa using held_update (f := f) (i := i) hp

lemma held_shrink (hp : (f i).nodes.Perm (n :: b.nodes)) : held f = plus (held (update f i b)) i (subnet n.ip) := by
  simpa using held_update (f := f) (i := i) hp

section Sound

variable {t : Table} {i : Fin nBuckets} {n : Node} {c : Counters}

lemma Sound.withIPs (hs : Sound t) (hc : c.Count (held t.buckets)) : Sound { t with ips := c } :=
  { hs with counted := hc }

variable {b : Bucket}

/-- One bucket is changed: its nodes are old ones or belong there. -/
lemma Sound.setBucket (hs : Sound t) (he : b.entries.length ≤ bucketSize)
    (hr : b.replacements.length ≤ maxReplacements)
    (hn : ∀ n ∈ b.nodes, n ∈ (t.buckets i).nodes ∨ (t.bucket n.id = i ∧ n.ip ≠ [])) (hd : (b.nodes.map (·.id)).Nodup)
    (hc : c.Count (held (update t.buckets i b))) : Sound (t.setBucket i b c) := by
  have hbucket (j : Fin nBuckets) : (t.setBucket i b c).buckets j = if j = i then b else t.buckets j := by
    simp [Table.setBucket, update_apply]
  refine ⟨fun j => ?_, fun j => ?_, fun j => ?_, fun j => ?_, hc, fun j => ?_⟩ <;> rw [hbucket j] <;> split
  · exact he
  · exact hs.entries_le j
  · exact hr
  · exact hs.replacements_le j
  · intro m hm
    subst j
    exact (hn m hm).elim (hs.placed i m) And.left
  · exact hs.placed j
  · exact hd
  · exact hs.distinct j
  · intro m hm
    exact (hn m hm).elim (hs.addressed i m) And.right
  · exact hs.addressed j

lemma Sound.grow (hs : Sound t) (he : b.entries.length ≤ bucketSize)
    (hr : b.replacements.length ≤ maxReplacements) {rest : List Node} (hrest : rest.Sublist (t.buckets i).nodes)
    (hp : b.nodes.Perm (n :: rest)) (hfresh : ∀ m ∈ rest, m.id ≠ n.id) (hplace : t.bucket n.id = i) (hip : n.ip ≠ [])
    (hc : c.Count (held (update t.buckets i b))) : Sound (t.setBucket i b c) := by
  refine hs.setBucket he hr (fun m hm => ?_) ?_ hc
  · rcases mem_cons.1 (hp.mem_iff.1 hm) with rfl | hm
    · exact .inr ⟨hplace, hip⟩
    · exact .inl (hrest.subset hm)
  · rw [(hp.map _).nodup_iff, map_cons, nodup_cons]
    refine ⟨fun hmem => ?_, (hs.distinct i).sublist (hrest.map _)⟩
    obtain ⟨m, hm, hid⟩ := mem_map.1 hmem
    exact hfresh m hm hid

lemma Sound.shrink (hs : Sound t) (he : b.entries.length ≤ bucketSize)
    (hr : b.replacements.length ≤ maxReplacements) {e : Node} (hp : (t.buckets i).nodes.Perm (e :: b.nodes))
    (hc : c.Count (held (update t.buckets i b))) : Sound (t.setBucket i b c) := by
  refine hs.setBucket he hr (fun m hm => .inl ?_) ?_ hc
  · exact hp.mem_iff.2 (mem_cons_of_mem e hm)
  · have hd := (hp.map (·.id)).nodup_iff.1 (hs.distinct i)
    exact (nodup_cons.1 hd).2

lemma Sound.id_ne (hs : Sound t) {e : Node} {rest : List Node} (hp : (t.buckets i).nodes.Perm (e :: rest)) :
    ∀ m ∈ rest, m.id ≠ e.id := by
  intro m hm hid
  have hd := (hp.map (·.id)).nodup_iff.1 (hs.distinct i)
  exact (nodup_cons.1 hd).1 (mem_map.2 ⟨m, hm, hid⟩)

lemma plus_comm (h : Fin nBuckets → List UInt8 → Nat) (a a' : Option (List UInt8)) :
    plus (plus h i a) i a' = plus (plus h i a') i a := by
  funext j k
  unfold plus
  omega

lemma Sound.addReplacement (hs : Sound t) (hplace : t.bucket n.id = i)
    (hfresh : (t.ips.addIP i n.ip).2 = true → ∀ e ∈ (t.buckets i).entries, e.id ≠ n.id) : Sound (t.addReplacement i n) := by
  have hcount := hs.counted.addIP i n.ip
  unfold Table.addReplacement
  dsimp only
  split
  · exact hs
  next hnot =>
  split
  next hok =>
    rw [if_pos hok] at hcount
    have hip := (hs.counted.addIP_iff.1 hok).1
    have hnew : ∀ m ∈ (t.buckets i).nodes, m.id ≠ n.id := by
      intro m hm
      rcases mem_append.1 hm with hm | hm
      · exact hfresh hok m hm
      · exact fun hid => hnot (containsID_iff.2 ⟨m, hm, hid⟩)
    unfold pushNode
    split
    next hlt =>
      have hp : (⟨(t.buckets i).entries, n :: (t.buckets i).replacements⟩ : Bucket).nodes.Perm (n :: (t.buckets i).nodes) :=
        perm_middle
      refine hs.grow (hs.entries_le i) hlt (List.Sublist.refl _) hp hnew hplace hip ?_
      rwa [held_grow hp]
    next hfull =>
      have hlen := hs.replacements_le i
      have hne : (t.buckets i).replacements ≠ [] := fun hnil => hfull (by simp [hnil, maxReplacements])
      have hlast := getLast?_eq_getLast_of_ne_nil hne
      have hsplit := dropLast_append_getLast hne
      generalize (t.buckets i).replacements.getLast hne = last at hlast hsplit
      -- without the last replacement, the bucket is a step away from both the old and the new one
      let mid : Bucket := ⟨(t.buckets i).entries, (t.buckets i).replacements.dropLast⟩
      have hold : (t.buckets i).nodes.Perm (last :: mid.nodes) := by
        have happ : (t.buckets i).nodes = mid.nodes ++ [last] := by simp [Bucket.nodes, mid, hsplit]
        rw [happ]
        exact perm_append_singleton last mid.nodes
      have hp : (⟨(t.buckets i).entries, n :: (t.buckets i).replacements.dropLast⟩ : Bucket).nodes.Perm (n :: mid.nodes) :=
        perm_middle
      have hsub : mid.nodes.Sublist (t.buckets i).nodes := (dropLast_sublist _).append_left _
      simp only [hlast]
      refine hs.grow (hs.entries_le i) ?_ hsub hp (fun m hm => hnew m (hsub.subset hm)) hplace hip ?_
      · simp only [length_cons, length_dropLast, maxReplacements] at hlen hfull ⊢
        omega
      · rw [held_shrink hold, plus_comm] at hcount
        rw [held_update hp]
        exact hcount.removeIP
  next hno =>
    rw [if_neg hno] at hcount
    exact hs.withIPs hcount

/-- A replacement of this id whose address is counted would be dropped without its count. -/
def Table.Replaces (t : Table) (i : Fin nBuckets) (n : Node) : Prop :=
  (t.buckets i).entries.length < bucketSize ∧ (t.ips.addIP i n.ip).2 = true ∧
    ∃ r ∈ (t.buckets i).replacements, r.id = n.id ∧ ¬ isLAN r.ip

lemma Sound.addTo (hs : Sound t) (hplace : t.bucket n.id = i) {place : List Node → List Node}
    (hpl : ∀ l, l.length < bucketSize → (place l).Perm (n :: l))
    (hfresh : (t.ips.addIP i n.ip).2 = true → ∀ e ∈ (t.buckets i).entries, e.id ≠ n.id) (hreg : ¬ t.Replaces i n) :
    Sound (t.addTo i n place) := by
  have hcount := hs.counted.addIP i n.ip
  unfold Table.addTo
  dsimp only
  split
  · exact hs.addReplacement hplace hfresh
  next hroom =>
  rw [Nat.not_le] at hroom
  split
  next hok =>
    rw [if_pos hok] at hcount
    have hip := (hs.counted.addIP_iff.1 hok).1
    let mid : Bucket := ⟨(t.buckets i).entries, deleteNode (t.buckets i).replacements n⟩
    have hsub : mid.nodes.Sublist (t.buckets i).nodes := List.Sublist.append_left eraseP_sublist _
    -- the replacement that is dropped has no count
    have hmid : held (update t.buckets i mid) = held t.buckets ∧ ∀ m ∈ mid.nodes, m.id ≠ n.id := by
      cases hfind : (t.buckets i).replacements.find? fun m => m.id = n.id with
      | none =>
        have hsame : mid = t.buckets i := by simp only [mid, deleteNode_of_none hfind]
        rw [hsame, update_eq_self]
        refine ⟨rfl, fun m hm => (mem_append.1 hm).elim (hfresh hok m) fun hm hid => ?_⟩
        exact find?_eq_none.1 hfind m hm (decide_eq_true hid)
      | some r =>
        have hp : (t.buckets i).nodes.Perm (r :: mid.nodes) :=
          ((deleteNode_perm hfind).append_left (t.buckets i).entries).trans perm_middle
        have hrid : r.id = n.id := by simpa using find?_some hfind
        have hlan : isLAN r.ip = true := by
          by_contra hlan
          exact hreg ⟨hroom, hok, r, mem_of_find?_eq_some hfind, hrid, hlan⟩
        have hheld := held_shrink hp
        rw [subnet_of_lan hlan, plus_none] at hheld
        exact ⟨hheld.symm, fun m hm hid => hs.id_ne hp m hm (hid.trans hrid.symm)⟩
    have hp : (⟨place (t.buckets i).entries, mid.replacements⟩ : Bucket).nodes.Perm (n :: mid.nodes) :=
      (hpl _ hroom).append_right _
    refine hs.grow ?_ ?_ hsub hp hmid.2 hplace hip ?_
    · rw [(hpl _ hroom).length_eq]
      exact hroom
    · exact eraseP_sublist.length_le.trans (hs.replacements_le i)
    · rw [← hmid.1] at hcount
      rwa [held_update hp]
  next hno =>
    rw [if_neg hno] at hcount
    exact hs.withIPs hcount

lemma Sound.addSeenNode (hs : Sound t) (hreg : ¬ t.Replaces (t.bucket n.id) n) : Sound (t.addSeenNode n) := by
  unfold Table.addSeenNode
  dsimp only
  split
  · exact hs
  split
  · exact hs
  next hnot =>
    refine hs.addTo rfl (fun l _ => perm_append_singleton n l) (fun _ e he hid => ?_) hreg
    exact hnot (containsID_iff.2 ⟨e, he, hid⟩)

/-- What a bump leaves when it does not succeed: the counters of before, and an
entry whose new address does not fit. -/
lemma Sound.bumpInBucket (hs : Sound t) (hplace : t.bucket n.id = i) :
    Sound (t.bumpInBucket i n).1 ∧ ((t.bumpInBucket i n).2 = false →
      (t.bumpInBucket i n).1.buckets = t.buckets ∧ (t.bumpInBucket i n).1.self = t.self ∧
      (((t.bumpInBucket i n).1.ips.addIP i n.ip).2 = true → ∀ e ∈ (t.buckets i).entries, e.id ≠ n.id)) := by
  unfold Table.bumpInBucket
  dsimp only
  cases hfind : (t.buckets i).entries.find? fun e => e.id = n.id with
  | none => exact ⟨hs, fun _ => ⟨rfl, rfl, fun _ e he hid => find?_eq_none.1 hfind e he (decide_eq_true hid)⟩⟩
  | some e =>
    have hid : e.id = n.id := by simpa using find?_some hfind
    have hperm := deleteNode_perm hfind
    -- without the entry, the bucket is a step away from both the old and the new one
    let mid : Bucket := ⟨deleteNode (t.buckets i).entries n, (t.buckets i).replacements⟩
    have hold : (t.buckets i).nodes.Perm (e :: mid.nodes) := hperm.append_right _
    have hfresh : ∀ m ∈ mid.nodes, m.id ≠ n.id := fun m hm hmid => hs.id_ne hold m hm (hmid.trans hid.symm)
    have heip : e.ip ≠ [] := hs.addressed i e (hold.mem_iff.2 mem_cons_self)
    have hheld := held_shrink hold
    have front (c : Counters) (hip : n.ip ≠ []) (hc : c.Count (plus (held (update t.buckets i mid)) i (subnet n.ip))) :
        Sound (t.setBucket i ⟨n :: deleteNode (t.buckets i).entries n, (t.buckets i).replacements⟩ c) := by
      have hp : (⟨n :: deleteNode (t.buckets i).entries n, (t.buckets i).replacements⟩ : Bucket).nodes.Perm (n :: mid.nodes) :=
        List.Perm.refl _
      refine hs.grow ?_ (hs.replacements_le i) (eraseP_sublist.append_right _) hp hfresh hplace hip ?_
      · exact hperm.length_eq ▸ hs.entries_le i
      · rwa [held_update hp]
    have hcount := hs.counted
    rw [hheld] at hcount
    dsimp only
    split
    next heq =>
      refine ⟨front t.ips (ne_nil_of_equal heq heip) ?_, by simp⟩
      simpa only [subnet, isLAN_of_equal heq, key_of_equal heq] using hcount
    · have hremoved := hcount.removeIP
      have hadded := hremoved.addIP i n.ip
      split
      next hok =>
        rw [if_pos hok] at hadded
        exact ⟨front _ (hremoved.addIP_iff.1 hok).1 hadded, by simp⟩
      next hno =>
        rw [if_neg hno] at hadded
        -- the old address goes back in: it was counted within the limits
        have hback : (Counters.addIP ((t.ips.removeIP i e.ip).addIP i n.ip).1 i e.ip).2 = true := by
          refine hadded.addIP_iff.2 ⟨heip, fun k hk => ?_⟩
          have hb := (t.ips.bucket i).count_le k
          have ht := t.ips.table.count_le k
          rw [hcount.bucket] at hb
          rw [hcount.table, sum_plus] at ht
          simp only [plus, hk, true_and, if_true] at hb ht
          omega
        have hrestored := hadded.addIP i e.ip
        rw [if_pos hback] at hrestored
        refine ⟨hs.withIPs (by rwa [hheld]), fun _ => ⟨rfl, rfl, fun hok => absurd ?_ hno⟩⟩
        -- what fits with the old address there fits without it
        obtain ⟨hip, hfits⟩ := hrestored.addIP_iff.1 hok
        refine hremoved.addIP_iff.2 ⟨hip, fun k hk => ?_⟩
        have hk' := hfits k hk
        rw [sum_plus] at hk'
        simp only [plus] at hk'
        omega

lemma Sound.addVerifiedNode (hs : Sound t) (hreg : ¬ t.Replaces (t.bucket n.id) n) : Sound (t.addVerifiedNode n) := by
  obtain ⟨hsound, hfail⟩ := hs.bumpInBucket (n := n) rfl
  unfold Table.addVerifiedNode
  split
  · exact hs
  split
  · exact hs
  dsimp only
  split
  · exact hsound
  next hno =>
    obtain ⟨hbuckets, hself, hfresh⟩ := hfail (Bool.eq_false_iff.2 hno)
    refine hsound.addTo (by rw [Table.bucket, hself]; rfl) (fun l hl => ?_) (by rwa [hbuckets]) fun hrep => hreg ?_
    · simp [pushNode, hl]
    · obtain ⟨hroom, hok, hrest⟩ := hrep
      rw [hbuckets] at hroom hrest
      have hcounted := hsound.counted
      rw [hbuckets] at hcounted
      exact ⟨hroom, hs.counted.addIP_iff.2 (hcounted.addIP_iff.1 hok), hrest⟩

/-- The address of the record is counted as what leaves the table is: the same
subnet, or no count at all on either side. -/
def Table.Known (t : Table) (n : Node) (leaves : Option (List UInt8)) : Prop :=
  subnet n.ip = leaves ∨ (leaves = none ∧ ∀ j, ∀ m ∈ (t.buckets j).nodes, subnet m.ip ≠ subnet n.ip)

lemma Sound.removeIP (hs : Sound t) {a : Option (List UInt8)} {h : Fin nBuckets → List UInt8 → Nat}
    (hknown : t.Known n a) (hheld : held t.buckets = plus h i a) : (t.ips.removeIP i n.ip).Count h := by
  have hcount := hs.counted
  rw [hheld] at hcount
  rcases hknown with rfl | ⟨rfl, habsent⟩
  · exact hcount.removeIP
  · rw [plus_none] at hcount hheld
    refine hcount.removeIP_absent fun k hk => Finset.sum_eq_zero fun j _ => ?_
    rw [← hheld, held, countP_eq_zero]
    intro m hm hmk
    exact habsent j m hm ((of_decide_eq_true hmk).trans hk.symm)

lemma Sound.deleteInBucket (hs : Sound t)
    (hknown : t.Known n (((t.buckets i).entries.find? fun e => e.id = n.id).bind fun e => subnet e.ip)) :
    Sound (t.deleteInBucket i n) := by
  unfold Table.deleteInBucket
  dsimp only
  have hlen : (deleteNode (t.buckets i).entries n).length ≤ bucketSize :=
    eraseP_sublist.length_le.trans (hs.entries_le i)
  cases hfind : (t.buckets i).entries.find? fun e => e.id = n.id with
  | none =>
    rw [hfind] at hknown
    rw [deleteNode_of_none hfind]
    refine hs.setBucket (hs.entries_le i) (hs.replacements_le i) (fun m hm => .inl hm) (hs.distinct i) ?_
    rw [show (⟨(t.buckets i).entries, (t.buckets i).replacements⟩ : Bucket) = t.buckets i from rfl, update_eq_self]
    exact hs.removeIP hknown plus_none.symm
  | some e =>
    rw [hfind] at hknown
    have hp : (t.buckets i).nodes.Perm
        (e :: (⟨deleteNode (t.buckets i).entries n, (t.buckets i).replacements⟩ : Bucket).nodes) :=
      (deleteNode_perm hfind).append_right _
    exact hs.shrink hlen (hs.replacements_le i) hp (hs.removeIP hknown (held_shrink hp))

lemma Sound.replace (hs : Sound t) {last : Node} (k : Nat)
    (hknown : ∀ e, (t.buckets i).entries.getLast? = some e → e.id = last.id → t.Known last (subnet e.ip)) :
    Sound (t.replace i last k) := by
  unfold Table.replace
  dsimp only
  split
  · exact hs
  next e hlast =>
  split
  next hid =>
    have hsplit := dropLast_append_getLast? e hlast
    split
    · refine hs.deleteInBucket ?_
      have hd := (hs.distinct i).sublist ((sublist_append_left _ _).map _)
      have hfind := find_of_nodup hd (mem_of_getLast? hlast) hid
      rw [hfind]
      exact hknown e hlast hid
    next r hr =>
      -- the replacement drawn is the one that its id deletes
      have hd := (hs.distinct i).sublist ((sublist_append_right _ _).map _)
      have hrep := deleteNode_perm (find_of_nodup hd (mem_of_getElem? hr) rfl)
      have hp : (t.buckets i).nodes.Perm
          (e :: (⟨(t.buckets i).entries.dropLast ++ [r], deleteNode (t.buckets i).replacements r⟩ : Bucket).nodes) := by
        have hswap : (t.buckets i).nodes.Perm
            (((t.buckets i).entries.dropLast ++ [e]) ++ r :: deleteNode (t.buckets i).replacements r) := by
          unfold Bucket.nodes
          rw [hsplit]
          exact hrep.append_left _
        refine hswap.trans ?_
        simp only [Bucket.nodes, append_assoc, singleton_append]
        exact perm_middle
      refine hs.shrink ?_ ?_ hp (hs.removeIP (hknown e hlast hid) (held_shrink hp))
      · have hlen := hs.entries_le i
        rw [← hsplit] at hlen
        simpa using hlen
      · exact eraseP_sublist.length_le.trans (hs.replacements_le i)
  · exact hs

end Sound

/-! ## Runs -/

/-- The calls that keep the counters right: an added node has no counted
replacement under its own id that it would push aside, and a record that is
deleted or replaced has an address that is counted as the entry's is. -/
def Table.Regular (t : Table) : Call → Prop
  | .initDone => True
  | .addSeenNode n | .addVerifiedNode n => ¬ t.Replaces (t.bucket n.id) n
  | .delete n =>
    t.Known n (((t.buckets (t.bucket n.id)).entries.find? fun e => e.id = n.id).bind fun e => subnet e.ip)
  | .replace i last _ =>
    ∀ e, (t.buckets i).entries.getLast? = some e → e.id = last.id → t.Known last (subnet e.ip)

lemma Sound.call (hs : Sound t) {call : Call} (hreg : t.Regular call) : Sound (t.call call) := by
  cases call with
  | initDone => exact { hs with }
  | addSeenNode n => exact hs.addSeenNode hreg
  | addVerifiedNode n => exact hs.addVerifiedNode hreg
  | delete n => exact hs.deleteInBucket hreg
  | replace i last k => exact hs.replace k hreg

lemma sound_newTable (self : ID) : Sound (newTable self) := by
  refine ⟨?_, ?_, ?_, ?_, ⟨?_, ?_⟩, ?_⟩ <;> simp [newTable, Bucket.nodes, held, count_empty]

/-- The calls of a run, each in the state it meets. -/
abbrev Calls (ok : Table → Call → Prop) : Table → List Call → Table → Prop := Run fun t call t' => ok t call ∧ t' = t.call call

/-- What is promised of the table after every call. -/
structure Accounted (t : Table) : Prop extends Sound t where
  bucket_limit : ∀ i k, held t.buckets i k ≤ bucketIPLimit
  table_limit : ∀ k, ∑ i, held t.buckets i k ≤ tableIPLimit
  empty_accepts : (∀ i, (t.buckets i).nodes = []) → ∀ n : Node, n.id ≠ t.self → n.ip ≠ [] →
    n ∈ ((t.addSeenNode n).buckets (t.bucket n.id)).entries ∧
      (t.initDone → n ∈ ((t.addVerifiedNode n).buckets (t.bucket n.id)).entries)

lemma Sound.accounted (hs : Sound t) : Accounted t where
  toSound := hs
  bucket_limit i k := hs.counted.bucket i k ▸ count_le _ k
  table_limit k := hs.counted.table k ▸ count_le _ k
  empty_accepts hempty n hself hip := by
    have hb (i : Fin nBuckets) : t.buckets i = ⟨[], []⟩ := by
      have hnil := hempty i
      rw [Bucket.nodes, append_eq_nil_iff] at hnil
      cases hbi : t.buckets i with
      | mk entries replacements => simpa [hbi] using hnil
    have hok : (t.ips.addIP (t.bucket n.id) n.ip).2 = true := by
      refine hs.counted.addIP_iff.2 ⟨hip, fun k _ => ?_⟩
      simp [held, hempty, bucketIPLimit, tableIPLimit]
    constructor
    · simp [Table.addSeenNode, Table.addTo, Table.setBucket, hself, hb, hok, containsID, bucketSize]
    · intro hinit
      simp [Table.addVerifiedNode, Table.bumpInBucket, Table.addTo, Table.setBucket, hself, hb, hok, hinit, bucketSize, pushNode]

theorem regular_calls_accounted {self : ID} {calls : List Call} {t : Table}
    (hrun : Calls Table.Regular (newTable self) calls t) : Accounted t := by
  have hs : Sound t := Run.inv Sound hrun (sound_newTable self) fun t call t' hs hstep => hstep.2 ▸ hs.call hstep.1
  exact hs.accounted

def nodeAt (id : ID) : Node := ⟨id, [8, 8, 8, 8]⟩

theorem regular_calls_accounted_one :
    ∃ t, Calls Table.Regular (newTable 0) [.addSeenNode (nodeAt 1), .delete (nodeAt 1)] t ∧ Accounted t := by
  have hadd : (newTable 0).Regular (.addSeenNode (nodeAt 1)) := by
    rintro ⟨-, -, r, hr, -⟩
    cases hr
  have hdelete : ((newTable 0).call (.addSeenNode (nodeAt 1))).Regular (.delete (nodeAt 1)) := .inl (by decide +kernel)
  have hrun : Calls Table.Regular (newTable 0) [.addSeenNode (nodeAt 1), .delete (nodeAt 1)] _ :=
    .cons ⟨hadd, rfl⟩ (.single ⟨hdelete, rfl⟩)
  exact ⟨_, hrun, regular_calls_accounted hrun⟩

/-- Node 4 is never in the table; each time it is deleted the count of its subnet goes
down, and a third node of the subnet gets into a bucket. -/
theorem unknown_delete_uncounts : ¬ ∀ self calls t, Calls (fun _ _ => True) (newTable self) calls t → Accounted t := by
  intro h
  let calls : List Call := [.addSeenNode (nodeAt 1), .delete (nodeAt 4), .addSeenNode (nodeAt 2), .delete (nodeAt 4),
    .addSeenNode (nodeAt 3)]
  have hrun : Calls (fun _ _ => True) (newTable 0) calls (calls.foldl Table.call (newTable 0)) :=
    (Run.of_fun Table.call (newTable 0) calls).mono fun _ _ _ hstep => ⟨trivial, hstep⟩
  have hlimit := (h 0 calls _ hrun).bucket_limit (bucketAtDistance 0) (key tableSubnet [8, 8, 8, 8])
  have hthree : held (calls.foldl Table.call (newTable 0)).buckets (bucketAtDistance 0) (key tableSubnet [8, 8, 8, 8]) = 3 := by
    decide +kernel
  rw [hthree] at hlimit
  exact absurd hlimit (by decide)

end TurboOctopus.Discover
