import TurboOctopus.Parlia.Recents
/-!
# Ancestors

A block's ancestors, newest first, are a path down to the genesis. The engine
walks it through a slice of parents it searches by number, and through the
chain. Where all of the path is in one of the two the walk finds the right
header (`findAncientHeader_path`), and the snapshot is a function of the path
alone: `refSnapshot`.
-/
namespace TurboOctopus.Parlia

open Lib TurboOctopus.Types List

variable {e : Engine} {chain : ChainReader} {parents : List Header}

/-! ## Paths -/

/-- Headers down to a genesis, newest first, each the child of the next. -/
inductive Engine.Path (e : Engine) : List Header → Prop
  | genesis {g : Header} : g.num = 0 → e.Path [g]
  | child {h p : Header} {path : List Header} : e.Path (p :: path) → h.num = p.num + 1 →
      h.parentHash = e.hashOf p → e.Path (h :: p :: path)

variable {path : List Header}

lemma Engine.Path.num {h : Header} (hp : e.Path (h :: path)) : h.num = UInt64.ofNat path.length := by
  induction path generalizing h with
  | nil =>
    cases hp with
    | genesis hg => exact hg
  | cons p path ih =>
    cases hp with
    | child hp hnum _ =>
      rw [hnum, ih hp, length_cons, UInt64.ofNat_add]
      rfl

variable {b : Block} {bs : List Block} {g p x : Header} {k : Nat}

lemma Engine.Path.drop (hp : e.Path path) (hk : k < path.length) : e.Path (path.drop k) := by
  induction k generalizing path with
  | zero => exact hp
  | succ k ih =>
    cases hp with
    | genesis _ => exact absurd hk (by simp)
    | child hp _ _ => exact ih hp (by simpa using hk)

/-- The number `k` blocks down. -/
lemma Engine.Path.num_of_getElem? {h a : Header} (hp : e.Path (h :: path))
    (hk : (h :: path)[k]? = some a) : a.num = h.num - UInt64.ofNat k := by
  induction k generalizing h path with
  | zero =>
    cases hk
    exact (UInt64.sub_zero _).symm
  | succ k ih =>
    cases hp with
    | genesis _ => cases hk
    | child hp hnum _ =>
      rw [List.getElem?_cons_succ] at hk
      rw [ih hp hk, hnum, UInt64.ofNat_add]
      grind

/-- What a node needs to walk a path: ascending parents, none of which is taken
for a block of the path, and every block among the parents or in the chain. -/
structure Sees (e : Engine) (chain : ChainReader) (parents : List Header) (path : List Header) : Prop where
  ascending : parents.Pairwise fun p q => p.num < q.num
  no_collision : ∀ a ∈ path, ∀ p ∈ parents, e.hashOf p = e.hashOf a → p = a
  available : ∀ a ∈ path, a ∈ parents ∨ chain.getHeader (e.hashOf a) a.num = some a

lemma Sees.mono {path' : List Header} (hs : Sees e chain parents path) (hsub : path' ⊆ path) :
    Sees e chain parents path' :=
  ⟨hs.ascending, fun a ha => hs.no_collision a (hsub ha), fun a ha => hs.available a (hsub ha)⟩

/-! ## The walk -/

/-- The search ends at a parent that is there. -/
lemma candidateIndex_eq {i : Nat} (hasc : parents.Pairwise fun p q => p.num < q.num)
    (hi : parents[i]? = some p) : candidateIndex parents p.num = i := by
  have hlt : ∀ {j k : Nat} {x y : Header}, parents[j]? = some x → parents[k]? = some y → j < k → x.num < y.num := by
    intro j k x y hj hk hjk
    obtain ⟨hj', rfl⟩ := List.getElem?_eq_some_iff.1 hj
    obtain ⟨hk', rfl⟩ := List.getElem?_eq_some_iff.1 hk
    exact pairwise_iff_getElem.1 hasc j k hj' hk' hjk
  have hil : i < parents.length := (List.getElem?_eq_some_iff.1 hi).1
  refine search_eq ?_ hil.le ?_ ?_
  · intro j k hjk hk hj
    obtain ⟨x, hx⟩ : ∃ x, parents[j]? = some x := ⟨_, List.getElem?_eq_getElem (by omega)⟩
    obtain ⟨y, hy⟩ : ∃ y, parents[k]? = some y := ⟨_, List.getElem?_eq_getElem hk⟩
    simp only [hx, hy, decide_eq_true_eq] at hj ⊢
    rcases Nat.eq_or_lt_of_le hjk with rfl | hjk
    · cases hx.symm.trans hy
      exact hj
    · exact UInt64.le_trans hj (UInt64.le_of_lt (hlt hx hy hjk))
  · intro j hj
    obtain ⟨x, hx⟩ : ∃ x, parents[j]? = some x := ⟨_, List.getElem?_eq_getElem (by omega)⟩
    simp only [hx, decide_eq_false_iff_not]
    exact UInt64.not_le.2 (hlt hx hi hj)
  · intro _
    simp only [hi, decide_eq_true_eq]
    exact UInt64.le_refl _

/-- A parent that is in the slice is found there, and nothing else is. -/
lemma findParent_eq (hasc : parents.Pairwise fun p q => p.num < q.num)
    (hnc : ∀ q ∈ parents, e.hashOf q = e.hashOf p → q = p) (hnum : x.num = p.num + 1)
    (hpar : x.parentHash = e.hashOf p) :
    e.findParent chain parents x = if p ∈ parents then some p else chain.getHeader (e.hashOf p) p.num := by
  have hheight : x.num - 1 = p.num := by rw [hnum]; grind
  unfold Engine.findParent
  rw [hheight, hpar]
  dsimp only
  by_cases hmem : p ∈ parents
  · obtain ⟨i, hi⟩ := List.getElem?_of_mem hmem
    rw [candidateIndex_eq hasc hi, hi, if_pos hmem]
    simp
  · rw [if_neg hmem]
    split
    · rename_i q hq
      split
      · rename_i hmatch
        have hqm := mem_of_getElem? hq
        exact absurd (hnc q hqm hmatch.2 ▸ hqm) hmem
      · rfl
    · rfl

lemma findParent_path (hp : e.Path (x :: p :: path))
    (hs : Sees e chain parents [p]) : e.findParent chain parents x = some p := by
  cases hp with
  | child _ hnum hpar =>
    have hp := mem_singleton_self p
    rw [findParent_eq hs.ascending (hs.no_collision p hp) hnum hpar]
    split
    · rfl
    · rename_i hmem
      exact (hs.available p hp).resolve_left hmem

/-- The walk finds the ancestor it is after. -/
lemma findAncientHeader_path (hp : e.Path (x :: path)) (hk : k ≤ path.length)
    (hs : Sees e chain parents (path.take k)) : e.findAncientHeader chain parents k x = (x :: path)[k]? := by
  induction k generalizing x path with
  | zero => rfl
  | succ k ih =>
    cases path with
    | nil => exact absurd hk (by simp)
    | cons p path =>
      have hpar : e.findParent chain parents x = some p :=
        findParent_path hp (hs.mono (by simp))
      unfold Engine.findAncientHeader
      rw [hpar]
      cases hp with
      | child hp _ _ =>
        rw [List.getElem?_cons_succ]
        exact ih hp (by simpa using hk) (hs.mono fun a ha => by
          rw [take_succ_cons]
          exact mem_cons_of_mem p ha)

/-! ## Snapshots of a path -/

/-- The snapshot of the first block of a path, from the path alone. -/
def Engine.refSnapshot (e : Engine) : List Header → Except Err Snapshot
  | [] => .error .errUnknownBlock
  | [g] => do
    let vals ← extraValidators g
    .ok (newSnapshot 0 (e.hashOf g) vals)
  | h :: p :: path => do
    let s ← e.refSnapshot (p :: path)
    e.applyOne (fun k _ => (h :: p :: path)[k]?) s h

variable {s s' : Snapshot} {h : Header} {path : List Header}

lemma refSnapshot_child : e.refSnapshot (h :: p :: path) = .ok s' ↔ ∃ s, e.refSnapshot (p :: path) = .ok s ∧
      e.applyOne (fun k _ => (h :: p :: path)[k]?) s h = .ok s' := by
  rw [Engine.refSnapshot, bind_ok_iff]

lemma applyOne_sized {find : Nat → Header → Option Header} (hs : s.Sized) (ha : e.applyOne find s h = .ok s') :
    s'.Sized := by
  obtain ⟨-, -, t, ht, rfl⟩ := applyOne_ok_iff.1 ha
  obtain ⟨v, hv⟩ := applyHeader_ok ht
  exact hv.sized hs

lemma refSnapshot_spec (hp : e.Path (h :: path)) (hr : e.refSnapshot (h :: path) = .ok s) :
    s.Sized ∧ s.number = h.num ∧ s.hash = e.hashOf h := by
  induction path generalizing h s with
  | nil =>
    cases hp with
    | genesis hg =>
      obtain ⟨vals, hvals, hr⟩ := bind_ok_iff.1 hr
      cases hr
      exact ⟨newSnapshot_sized _ _ (length_extraValidators hvals), hg.symm, rfl⟩
  | cons p path ih =>
    cases hp with
    | child hp hnum hpar =>
      obtain ⟨t, ht, ha⟩ := refSnapshot_child.1 hr
      obtain ⟨hsized, -, -⟩ := ih hp ht
      obtain ⟨hn, -, u, -, rfl⟩ := applyOne_ok_iff.1 ha
      exact ⟨applyOne_sized hsized ha, hn.symm, rfl⟩

/-- A path with a snapshot has one at every block. -/
lemma refSnapshot_low {top low : List Header} (hlow : low ≠ []) (hr : e.refSnapshot (top ++ low) = .ok s) :
    ∃ base, e.refSnapshot low = .ok base := by
  induction top generalizing s with
  | nil => exact ⟨s, hr⟩
  | cons x top ih =>
    cases hq : top ++ low with
    | nil => exact absurd (append_eq_nil_iff.1 hq).2 hlow
    | cons q rest =>
      rw [cons_append, hq] at hr
      obtain ⟨t, ht, -⟩ := refSnapshot_child.1 hr
      exact ih (hq ▸ ht)

/-- A switch never reaches below the genesis. -/
lemma switch_depth (hp : e.Path (h :: path)) (hs : s.Sized) (hsw : e.Switches s h.num) :
    s.validators.card / 2 ≤ path.length := by
  unfold Snapshot.Sized at hs
  have hcard : (UInt64.ofNat (s.validators.card / 2)).toNat = s.validators.card / 2 := u64_ofNat (by omega)
  calc s.validators.card / 2 = h.num.toNat % e.config.epoch.toNat := by
        rw [← hcard, ← hsw.2, UInt64.toNat_mod]
    _ ≤ h.num.toNat := Nat.mod_le _ _
    _ ≤ path.length := by
        rw [hp.num, UInt64.toNat_ofNat']
        exact Nat.mod_le _ _

/-- On a path it sees, the engine applies a header as the path says. -/
lemma apply_path (hp : e.Path (h :: path)) (hs : s.Sized)
    (hsee : e.Switches s h.num → Sees e chain parents (path.take (s.validators.card / 2))) :
    e.apply s [h] chain parents = e.applyOne (fun k _ => (h :: path)[k]?) s h := by
  rw [apply_singleton_eq]
  exact applyOne_congr fun hsw => findAncientHeader_path hp (switch_depth hp hs hsw) (hsee hsw)

/-! ## Lineages -/

/-- The blocks above genesis `g`, newest first, that calls of `apply` have
accepted, each call on a node that sees the ancestors of its headers. -/
inductive Lineage (e : Engine) (g : Header) : List Block → Prop
  | genesis {vals : List Address} : g.num = 0 → extraValidators g = .ok vals →
      Lineage e g [(g, newSnapshot 0 (e.hashOf g) vals)]
  | call {b : Block} {bs : List Block} {headers parents : List Header} {chain : ChainReader} {s : Snapshot} :
      Lineage e g (b :: bs) → e.apply b.2 headers chain parents = .ok s →
      Sees e chain parents (headers.reverse ++ (b :: bs).map Prod.fst).tail →
      Lineage e g ((e.trace chain parents b.2 headers).reverse ++ b :: bs)

/-- The same, one header at a time. -/
inductive Steps (e : Engine) (g : Header) : List Block → Prop
  | genesis {vals : List Address} : g.num = 0 → extraValidators g = .ok vals →
      Steps e g [(g, newSnapshot 0 (e.hashOf g) vals)]
  | block {b p : Block} {bs : List Block} {parents : List Header} {chain : ChainReader} :
      Steps e g (p :: bs) → e.apply p.2 [b.1] chain parents = .ok b.2 →
      Sees e chain parents ((p :: bs).map Prod.fst) → Steps e g (b :: p :: bs)

lemma subset_tail_append_cons (l m : List Header) (h : Header) : m ⊆ (l ++ h :: m).tail := by
  intro x hx
  cases l with
  | nil => exact hx
  | cons y l => exact mem_append_right l (mem_cons_of_mem h hx)

lemma Steps.call {headers : List Header} (hb : Steps e g (b :: bs)) (ha : e.apply b.2 headers chain parents = .ok s)
    (hsee : Sees e chain parents (headers.reverse ++ (b :: bs).map Prod.fst).tail) :
    Steps e g ((e.trace chain parents b.2 headers).reverse ++ b :: bs) := by
  induction headers generalizing b bs with
  | nil => exact hb
  | cons h headers ih =>
    obtain ⟨t, ht, ha⟩ := apply_cons.1 ha
    rw [reverse_cons, append_assoc] at hsee
    have hstep : Steps e g ((h, t) :: b :: bs) :=
      .block hb ht (hsee.mono (subset_tail_append_cons _ _ _))
    unfold Engine.trace
    rw [ht]
    simp only [reverse_cons, append_assoc]
    exact ih hstep ha hsee

lemma Lineage.steps (hl : Lineage e g bs) : Steps e g bs := by
  induction hl with
  | genesis hg hvals => exact .genesis hg hvals
  | call _ ha hsee ih => exact ih.call ha hsee

/-- The blocks form a path, and each snapshot is that of its path. -/
lemma Steps.ref (hb : Steps e g (b :: bs)) :
    e.Path ((b :: bs).map Prod.fst) ∧ e.refSnapshot ((b :: bs).map Prod.fst) = .ok b.2 := by
  induction bs generalizing b with
  | nil =>
    cases hb with
    | genesis hg hvals => exact ⟨.genesis hg, bind_ok_iff.2 ⟨_, hvals, rfl⟩⟩
  | cons p bs ih =>
    cases hb with
    | block hp ha hsee =>
      obtain ⟨hpath, href⟩ := ih hp
      obtain ⟨hsized, hnum, hhash⟩ := refSnapshot_spec hpath href
      obtain ⟨hn, hpar, -⟩ := apply_singleton.1 ha
      have hpath' : e.Path ((b :: p :: bs).map Prod.fst) :=
        .child hpath (hn.trans (by rw [hnum])) (hpar.trans hhash)
      refine ⟨hpath', refSnapshot_child.2 ⟨p.2, href, ?_⟩⟩
      rw [← ha]
      exact (apply_path hpath' hsized fun _ => hsee.mono (take_subset _ _)).symm

end TurboOctopus.Parlia
