import TurboOctopus.Parlia.Ancestry
import TurboOctopus.Parlia.Engine
/-!
# What the snapshot caches change

A batch of headers is verified against the parents before it in the batch, which
the chain does not have yet. Looking for a snapshot to start from, the engine
pops the headers it gathers from those parents. A header that switches the set
then misses its own parent, unless it is the lowest one gathered or its parent is
stored (`Engine.Blocked`). How far the engine gathers depends on the caches, so
the answer does too (`snapshot_batch_iff`).
-/
namespace TurboOctopus.Parlia

open Lib TurboOctopus.Types List Engine

variable {e : Engine} {chain : ChainReader} {batch stored : List Header}

/-! ## Paths in range -/

variable {p x : Header} {parents path : List Header} {s : Snapshot}

lemma Engine.Path.num_toNat {h : Header} (hp : e.Path (h :: path))
    (hfit : (h :: path).length ≤ 2 ^ 64) : h.num.toNat = path.length := by
  rw [hp.num]
  exact u64_ofNat (by rw [length_cons] at hfit; omega)

/-- The numbers go down, as long as they are in range. -/
lemma Engine.Path.descending (hp : e.Path path) (hfit : path.length ≤ 2 ^ 64) :
    path.Pairwise fun a b => b.num < a.num := by
  induction hp with
  | genesis _ => exact pairwise_singleton _ _
  | @child h p path hp hnum hpar ih =>
    have hfit' : (p :: path).length ≤ 2 ^ 64 := by rw [length_cons] at hfit; omega
    have hh : h.num.toNat = (p :: path).length := (Engine.Path.child hp hnum hpar).num_toNat hfit
    have hpn : p.num.toNat = path.length := hp.num_toNat hfit'
    have hlt : p.num < h.num := by
      rw [UInt64.lt_iff_toNat_lt, hh, hpn, length_cons]
      omega
    refine pairwise_cons.2 ⟨forall_mem_cons.2 ⟨hlt, fun b hb => ?_⟩, ih hfit'⟩
    exact UInt64.lt_trans ((pairwise_cons.1 (ih hfit')).1 b hb) hlt

/-! ## A batch on top of the chain -/

/-- The headers of a batch that come before the one under verification, newest
first, and below them what the chain has stored, down to the genesis. No two of
them have one hash. -/
structure BatchOver (e : Engine) (chain : ChainReader) (batch stored : List Header) : Prop where
  path : e.Path (batch ++ stored)
  stored_ne : stored ≠ []
  fits : (batch ++ stored).length ≤ 2 ^ 64
  injective : ∀ a ∈ batch ++ stored, ∀ b ∈ batch ++ stored, e.hashOf a = e.hashOf b → a = b
  get_stored : ∀ a ∈ stored, chain.getHeader (e.hashOf a) a.num = some a
  get_batch : ∀ a ∈ batch, chain.getHeader (e.hashOf a) a.num = none
  genesis : chain.getHeaderByNumber 0 = stored.getLast?

/-- The caches hold nothing but the snapshots of the path. -/
def Caches.Correct (c : Caches) (e : Engine) (path : List Header) : Prop :=
  ∀ h rest s, h :: rest <:+ path → c.recentSnaps (e.hashOf h) = some s ∨ c.db (e.hashOf h) = some s →
    e.refSnapshot (h :: rest) = .ok s

/-- Of two neighbours among the headers gathered above `low`, the upper one
switches the set and has to walk down, and the lower one is in the batch. -/
def Engine.Blocked (e : Engine) (batch top low : List Header) : Prop :=
  ∃ post x y pre s, top = post ++ x :: y :: pre ∧ y ∈ batch ∧ e.refSnapshot (y :: pre ++ low) = .ok s ∧
    e.Switches s x.num ∧ 2 ≤ s.validators.card

lemma blocked_cons {top low : List Header} : e.Blocked batch (x :: top) low ↔ e.Blocked batch top low ∨
      ∃ y pre s, top = y :: pre ∧ y ∈ batch ∧ e.refSnapshot (y :: pre ++ low) = .ok s ∧ e.Switches s x.num ∧
      2 ≤ s.validators.card := by
  constructor
  · rintro ⟨post, x', y, pre, s, htop, hy, hs⟩
    cases post with
    | nil =>
      cases htop
      exact .inr ⟨y, pre, s, rfl, hy, hs⟩
    | cons z post =>
      cases htop
      exact .inl ⟨post, x', y, pre, s, rfl, hy, hs⟩
  · rintro (⟨post, x', y, pre, s, rfl, hy, hs⟩ | ⟨y, pre, s, rfl, hy, hs⟩)
    · exact ⟨x :: post, x', y, pre, s, rfl, hy, hs⟩
    · exact ⟨[], x, y, pre, s, rfl, hy, hs⟩

/-! ## Applying what was gathered -/

/-- A walk that has no parent to start with ends there. -/
lemma findAncientHeader_none (hp : e.findParent chain parents x = none)
    {k : Nat} (hk : 1 ≤ k) : e.findAncientHeader chain parents k x = none := by
  cases k with
  | zero => omega
  | succ k =>
    unfold findAncientHeader
    rw [hp]

/-- What a walk through the rest of the parents and the chain meets: the headers
popped from the batch are gone, and everything below a stored one is there. -/
structure Popped (e : Engine) (chain : ChainReader) (batch ps top low : List Header) : Prop where
  path : e.Path (top ++ low)
  low_ne : low ≠ []
  ascending : ps.Pairwise fun p q => p.num < q.num
  no_collision : ∀ a ∈ top ++ low, ∀ p ∈ ps, e.hashOf p = e.hashOf a → p = a
  low_there : ∀ a ∈ low, a ∈ ps ∨ chain.getHeader (e.hashOf a) a.num = some a
  top_gone : ∀ a ∈ top, a ∈ batch → a ∉ ps ∧ chain.getHeader (e.hashOf a) a.num = none
  top_there : ∀ post y pre, top = post ++ y :: pre → y ∉ batch →
    ∀ a ∈ y :: pre, chain.getHeader (e.hashOf a) a.num = some a

variable {ps top low : List Header}

lemma Popped.tail (hp : Popped e chain batch ps (x :: top) low) : Popped e chain batch ps top low where
  __ := hp
  path := hp.path.drop (k := 1) (by
    have := length_pos_of_ne_nil hp.low_ne
    simp only [length_append, length_cons]
    omega)
  no_collision a ha := hp.no_collision a (mem_cons_of_mem x ha)
  top_gone a ha := hp.top_gone a (mem_cons_of_mem x ha)
  top_there post y pre htop := hp.top_there (x :: post) y pre (by rw [htop]; rfl)

/-- Unless the parent was popped from the batch, all ancestors are there. -/
lemma Popped.sees (hp : Popped e chain batch ps top low) (hhead : ∀ y pre, top = y :: pre → y ∉ batch) :
    Sees e chain ps (top ++ low) := by
  refine ⟨hp.ascending, hp.no_collision, fun a ha => ?_⟩
  rcases mem_append.1 ha with ha | ha
  · cases htop : top with
    | nil => rw [htop] at ha; exact absurd ha not_mem_nil
    | cons y pre =>
      rw [htop] at ha
      exact .inr (hp.top_there [] y pre htop (hhead y pre htop) a ha)
  · exact hp.low_there a ha

/-- One gathered header, applied on the snapshot of its parent. -/
lemma Popped.apply_one {t : Snapshot} (hp : Popped e chain batch ps (x :: top) low)
    (ht : e.refSnapshot (top ++ low) = .ok t) :
    e.apply t [x] chain ps = .ok s ↔ e.applyOne (fun k _ => (x :: (top ++ low))[k]?) t x = .ok s ∧
      ¬ ∃ y pre, top = y :: pre ∧ y ∈ batch ∧ e.Switches t x.num ∧ 2 ≤ t.validators.card := by
  have hpath : e.Path (x :: (top ++ low)) := hp.path
  obtain ⟨q, rest, hq⟩ := exists_cons_of_ne_nil (append_ne_nil_of_right_ne_nil top hp.low_ne)
  have hsized : t.Sized := by
    have hpt := hp.tail.path
    rw [hq] at hpt ht
    exact (refSnapshot_spec hpt ht).1
  by_cases hblock : ∃ y pre, top = y :: pre ∧ y ∈ batch ∧ e.Switches t x.num ∧ 2 ≤ t.validators.card
  · refine iff_of_false ?_ (fun h => h.2 hblock)
    obtain ⟨y, pre, rfl, hy, hsw, hcard⟩ := hblock
    intro ha
    obtain ⟨-, -, u, hu, -⟩ := apply_singleton.1 ha
    obtain ⟨v, hv⟩ := applyHeader_ok hu
    obtain ⟨hyps, hydb⟩ := hp.top_gone y (by simp) hy
    have hnone : e.findParent chain ps x = none := by
      cases hpath with
      | child _ hnum hpar =>
        rw [findParent_eq hp.ascending (hp.no_collision y (by simp)) hnum hpar, if_neg hyps, hydb]
    rcases hv.next with ⟨hnsw, -⟩ | ⟨-, c, vals, hc, -⟩
    · exact hnsw hsw
    · rw [findAncientHeader_none hnone (by omega)] at hc
      cases hc
  · rw [apply_path hpath hsized, and_iff_left hblock]
    intro hsw
    by_cases hcard : 2 ≤ t.validators.card
    · refine (hp.tail.sees fun y pre htop hy => ?_).mono (take_subset _ _)
      exact hblock ⟨y, pre, htop, hy, hsw, hcard⟩
    · rw [show t.validators.card / 2 = 0 by omega]
      exact ⟨hp.ascending, fun a ha => absurd ha not_mem_nil, fun a ha => absurd ha not_mem_nil⟩

lemma Popped.apply_iff {base : Snapshot} (hp : Popped e chain batch ps top low)
    (hbase : e.refSnapshot low = .ok base) :
    e.apply base top.reverse chain ps = .ok s ↔ e.refSnapshot (top ++ low) = .ok s ∧ ¬ e.Blocked batch top low := by
  induction top generalizing s with
  | nil =>
    have hnb : ¬ e.Blocked batch [] low := by
      rintro ⟨post, x, y, pre, t, h, -⟩
      exact absurd h.symm (by simp)
    rw [and_iff_left hnb, nil_append, hbase]
    exact Iff.rfl
  | cons x top ih =>
    rw [reverse_cons, apply_append, blocked_cons]
    obtain ⟨q, rest, hq⟩ := exists_cons_of_ne_nil (append_ne_nil_of_right_ne_nil top hp.low_ne)
    have href : e.refSnapshot (x :: top ++ low) = .ok s ↔ ∃ t, e.refSnapshot (top ++ low) = .ok t ∧
        e.applyOne (fun k _ => (x :: (top ++ low))[k]?) t x = .ok s := by
      rw [cons_append, hq]
      exact refSnapshot_child
    rw [href]
    constructor
    · rintro ⟨t, ht, ha⟩
      obtain ⟨hrt, hnb⟩ := (ih hp.tail).1 ht
      obtain ⟨hone, hnot⟩ := (hp.apply_one hrt).1 ha
      refine ⟨⟨t, hrt, hone⟩, ?_⟩
      rintro (hb | ⟨y, pre, t', htop, hy, ht', hsw⟩)
      · exact hnb hb
      · rw [← htop] at ht'
        cases hrt.symm.trans ht'
        exact hnot ⟨y, pre, htop, hy, hsw⟩
    · rintro ⟨⟨t, hrt, hone⟩, hnb⟩
      refine ⟨t, (ih hp.tail).2 ⟨hrt, fun hb => hnb (.inl hb)⟩, (hp.apply_one hrt).2 ⟨hone, ?_⟩⟩
      rintro ⟨y, pre, htop, hy, hsw⟩
      exact hnb (.inr ⟨y, pre, t, htop, hy, htop ▸ hrt, hsw⟩)

/-! ## Gathering -/

/-- The snapshot of a block that the caches hold. -/
def Caches.cached (c : Caches) (e : Engine) (h : Header) : Option Snapshot :=
  (c.recentSnaps (e.hashOf h)).or (c.loadSnapshot h.num (e.hashOf h))

/-- How many headers are gathered before a snapshot is found. -/
def Engine.depth (e : Engine) (c : Caches) : List Header → Nat
  | h :: p :: path => if (c.cached e h).isSome then 0 else e.depth c (p :: path) + 1
  | _ => 0

variable {c : Caches} {h : Header} {rest : List Header}

lemma depth_lt (h : Header) (rest : List Header) : e.depth c (h :: rest) < (h :: rest).length := by
  induction rest generalizing h with
  | nil => exact Nat.one_pos
  | cons p rest ih =>
    unfold depth
    have := ih p
    split
    · exact Nat.succ_pos _
    · simp only [length_cons] at this ⊢
      omega

lemma Caches.Correct.cached (hc : c.Correct e path) (hsuf : h :: rest <:+ path)
    (hs : c.cached e h = some s) : e.refSnapshot (h :: rest) = .ok s := by
  unfold Caches.cached at hs
  rcases Option.or_eq_some_iff.1 hs with hs | ⟨-, hs⟩
  · exact hc h rest s hsuf (.inl hs)
  · unfold Caches.loadSnapshot at hs
    split at hs
    · exact hc h rest s hsuf (.inr hs)
    · cases hs

lemma findBase_of_cached (hs : c.cached e h = some s) : e.findBase chain h.num (e.hashOf h) c = .ok (some s) c := by
  unfold findBase
  unfold Caches.cached at hs
  cases hr : c.recentSnaps (e.hashOf h) with
  | some t =>
    rw [hr] at hs
    cases hs
    rfl
  | none =>
    rw [hr, Option.none_or] at hs
    rw [hs]

lemma findBase_of_uncached (hs : c.cached e h = none) (hn : h.num ≠ 0) :
    e.findBase chain h.num (e.hashOf h) c = .ok none c := by
  unfold Caches.cached at hs
  obtain ⟨hr, hd⟩ := Option.or_eq_none_iff.1 hs
  unfold findBase
  rw [hr, hd]
  exact if_neg hn

lemma findBase_of_genesis (hs : c.cached e h = none) (hn : h.num = 0) (hg : chain.getHeaderByNumber 0 = some h) :
    e.findBase chain h.num (e.hashOf h) c =
      match extraValidators h with
      | .ok vals => .ok (some (newSnapshot 0 (e.hashOf h) vals)) (c.store (newSnapshot 0 (e.hashOf h) vals))
      | .error err => .error err c := by
  unfold Caches.cached at hs
  obtain ⟨hr, hd⟩ := Option.or_eq_none_iff.1 hs
  unfold findBase
  rw [hr, hd, hn]
  rw [if_pos rfl]
  cases hx : extraValidators h with
  | ok vals => simp only [hg, hx]
  | error err => simp only [hg, hx]

lemma BatchOver.pop (hb : BatchOver e chain (h :: batch) stored) : BatchOver e chain batch stored where
  __ := hb
  path := hb.path.drop (k := 1) (by
    have := length_pos_of_ne_nil hb.stored_ne
    simp only [length_append, length_cons]
    omega)
  fits := by
    have := hb.fits
    simp only [length_append, length_cons] at this ⊢
    omega
  injective a ha b hb' := hb.injective a (mem_cons_of_mem h ha) b (mem_cons_of_mem h hb')
  get_batch a ha := hb.get_batch a (mem_cons_of_mem h ha)

lemma BatchOver.down (hb : BatchOver e chain [] (h :: p :: rest)) :
    BatchOver e chain [] (p :: rest) where
  path := hb.path.drop (k := 1) (by simp)
  stored_ne := cons_ne_nil p rest
  fits := by
    have := hb.fits
    simp only [nil_append, length_cons] at this ⊢
    omega
  injective a ha b hb' := hb.injective a (mem_cons_of_mem h ha) b (mem_cons_of_mem h hb')
  get_stored a ha := hb.get_stored a (mem_cons_of_mem h ha)
  get_batch a ha := absurd ha not_mem_nil
  genesis := by rw [hb.genesis, getLast?_cons_cons]

/-- The next header down, and what is left of the batch. -/
lemma BatchOver.takeHeader (hb : BatchOver e chain batch stored) (hpath : batch ++ stored = h :: p :: rest) :
    e.takeHeader chain h.num (e.hashOf h) batch.reverse = .ok (h, batch.tail.reverse) := by
  unfold Engine.takeHeader
  cases batch with
  | nil =>
    obtain rfl : stored = h :: p :: rest := hpath
    rw [reverse_nil, getLast?_nil]
    rw [hb.get_stored h mem_cons_self]
    rfl
  | cons x batch =>
    obtain ⟨rfl, -⟩ := List.cons.inj hpath
    rw [reverse_cons, getLast?_append_of_ne_nil _ (by simp)]
    simp only [getLast?_singleton, dropLast_concat, tail_cons]
    rw [failIf_of_not (by simp)]
    rfl

lemma resultOf_bind_ok {α β : Type} {x : EngineM α} {f : α → EngineM β} {c c' : Caches} {a : α}
    (hx : x c = .ok a c') : resultOf ((x >>= f) c) = resultOf (f a c') := by
  rw [run_bind_of_ok hx]

/-- The engine gathers down to the first block it has a snapshot of. -/
lemma gather_batch (hb : BatchOver e chain batch stored) (hc : c.Correct e (batch ++ stored))
    (hpath : batch ++ stored = h :: rest) (fuel : Nat) (hf : rest.length < fuel) (acc : List Header) :
    resultOf (e.gather chain fuel h.num (e.hashOf h) batch.reverse acc c) =
      (e.refSnapshot ((h :: rest).drop (e.depth c (h :: rest)))).map fun base =>
        (base, ((h :: rest).take (e.depth c (h :: rest))).reverse ++ acc,
          (batch.drop (e.depth c (h :: rest))).reverse) := by
  induction fuel generalizing batch stored h rest acc with
  | zero => omega
  | succ fuel ih =>
    unfold gather
    have hsuf : h :: rest <:+ batch ++ stored := hpath ▸ suffix_refl _
    cases hs : c.cached e h with
    | some s =>
      have hdepth : e.depth c (h :: rest) = 0 := by
        cases rest with
        | nil => rfl
        | cons p rest => rw [depth, hs]; rfl
      have href : e.refSnapshot ((h :: rest).drop 0) = .ok s := hc.cached hsuf hs
      rw [resultOf_bind_ok (findBase_of_cached hs), hdepth, href]
      rfl
    | none =>
      cases rest with
      | nil =>
        have hstored : batch = [] ∧ stored = [h] := by
          rcases append_eq_singleton_iff.1 hpath with ⟨hb', hs'⟩ | ⟨-, hs'⟩
          · exact ⟨hb', hs'⟩
          · exact absurd hs' hb.stored_ne
        have hnum : h.num = 0 := by
          have hp := hb.path
          rw [hpath] at hp
          exact hp.num
        have hg : chain.getHeaderByNumber 0 = some h := by rw [hb.genesis, hstored.2]; rfl
        have hbase := findBase_of_genesis hs hnum hg
        have hdepth : e.depth c [h] = 0 := rfl
        have href : e.refSnapshot ([h].drop 0) =
            extraValidators h >>= fun vals => .ok (newSnapshot 0 (e.hashOf h) vals) := rfl
        rw [hdepth, href]
        cases hv : extraValidators h with
        | ok vals =>
          rw [hv] at hbase
          rw [resultOf_bind_ok hbase]
          rfl
        | error err =>
          rw [hv] at hbase
          rw [run_bind_of_error hbase]
          rfl
      | cons p rest =>
        have hp := hb.path
        have hfit := hb.fits
        rw [hpath] at hp hfit
        have hnum : h.num ≠ 0 := by
          intro hzero
          have := hp.num_toNat hfit
          rw [hzero] at this
          exact absurd this (by simp)
        have hdepth : e.depth c (h :: p :: rest) = e.depth c (p :: rest) + 1 := by
          rw [depth, hs]
          rfl
        have htake := hb.takeHeader hpath
        rw [resultOf_bind_ok (findBase_of_uncached hs hnum)]
        rw [htake, resultOf_bind_ok (lift_ok _ c), hdepth]
        dsimp only
        cases hp with
        | child _ hpn hpar =>
          have hdown : h.num - 1 = p.num := by rw [hpn]; grind
          rw [hdown, hpar]
          have hf' : rest.length < fuel := by rw [length_cons] at hf; omega
          cases batch with
          | nil =>
            obtain rfl : stored = h :: p :: rest := hpath
            have hc' : c.Correct e ([] ++ p :: rest) :=
              fun h' r s hsuf' => hc h' r s (hsuf'.trans (suffix_cons h (p :: rest)))
            rw [tail_nil, ih hb.down hc' rfl hf']
            simp
          | cons x batch =>
            obtain ⟨rfl, hrest⟩ := List.cons.inj hpath
            have hc' : c.Correct e (batch ++ stored) :=
              fun h' r s hsuf' => hc h' r s (hsuf'.trans (suffix_cons x (batch ++ stored)))
            rw [tail_cons, ih hb.pop hc' hrest hf']
            simp

/-! ## The snapshot of a batch -/

lemma snapshot_ok_iff {number : UInt64} {hash : Hash} : resultOf (e.snapshot chain number hash parents c) = .ok s ↔
      ∃ base headers ps, resultOf (e.gather chain (number.toNat + 1) number hash parents [] c) =
      .ok (base, headers, ps) ∧ e.apply base headers chain ps = .ok s := by
  unfold snapshot
  cases hg : e.gather chain (number.toNat + 1) number hash parents [] c with
  | error err c' =>
    rw [run_bind_of_error hg]
    exact ⟨nofun, fun ⟨_, _, _, h, _⟩ => nomatch h⟩
  | ok r c' =>
    obtain ⟨base, headers, ps⟩ := r
    rw [run_bind_of_ok hg]
    dsimp only
    cases ha : e.apply base headers chain ps with
    | error err =>
      refine iff_of_false nofun ?_
      rintro ⟨base', headers', ps', h, ha'⟩
      cases h
      rw [ha] at ha'
      cases ha'
    | ok t =>
      rw [run_bind_of_ok (lift_ok t c')]
      constructor
      · intro h
        cases h
        exact ⟨base, headers, ps, rfl, ha⟩
      · rintro ⟨base', headers', ps', h, ha'⟩
        cases h
        rw [ha] at ha'
        cases ha'
        rfl

/-- A header below one that is not in the batch is stored. -/
lemma mem_stored_of_cut {post pre : List Header} {y : Header} (hpre : post ++ y :: pre <+: batch ++ stored)
    (hy : y ∉ batch) : ∀ a ∈ y :: pre, a ∈ stored := by
  obtain ⟨tl, htl⟩ := hpre
  rw [append_assoc] at htl
  rcases append_eq_append_iff.1 htl with ⟨m, hm, htl⟩ | ⟨m, -, htl⟩
  · -- the batch would reach past `post`, and hold `y`
    cases m with
    | nil =>
      rw [nil_append] at htl
      intro a ha
      rw [← htl]
      exact mem_append_left tl ha
    | cons z m =>
      obtain ⟨rfl, -⟩ := List.cons.inj htl
      exact absurd (by rw [hm]; simp) hy
  · intro a ha
    rw [htl]
    exact mem_append_right m (mem_append_left tl ha)

lemma BatchOver.popped (hb : BatchOver e chain batch stored) {d : Nat} (hd : d < (batch ++ stored).length) :
    Popped e chain batch (batch.drop d).reverse ((batch ++ stored).take d) ((batch ++ stored).drop d) := by
  have hdesc := hb.path.descending hb.fits
  have hsub : ∀ a ∈ batch.drop d, a ∈ (batch ++ stored).drop d := by
    intro a ha
    rw [drop_append]
    exact mem_append_left _ ha
  have hps : ∀ p ∈ (batch.drop d).reverse, p ∈ batch ++ stored := by
    intro p hp
    exact mem_append_left _ (mem_of_mem_drop (mem_reverse.1 hp))
  refine ⟨?_, ?_, ?_, ?_, ?_, ?_, ?_⟩
  · rw [take_append_drop]
    exact hb.path
  · rw [Ne, drop_eq_nil_iff]
    omega
  · rw [pairwise_reverse]
    exact hdesc.sublist ((drop_sublist d batch).trans (sublist_append_left batch stored))
  · rw [take_append_drop]
    exact fun a ha p hp heq => hb.injective p (hps p hp) a ha heq
  · intro a ha
    rw [drop_append] at ha
    rcases mem_append.1 ha with ha | ha
    · exact .inl (mem_reverse.2 ha)
    · exact .inr (hb.get_stored a (mem_of_mem_drop ha))
  · intro a ha hbatch
    refine ⟨fun hmem => ?_, hb.get_batch a hbatch⟩
    have hlow := hsub a (mem_reverse.1 hmem)
    rw [← take_append_drop d (batch ++ stored), pairwise_append] at hdesc
    exact absurd (hdesc.2.2 a ha a hlow) (UInt64.lt_irrefl _)
  · intro post y pre htop hy a ha
    have hpre : post ++ y :: pre <+: batch ++ stored := htop ▸ take_prefix d (batch ++ stored)
    exact hb.get_stored a (mem_stored_of_cut hpre hy a ha)

/-- With correct caches the answer is the snapshot of the path, unless a header
is blocked. -/
lemma snapshot_batch_iff (hb : BatchOver e chain batch stored) (hc : c.Correct e (batch ++ stored))
    (hpath : batch ++ stored = h :: rest) :
    resultOf (e.snapshot chain h.num (e.hashOf h) batch.reverse c) = .ok s ↔
      e.refSnapshot (batch ++ stored) = .ok s ∧
      ¬ e.Blocked batch ((batch ++ stored).take (e.depth c (batch ++ stored)))
        ((batch ++ stored).drop (e.depth c (batch ++ stored))) := by
  have hp := hb.path
  have hfit := hb.fits
  rw [hpath] at hp hfit
  have hnum := hp.num_toNat hfit
  have hd : e.depth c (batch ++ stored) < (batch ++ stored).length := by
    rw [hpath]
    exact depth_lt h rest
  have hpop := hb.popped hd
  rw [snapshot_ok_iff, gather_batch hb hc hpath _ (by omega), ← hpath]
  constructor
  · rintro ⟨base, headers, ps, hg, ha⟩
    cases hbase : e.refSnapshot ((batch ++ stored).drop (e.depth c (batch ++ stored))) with
    | error err => rw [hbase] at hg; cases hg
    | ok base' =>
      rw [hbase] at hg
      cases hg
      rw [append_nil] at ha
      have hres := (hpop.apply_iff hbase).1 ha
      rwa [take_append_drop] at hres
  · rintro ⟨hr, hnb⟩
    rw [← take_append_drop (e.depth c (batch ++ stored)) (batch ++ stored)] at hr
    obtain ⟨base, hbase⟩ := refSnapshot_low hpop.low_ne hr
    refine ⟨base, ((batch ++ stored).take (e.depth c (batch ++ stored))).reverse,
      (batch.drop (e.depth c (batch ++ stored))).reverse, ?_, (hpop.apply_iff hbase).2 ⟨hr, hnb⟩⟩
    rw [hbase]
    simp [Except.map]

/-- Two contents of the caches, both correct, give the same answer exactly if
the path has no snapshot at all, or both or neither of them leave a header
blocked. -/
theorem caches_agree_iff (e : Engine) (chain : ChainReader) (batch stored : List Header) (h : Header)
    (rest : List Header) (hb : BatchOver e chain batch stored) (hpath : batch ++ stored = h :: rest)
    (c₁ c₂ : Caches) (hc₁ : c₁.Correct e (batch ++ stored)) (hc₂ : c₂.Correct e (batch ++ stored)) :
    (∀ s, resultOf (e.snapshot chain h.num (e.hashOf h) batch.reverse c₁) = .ok s ↔
      resultOf (e.snapshot chain h.num (e.hashOf h) batch.reverse c₂) = .ok s) ↔
    (∃ err, e.refSnapshot (batch ++ stored) = .error err) ∨
      (e.Blocked batch ((batch ++ stored).take (e.depth c₁ (batch ++ stored)))
          ((batch ++ stored).drop (e.depth c₁ (batch ++ stored))) ↔
        e.Blocked batch ((batch ++ stored).take (e.depth c₂ (batch ++ stored)))
          ((batch ++ stored).drop (e.depth c₂ (batch ++ stored)))) := by
  simp only [snapshot_batch_iff hb hc₁ hpath, snapshot_batch_iff hb hc₂ hpath]
  cases hr : e.refSnapshot (batch ++ stored) with
  | error err => simp
  | ok s =>
    constructor
    · intro hall
      refine .inr (not_iff_not.1 ?_)
      have := hall s
      simpa using this
    · rintro (⟨err, herr⟩ | hiff)
      · cases herr
      · intro t
        rw [hiff]

/-! ## A batch of three -/

lemma Caches.correct_of_tails (hc : ∀ l ∈ path.tails, ∀ h ∈ l.head?,
    c.recentSnaps (e.hashOf h) ∈ [none, (e.refSnapshot l).toOption] ∧
      c.db (e.hashOf h) ∈ [none, (e.refSnapshot l).toOption]) : c.Correct e path := by
  intro h rest s hsuf hs
  have hof : ∀ o : Option Snapshot, o ∈ [none, (e.refSnapshot (h :: rest)).toOption] → o = some s →
      e.refSnapshot (h :: rest) = .ok s := by
    rintro o ho rfl
    cases hr : e.refSnapshot (h :: rest) with
    | error err => rw [hr] at ho; simp [Except.toOption] at ho
    | ok t => rw [hr] at ho; simpa [Except.toOption, eq_comm] using ho
  obtain ⟨hrec, hdb⟩ := hc (h :: rest) ((mem_tails _ _).2 hsuf) h rfl
  rcases hs with hs | hs
  · exact hof _ hrec hs
  · exact hof _ hdb hs

/-- Two validators and epochs of two blocks: every odd block switches the set. -/
def pairEngine : Engine := smallEngine 2 epoch_two 1

def pairGenesis : Header := smallHeader 0 0 0 [1, 2] few_two
def pairFirst : Header := smallHeader (pairEngine.hashOf pairGenesis) 1 1 [] few_none
def pairSecond : Header := smallHeader (pairEngine.hashOf pairFirst) 2 2 [1, 2] few_two
def pairThird : Header := smallHeader (pairEngine.hashOf pairSecond) 3 1 [] few_none

lemma pairSecond_path : pairEngine.Path [pairSecond, pairFirst, pairGenesis] :=
  .child (.child (.genesis rfl) (by decide +kernel) (smallHeader_parentHash _ _ _ _ _)) (by decide +kernel)
    (smallHeader_parentHash _ _ _ _ _)

/-- Caches with the snapshot of the first header only. -/
def cached (hs : List Header) : Caches :=
  { Caches.empty with
    recentSnaps := fun hash =>
      if hs.head?.map pairEngine.hashOf = some hash then (pairEngine.refSnapshot hs).toOption else none }

/-- Blocks 1 and 2 are a batch, and block 2 does not switch the set. -/
theorem caches_agree_on_batch :
    resultOf (pairEngine.snapshot (smallChain [1, 2] []) pairSecond.num (pairEngine.hashOf pairSecond)
      [pairFirst, pairSecond] Caches.empty) ≠ .error .errUnknownAncestor ∧
    ∀ s, resultOf (pairEngine.snapshot (smallChain [1, 2] []) pairSecond.num (pairEngine.hashOf pairSecond)
        [pairFirst, pairSecond] Caches.empty) = .ok s ↔
      resultOf (pairEngine.snapshot (smallChain [1, 2] []) pairSecond.num (pairEngine.hashOf pairSecond)
        [pairFirst, pairSecond] (cached [pairFirst, pairGenesis])) = .ok s := by
  have hb : BatchOver pairEngine (smallChain [1, 2] []) [pairSecond, pairFirst] [pairGenesis] :=
    ⟨pairSecond_path, by simp, by simp, by decide +kernel, by decide +kernel, by decide +kernel, by decide +kernel⟩
  have hstays : returns (pairEngine.refSnapshot [pairFirst, pairGenesis])
      (fun s => decide ¬ pairEngine.Switches s pairSecond.num) = true := by decide +kernel
  obtain ⟨s, hs, hno⟩ := of_returns hstays
  have hnb : ∀ top low, top ++ low = [pairSecond, pairFirst, pairGenesis] →
      ¬ pairEngine.Blocked [pairSecond, pairFirst] top low := by
    rintro top low htop ⟨post, x, y, pre, s', rfl, hy, hs', hsw, -⟩
    rcases post with _ | ⟨a, _ | ⟨b, post⟩⟩ <;> simp at htop
    · obtain ⟨rfl, rfl, hlow⟩ := htop
      rw [cons_append, hlow, hs] at hs'
      cases hs'
      exact of_decide_eq_true hno hsw
    · obtain ⟨-, -, rfl, -⟩ := htop
      revert hy
      decide +kernel
    · have hlen := congrArg length htop.2.2
      simp at hlen
      omega
  refine ⟨by decide +kernel, (caches_agree_iff pairEngine _ [pairSecond, pairFirst] [pairGenesis] _ _ hb rfl _ _
    (Caches.correct_of_tails (by decide +kernel)) (Caches.correct_of_tails (by decide +kernel))).2 (.inr ?_)⟩
  exact iff_of_false (hnb _ _ (take_append_drop _ _)) (hnb _ _ (take_append_drop _ _))

/-- Blocks 1, 2 and 3 are a batch. With the snapshot of block 2 at hand, the
snapshot of block 3 is found. With empty caches the engine pops block 2 and then
misses it, as block 3 switches the set. -/
theorem cold_cache_misses_parent :
    ∃ c₁ c₂, BatchOver pairEngine (smallChain [1, 2] []) [pairThird, pairSecond, pairFirst] [pairGenesis] ∧
      Caches.Correct c₁ pairEngine [pairThird, pairSecond, pairFirst, pairGenesis] ∧
      Caches.Correct c₂ pairEngine [pairThird, pairSecond, pairFirst, pairGenesis] ∧
      resultOf (pairEngine.snapshot (smallChain [1, 2] []) pairThird.num (pairEngine.hashOf pairThird)
        [pairFirst, pairSecond, pairThird] c₁) = .error .errUnknownAncestor ∧
      ∃ s, resultOf (pairEngine.snapshot (smallChain [1, 2] []) pairThird.num (pairEngine.hashOf pairThird)
        [pairFirst, pairSecond, pairThird] c₂) = .ok s := by
  let c₂ := cached [pairSecond, pairFirst, pairGenesis]
  have hrun : returns (resultOf (pairEngine.snapshot (smallChain [1, 2] []) pairThird.num
      (pairEngine.hashOf pairThird) [pairFirst, pairSecond, pairThird] c₂)) (fun _ => true) = true := by
    decide +kernel
  obtain ⟨s, hs, -⟩ := of_returns hrun
  refine ⟨Caches.empty, c₂, ?_, Caches.correct_of_tails (by decide +kernel),
    Caches.correct_of_tails (by decide +kernel), by decide +kernel, s, hs⟩
  exact ⟨.child pairSecond_path (by decide +kernel) (smallHeader_parentHash _ _ _ _ _), by simp, by simp, by decide +kernel, by decide +kernel, by decide +kernel, by decide +kernel⟩

end TurboOctopus.Parlia
