import Mathlib.Data.List.Perm.Subperm
/-!
# Least recently used caches

A cache holds the entries it was given or asked for last, at most `cap` of them, and
drops the oldest for a new one. What it is used for is a store it answers for
(`Lru.readThrough`), so what matters is what its entries say about the store (`Lru.All`),
and which of many entries added in a row are still there (`Lru.peek_addAll`,
`Lru.All.addAll`).
-/

namespace TurboOctopus.Lib

open List

variable {K V : Type} [DecidableEq K] {cap : Nat}

/-- The entries, the last used one first. -/
structure Lru (K V : Type) (cap : Nat) where
  entries : List (K × V)
  nodup : (entries.map Prod.fst).Nodup
  length_le : entries.length ≤ cap

namespace Lru

def empty : Lru K V cap where
  entries := []
  nodup := .nil
  length_le := Nat.zero_le _

/-- The value of a key, which stays where it is. -/
def peek (c : Lru K V cap) (k : K) : Option V := c.entries.lookup k

def contains (c : Lru K V cap) (k : K) : Bool := (c.peek k).isSome

/-- Put an entry first, and drop what is over the capacity. -/
def add (c : Lru K V cap) (k : K) (v : V) : Lru K V cap where
  entries := ((k, v) :: c.entries.filter fun e => e.1 ≠ k).take cap
  nodup := by
    refine List.Nodup.sublist ((List.take_sublist _ _).map _) ?_
    rw [List.map_cons, List.nodup_cons]
    refine ⟨?_, c.nodup.sublist (List.filter_sublist.map _)⟩
    simp
  length_le := List.length_take_le _ _

/-- Without the entry that was used longest ago. -/
def removeOldest (c : Lru K V cap) : Lru K V cap where
  entries := c.entries.dropLast
  nodup := c.nodup.sublist ((List.dropLast_sublist _).map _)
  length_le := by
    rw [List.length_dropLast]
    exact Nat.le_trans (Nat.sub_le _ _) c.length_le

/-- The value of a key, which becomes the last used. -/
def get (c : Lru K V cap) (k : K) : Option V × Lru K V cap :=
  match c.peek k with
  | none => (none, c)
  | some v => (some v, c.add k v)

/-- A store read through its cache. -/
def readThrough (c : Lru K V cap) (k : K) (stored : Option V) : Option V × Lru K V cap :=
  match c.get k with
  | (some v, c') => (some v, c')
  | (none, c') =>
    match stored with
    | none => (none, c')
    | some v => (some v, c'.add k v)

def addAll (c : Lru K V cap) (es : List (K × V)) : Lru K V cap := es.foldl (fun c e => c.add e.1 e.2) c

variable {es : List (K × V)} {k k' : K} {n : Nat} {stored : Option V} {v : V}

lemma lookup_eq_some_iff (h : (es.map Prod.fst).Nodup) : es.lookup k = some v ↔ (k, v) ∈ es := by
  induction es with
  | nil => simp
  | cons e es ih =>
    obtain ⟨k', v'⟩ := e
    rw [map_cons, nodup_cons] at h
    by_cases hk : k = k'
    · subst hk
      have hes : (k, v) ∉ es := fun hmem => h.1 (mem_map.2 ⟨_, hmem, rfl⟩)
      simp [hes, eq_comm]
    · have hne : (k == k') = false := by simpa using hk
      simp [lookup_cons, hne, hk, ih h.2]

lemma peek_eq_some_iff {c : Lru K V cap} : c.peek k = some v ↔ (k, v) ∈ c.entries :=
  lookup_eq_some_iff c.nodup

lemma contains_iff {c : Lru K V cap} : c.contains k = true ↔ ∃ v, c.peek k = some v := Option.isSome_iff_exists

/-- Another entry was there before. -/
lemma of_peek_add {c : Lru K V cap} {w : V} (h : (c.add k v).peek k' = some w) :
    (k' = k ∧ w = v) ∨ (k' ≠ k ∧ c.peek k' = some w) := by
  have hmem := mem_of_mem_take (peek_eq_some_iff.1 h)
  rcases mem_cons.1 hmem with heq | hmem
  · cases heq
    exact .inl ⟨rfl, rfl⟩
  · obtain ⟨hmem, hne⟩ := mem_filter.1 hmem
    exact .inr ⟨by simpa using hne, peek_eq_some_iff.2 hmem⟩

/-! ## What the entries say -/

/-- Every entry is a `P`. -/
def All (c : Lru K V cap) (P : K → V → Prop) : Prop := ∀ k v, c.peek k = some v → P k v

variable {P : K → V → Prop} {c : Lru K V cap}

lemma All.empty : (Lru.empty : Lru K V cap).All P := by
  intro k v h
  cases h

lemma All.add (h : c.All P) (hv : P k v) : (c.add k v).All P := by
  intro k' w hw
  rcases of_peek_add hw with ⟨rfl, rfl⟩ | ⟨-, hw⟩
  · exact hv
  · exact h k' w hw

lemma All.removeOldest (h : c.All P) : c.removeOldest.All P := by
  intro k v hv
  exact h k v (peek_eq_some_iff.2 ((dropLast_sublist _).subset (peek_eq_some_iff.1 hv)))

lemma All.get (h : c.All P) (k : K) : (c.get k).2.All P := by
  unfold Lru.get
  split
  · exact h
  · exact h.add (h k _ ‹_›)

lemma get_fst (c : Lru K V cap) (k : K) : (c.get k).1 = c.peek k := by
  unfold Lru.get
  split <;> simp [*]

lemma All.readThrough (h : c.All P) (hs : ∀ v, stored = some v → P k v) : (c.readThrough k stored).2.All P := by
  have hget := h.get k
  unfold Lru.readThrough
  split
  next heq => rwa [heq] at hget
  next heq =>
    rw [heq] at hget
    split
    · exact hget
    · exact hget.add (hs _ rfl)

/-- The cache answers if it can, or else the store. -/
lemma readThrough_fst (c : Lru K V cap) (k : K) (stored : Option V) :
    (c.readThrough k stored).1 = (c.peek k).or stored := by
  rw [← get_fst]
  unfold Lru.readThrough
  split
  next heq => simp [heq]
  next heq =>
    rw [heq]
    split <;> rfl

lemma readThrough_of_none (h : (c.readThrough k stored).1 = none) : (c.readThrough k stored).2 = c := by
  rw [readThrough_fst, Option.or_eq_none_iff] at h
  simp [Lru.readThrough, Lru.get, h.1, h.2]

/-! ## Many entries -/

lemma addAll_append (c : Lru K V cap) (es fs : List (K × V)) : c.addAll (es ++ fs) = (c.addAll es).addAll fs :=
  foldl_append

lemma of_peek_addAll (h : (c.addAll es).peek k = some v) : (k, v) ∈ es ∨ c.peek k = some v := by
  induction es generalizing c with
  | nil => exact .inr h
  | cons e es ih =>
    rcases ih h with hmem | hpeek
    · exact .inl (mem_cons_of_mem _ hmem)
    · rcases of_peek_add hpeek with ⟨rfl, rfl⟩ | ⟨-, hpeek⟩
      · exact .inl mem_cons_self
      · exact .inr hpeek

lemma mem_take_add {v' : V} (hn : n < cap) (hne : k ≠ k')
    (h : (k, v) ∈ c.entries.take n) : (k, v) ∈ (c.add k' v').entries.take (n + 1) := by
  have hfilter : (c.entries.take n).filter (fun e => e.1 ≠ k') <+: (c.entries.filter fun e => e.1 ≠ k').take n :=
    prefix_take_iff.2 ⟨( take_prefix n _).filter _, Nat.le_trans (length_filter_le _ _) (length_take_le _ _)⟩
  have hmem : (k, v) ∈ (c.entries.filter fun e => e.1 ≠ k').take n :=
    hfilter.subset (mem_filter.2 ⟨h, by simpa using hne⟩)
  rw [add, take_take, Nat.min_eq_left hn, take_succ_cons]
  exact mem_cons_of_mem _ hmem

lemma mem_take_addAll (hn : n + es.length ≤ cap) (hk : ∀ e ∈ es, e.1 ≠ k) (h : (k, v) ∈ c.entries.take n) :
    (k, v) ∈ (c.addAll es).entries.take (n + es.length) := by
  induction es generalizing c n with
  | nil => exact h
  | cons e es ih =>
    rw [length_cons] at hn ⊢
    have hne : k ≠ e.1 := (hk e mem_cons_self).symm
    have hadd : (k, v) ∈ (c.add e.1 e.2).entries.take (n + 1) := mem_take_add (by omega) hne h
    have hrest := ih (c := c.add e.1 e.2) (by omega) (fun e' he' => hk e' (mem_cons_of_mem _ he')) hadd
    rwa [Nat.add_right_comm, Nat.add_assoc] at hrest

lemma peek_addAll (hnodup : (es.map Prod.fst).Nodup)
    (h : (k, v) ∈ es.drop (es.length - cap)) : (c.addAll es).peek k = some v := by
  obtain ⟨l, m, hsplit⟩ := append_of_mem h
  have hes : es = (es.take (es.length - cap) ++ l) ++ (k, v) :: m := by
    rw [append_assoc, ← hsplit, take_append_drop]
  have hlen : m.length < cap := by
    have := congrArg List.length hsplit
    rw [length_drop, length_append, length_cons] at this
    omega
  rw [hes, map_append, map_cons] at hnodup
  have hm : ∀ e ∈ m, e.1 ≠ k := by
    intro e he heq
    have hk := (nodup_cons.1 (nodup_append.1 hnodup).2.1).1
    exact hk (mem_map.2 ⟨e, he, heq⟩)
  have hfirst : (k, v) ∈ (((c.addAll (es.take (es.length - cap) ++ l)).add k v).entries).take 1 := by
    rw [add, take_take, Nat.min_eq_left (by omega)]
    exact mem_cons_self
  have hpeek := mem_take_addAll (by omega) hm hfirst
  rw [hes, addAll_append]
  exact peek_eq_some_iff.2 (mem_of_mem_take hpeek)

/-- The entries of a cache are those it had and the last `cap` of those that were added:
with an older one among them it would hold too many. -/
lemma All.addAll (h : c.All P) (hnodup : (es.map Prod.fst).Nodup)
    (hes : ∀ e ∈ es.drop (es.length - cap), P e.1 e.2) : (c.addAll es).All P := by
  intro k v hpeek
  rcases of_peek_addAll hpeek with hmem | hold
  · by_cases hrecent : (k, v) ∈ es.drop (es.length - cap)
    · exact hes _ hrecent
    · exfalso
      have hlast : ∀ e ∈ es.drop (es.length - cap), e ∈ (c.addAll es).entries := fun e he =>
        peek_eq_some_iff.1 (peek_addAll hnodup he)
      have hsplit := take_append_drop (es.length - cap) es
      have hold : (k, v) ∈ es.take (es.length - cap) := by
        rw [← hsplit] at hmem
        exact (mem_append.1 hmem).resolve_right hrecent
      have hlong : cap < es.length := by
        by_contra hshort
        rw [Nat.sub_eq_zero_of_le (by omega)] at hold
        cases hold
      -- the last ones and the old one are all there, and too many
      rw [← hsplit, map_append, nodup_append] at hnodup
      have hkeys : (k :: (es.drop (es.length - cap)).map Prod.fst).Nodup := by
        refine nodup_cons.2 ⟨fun hk => ?_, hnodup.2.1⟩
        exact hnodup.2.2 k (mem_map.2 ⟨_, hold, rfl⟩) k hk rfl
      have hsub : k :: (es.drop (es.length - cap)).map Prod.fst ⊆ (c.addAll es).entries.map Prod.fst := by
        refine cons_subset.2 ⟨mem_map.2 ⟨_, peek_eq_some_iff.1 hpeek, rfl⟩, ?_⟩
        exact forall_mem_map.2 fun e he => mem_map.2 ⟨e, hlast e he, rfl⟩
      have hlen := (hkeys.subperm hsub).length_le
      have hcap := (c.addAll es).length_le
      simp only [length_cons, length_map, length_drop] at hlen
      omega
  · exact h k v hold

end Lru

end TurboOctopus.Lib
