import Mathlib.Data.List.Basic
/-!
# Heaps

Go's `container/heap` on a slice: `Init`, `Fix` and `Pop` permute it so that no element comes
before the one above it, which is at half its index.
-/

namespace TurboOctopus.Lib.Heap

open List

/- `r` is `Less` of two elements. -/
variable {α : Type} (r : α → α → Prop) [DecidableRel r]

def swap (l : List α) (i j : Nat) : List α :=
  match l[i]?, l[j]? with
  | some x, some y => (l.set i y).set j x
  | _, _ => l

/-- `Less(i, j)`, which is only asked of indices in the slice. -/
def LessAt (l : List α) (i j : Nat) : Prop := Option.lt r l[i]? l[j]?

instance (l : List α) (i j : Nat) : Decidable (LessAt r l i j) := inferInstanceAs (Decidable (Option.lt _ _ _))

/-- The child that comes first. -/
def firstChild (l : List α) (i n : Nat) : Nat :=
  if 2 * i + 2 < n ∧ LessAt r l (2 * i + 2) (2 * i + 1) then 2 * i + 2 else 2 * i + 1

/-- Among the first `n`; with the index that the element at `i` has got. -/
def down (l : List α) (i n : Nat) : List α × Nat :=
  if _h : 2 * i + 1 < n ∧ LessAt r l (firstChild r l i n) i then
    down (swap l i (firstChild r l i n)) (firstChild r l i n) n
  else (l, i)
termination_by n - i
decreasing_by
  unfold firstChild
  split <;> omega

def up (l : List α) (j : Nat) : List α :=
  if _h : (j - 1) / 2 ≠ j ∧ LessAt r l j ((j - 1) / 2) then up (swap l ((j - 1) / 2) j) ((j - 1) / 2) else l
termination_by j

/-- From the last index that has a child to the first. -/
def heapify (l : List α) : Nat → List α
  | 0 => l
  | i + 1 => heapify (down r l i l.length).1 i

def init (l : List α) : List α := heapify r l (l.length / 2)

def fix (l : List α) (i : Nat) : List α :=
  let d := down r l i l.length
  if i < d.2 then d.1 else up r d.1 i

/-- The slice without the first element. -/
def pop (l : List α) : List α := (down r (swap l 0 (l.length - 1)) 0 (l.length - 1)).1.dropLast

/-! ## Permutations -/

variable {r}

lemma swap_eq {l : List α} {i j : Nat} (hi : i < l.length) (hj : j < l.length) :
    swap l i j = (l.set i l[j]).set j l[i] := by
  rw [swap, getElem?_eq_getElem hi, getElem?_eq_getElem hj]

lemma swap_perm (l : List α) (i j : Nat) : (swap l i j).Perm l := by
  unfold swap
  split
  next hx hy =>
    obtain ⟨hi, rfl⟩ := List.getElem?_eq_some_iff.1 hx
    obtain ⟨hj, rfl⟩ := List.getElem?_eq_some_iff.1 hy
    exact set_set_perm hi hj
  · exact .refl l

lemma down_perm (l : List α) (i n : Nat) : (down r l i n).1.Perm l := by
  fun_induction down r l i n with
  | case1 l i h ih => exact ih.trans (swap_perm _ _ _)
  | case2 => exact .refl _

lemma getElem?_swap {l : List α} {i j : Nat} (hi : i < l.length) (hj : j < l.length) (k : Nat) :
    (swap l i j)[k]? = if k = i then l[j]? else if k = j then l[i]? else l[k]? := by
  rw [swap_eq hi hj]
  grind

lemma firstChild_child {i n : Nat} (l : List α) (h : 2 * i + 1 < n) :
    (firstChild r l i n = 2 * i + 1 ∨ firstChild r l i n = 2 * i + 2) ∧ firstChild r l i n < n := by
  unfold firstChild
  split <;> omega

/-- What is behind the first `n` stays. -/
lemma getElem?_down {l : List α} {i n : Nat} (hn : n ≤ l.length) {k : Nat} (hk : n ≤ k) : (down r l i n).1[k]? = l[k]? := by
  fun_induction down r l i n with
  | case1 l i h ih =>
    have hchild := (firstChild_child (r := r) l h.1).2
    rw [ih (by rw [(swap_perm _ _ _).length_eq]; exact hn), getElem?_swap (by omega) (by omega), if_neg (by omega),
      if_neg (by omega)]
  | case2 => rfl

lemma heapify_perm (l : List α) (i : Nat) : (heapify r l i).Perm l := by
  induction i generalizing l with
  | zero => exact .refl l
  | succ i ih => exact (ih _).trans (down_perm _ _ _)

lemma init_perm (l : List α) : (init r l).Perm l := heapify_perm _ _

/-- An index without one above it stays. -/
lemma fix_zero (l : List α) : fix r l 0 = (down r l 0 l.length).1 := by
  have hup (l : List α) : up r l 0 = l := by
    rw [up, dif_neg (by simp)]
  simp [fix, hup]

lemma fix_perm (l : List α) : (fix r l 0).Perm l := fix_zero (r := r) l ▸ down_perm _ _ _

lemma pop_perm (x : α) (l : List α) : (pop r (x :: l)).Perm l := by
  have hlen : (swap (x :: l) 0 l.length).length = l.length + 1 := (swap_perm _ _ _).length_eq
  have hlast : (down r (swap (x :: l) 0 l.length) 0 l.length).1.getLast? = some x := by
    rw [getLast?_eq_getElem?, (down_perm _ _ _).length_eq, hlen, Nat.add_sub_cancel, getElem?_down (by omega) (Nat.le_refl _),
      getElem?_swap (by simp) (by simp)]
    grind
  have hsnoc := dropLast_append_getLast? x hlast
  have hperm := (down_perm (r := r) (swap (x :: l) 0 l.length) 0 l.length).trans (swap_perm _ _ _)
  rw [← hsnoc] at hperm
  exact (perm_cons x).1 ((perm_append_singleton _ _).symm.trans hperm)

/-! ## The order -/

/-- From the element `k` on, none of the first `n` comes before the one above it. -/
def OrderedFrom (r : α → α → Prop) (l : List α) (k n : Nat) : Prop :=
  ∀ i j, k ≤ i → (j = 2 * i + 1 ∨ j = 2 * i + 2) → j < n → ¬ LessAt r l j i

def Ordered (r : α → α → Prop) (l : List α) : Prop := OrderedFrom r l 0 l.length

/-- What `Less` has to be. -/
structure WeakOrder (r : α → α → Prop) : Prop where
  asymm : ∀ x y, r x y → ¬ r y x
  trans : ∀ x y z, ¬ r y x → ¬ r z y → ¬ r z x

section Order
variable {l : List α} {i j k n : Nat} (h : WeakOrder r)
include h

omit [DecidableRel r] in
lemma WeakOrder.not_lessAt_trans (hj : ¬ LessAt r l j i) (hk : ¬ LessAt r l k j) :
    ¬ LessAt r l k i := by
  unfold LessAt at *
  cases hx : l[i]? <;> cases hy : l[j]? <;> cases hz : l[k]? <;> simp_all [Option.lt]
  exact h.trans _ _ _ hj hk

omit [DecidableRel r] in
lemma WeakOrder.lessAt_asymm (hlt : LessAt r l i j) : ¬ LessAt r l j i := by
  unfold LessAt at *
  cases hx : l[i]? <;> cases hy : l[j]? <;> simp_all [Option.lt]
  exact h.asymm _ _ hlt

lemma WeakOrder.firstChild_first (hj : j = 2 * i + 1 ∨ j = 2 * i + 2) (hn : j < n) :
    ¬ LessAt r l j (firstChild r l i n) := by
  have hirrefl : ¬ LessAt r l j j := fun hlt => h.lessAt_asymm hlt hlt
  unfold firstChild
  split
  next hright =>
    rcases hj with rfl | rfl
    · exact h.lessAt_asymm hright.2
    · exact hirrefl
  next hleft =>
    rcases hj with rfl | rfl
    · exact hirrefl
    · exact fun hlt => hleft ⟨hn, hlt⟩

/-- The order is restored if only the children of `i` are out of it, and they do not come before
the element above `i`. -/
lemma WeakOrder.down_ordered (hn : n ≤ l.length)
    (hrest : ∀ p c, k ≤ p → (c = 2 * p + 1 ∨ c = 2 * p + 2) → c < n → p ≠ i → ¬ LessAt r l c p)
    (hover : ∀ p c, k ≤ p → (i = 2 * p + 1 ∨ i = 2 * p + 2) → (c = 2 * i + 1 ∨ c = 2 * i + 2) → c < n →
      ¬ LessAt r l c p) : OrderedFrom r (down r l i n).1 k n := by
  fun_induction down r l i n with
  | case1 l i hdown ih =>
    have hfirst := fun c => h.firstChild_first (l := l) (i := i) (j := c) (n := n)
    obtain ⟨hchild, hless⟩ := hdown
    obtain ⟨hj, hjn⟩ := firstChild_child (r := r) l hchild
    generalize firstChild r l i n = j at *
    have hget := getElem?_swap (l := l) (i := i) (j := j) (by omega) (by omega)
    have hback := h.lessAt_asymm hless
    refine ih (by rw [(swap_perm _ _ _).length_eq]; exact hn) (fun p c hp hc hcn hpj => ?_) fun p c hp hpj hc hcn => ?_
    · -- the child that came up, its old sibling, and all others
      simp only [LessAt, hget]
      by_cases hpi : p = i
      · by_cases hcj : c = j
        · simpa [LessAt, hpi, hcj, show j ≠ i by omega] using hback
        · simpa [LessAt, hpi, hcj, show c ≠ i by omega] using hfirst c (hpi ▸ hc) hcn
      · by_cases hci : c = i
        · simpa [LessAt, hpi, hpj, hci] using hover p j hp (hci ▸ hc) hj hjn
        · simpa [LessAt, hpi, hpj, hci, show c ≠ j by omega] using hrest p c hp hc hcn hpi
    · have hpi : p = i := by omega
      have hkeep := hrest j c (by omega) hc hcn (by omega)
      simpa [LessAt, hget, hpi, show c ≠ i by omega, show c ≠ j by omega] using hkeep
  | case2 l i hstay =>
    intro p c hp hc hcn
    by_cases hpi : p = i
    · subst hpi
      have hno : ¬ LessAt r l (firstChild r l p n) p := fun hlt => hstay ⟨by omega, hlt⟩
      exact h.not_lessAt_trans hno (h.firstChild_first hc hcn)
    · exact hrest p c hp hc hcn hpi

lemma WeakOrder.init_ordered (l : List α) : Ordered r (init r l) := by
  have hheapify : ∀ i (l : List α), OrderedFrom r l i l.length → OrderedFrom r (heapify r l i) 0 l.length := by
    intro i
    induction i with
    | zero => exact fun l hl => hl
    | succ i ih =>
      intro l hl
      have hstep : OrderedFrom r (down r l i l.length).1 i l.length :=
        h.down_ordered (Nat.le_refl _) (fun p c hp hc hcn hpi => hl p c (by omega) hc hcn) fun p c hp hpi => by omega
      have hlen := (down_perm (r := r) l i l.length).length_eq
      have hrest := ih (down r l i l.length).1 (by rwa [hlen])
      rwa [hlen] at hrest
  have hlen := (init_perm (r := r) l).length_eq
  rw [Ordered, hlen]
  exact hheapify _ l fun i j hi hj hjn => by omega

/-- A new first element sinks to its place. -/
lemma WeakOrder.down_root (hn : n ≤ l.length)
    (hrest : ∀ i j, i ≠ 0 → (j = 2 * i + 1 ∨ j = 2 * i + 2) → j < n → ¬ LessAt r l j i) :
    OrderedFrom r (down r l 0 n).1 0 n :=
  h.down_ordered hn (fun p c _ hc hcn hp => hrest p c hp hc hcn) fun p c _ hp => by omega

lemma WeakOrder.fix_ordered {x : α} (y : α) (hl : Ordered r (x :: l)) : Ordered r (fix r (y :: l) 0) := by
  rw [Ordered, (fix_perm (r := r) (y :: l)).length_eq, fix_zero]
  refine h.down_root (Nat.le_refl _) fun i j hi hj hjn => ?_
  have hkeep := hl i j (Nat.zero_le _) hj hjn
  obtain ⟨i, rfl⟩ := Nat.exists_eq_succ_of_ne_zero hi
  obtain ⟨j, rfl⟩ := Nat.exists_eq_succ_of_ne_zero (show j ≠ 0 by omega)
  exact hkeep

lemma WeakOrder.pop_ordered {x : α} (hl : Ordered r (x :: l)) : Ordered r (pop r (x :: l)) := by
  have hlen : (swap (x :: l) 0 l.length).length = l.length + 1 := (swap_perm _ _ _).length_eq
  have hdown : OrderedFrom r (down r (swap (x :: l) 0 l.length) 0 l.length).1 0 l.length := by
    refine h.down_root (by omega) fun i j hi hj hjn => ?_
    have hkeep := hl i j (Nat.zero_le _) hj (by simp; omega)
    simpa [LessAt, getElem?_swap (l := x :: l) (i := 0) (j := l.length) (by simp) (by simp), hi, show j ≠ 0 by omega,
      show j ≠ l.length by omega, show i ≠ l.length by omega] using hkeep
  rw [Ordered, (pop_perm x l).length_eq]
  intro i j hi hj hjn
  have hkeep := hdown i j hi hj hjn
  have hlen' := (down_perm (r := r) (swap (x :: l) 0 l.length) 0 l.length).length_eq
  simp only [LessAt, pop, length_cons, Nat.add_sub_cancel, getElem?_dropLast, hlen', hlen] at hkeep ⊢
  rwa [if_pos hjn, if_pos (by omega)]

omit [DecidableRel r] in
/-- None comes before the first. -/
lemma WeakOrder.head {x y : α} (hl : Ordered r (x :: l)) (hy : y ∈ l) : ¬ r y x := by
  have hfirst : ∀ j < (x :: l).length, ¬ LessAt r (x :: l) j 0 := by
    intro j
    induction j using Nat.strongRecOn with
    | ind j ih =>
      intro hj
      rcases Nat.eq_zero_or_pos j with rfl | hpos
      · exact fun hlt => h.lessAt_asymm hlt hlt
      · exact h.not_lessAt_trans (ih ((j - 1) / 2) (by omega) (by omega)) (hl _ j (Nat.zero_le _) (by omega) hj)
  obtain ⟨j, hj, rfl⟩ := getElem_of_mem hy
  simpa [LessAt, Option.lt, hj] using hfirst (j + 1) (by simpa using hj)

end Order

end TurboOctopus.Lib.Heap
