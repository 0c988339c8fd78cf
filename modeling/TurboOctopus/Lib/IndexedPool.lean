import Mathlib.Data.List.Basic
/-!
# A pool with indices

A slice whose members know their index in it, so that one is removed in constant time:
the last member moves to its place. The pool carries the proof that the indices are
right.
-/

namespace TurboOctopus.Lib

open List

variable {κ : Type}

/-- `index k` is where `k` is, and `none` (`-1` in the program) outside the pool. -/
structure Pool (κ : Type) where
  items : List κ
  index : κ → Option Nat
  index_iff : ∀ k i, index k = some i ↔ items[i]? = some k

def Pool.empty : Pool κ := ⟨[], fun _ => none, by simp⟩

variable {i j : Nat} {k : κ}

lemma Pool.index_eq_none_iff (p : Pool κ) : p.index k = none ↔ k ∉ p.items := by
  rw [mem_iff_getElem?, not_exists, Option.eq_none_iff_forall_ne_some]
  exact forall_congr' fun i => not_congr (p.index_iff k i)

lemma Pool.lt_of_index (p : Pool κ) (h : p.index k = some i) : i < p.items.length :=
  (List.getElem?_eq_some_iff.1 ((p.index_iff k i).1 h)).1

/-- No member is in the pool twice. -/
lemma Pool.getElem?_inj (p : Pool κ) (hi : p.items[i]? = some k) (hj : p.items[j]? = some k) : i = j := by
  have h := ((p.index_iff k i).2 hi).symm.trans ((p.index_iff k j).2 hj)
  exact Option.some.inj h

variable [DecidableEq κ]

def Pool.add (p : Pool κ) (k : κ) (hk : p.index k = none) : Pool κ where
  items := p.items ++ [k]
  index := Function.update p.index k (some p.items.length)
  index_iff j i := by
    rw [p.index_eq_none_iff] at hk
    rw [List.getElem?_append, Function.update_apply]
    by_cases hjk : j = k
    · subst hjk
      rw [if_pos rfl, Option.some.injEq]
      split
      · next hi =>
        refine iff_of_false (by omega) fun h => hk (List.mem_of_getElem? h)
      · next hi => cases hd : i - p.items.length <;> simp <;> omega
    · rw [if_neg hjk, p.index_iff]
      split
      · rfl
      · next hi =>
        rw [List.getElem?_eq_none (Nat.le_of_not_lt hi)]
        cases hd : i - p.items.length <;> simp [Ne.symm hjk]

omit [DecidableEq κ] in
lemma getElem?_set_dropLast {l : List κ} (hi : i < l.length) (x : κ) :
    (l.set i x).dropLast[j]? = if j < l.length - 1 then if i = j then some x else l[j]? else none := by
  rw [List.getElem?_dropLast, length_set, List.getElem?_set]
  simp [hi]

/-- The indices after the last member has taken the place of `task` at `i`. -/
lemma Pool.index_iff_of_removed (p : Pool κ) (hi : i < p.items.length) {task last : κ}
    (hhere : p.items[i]? = some task) (hlast : p.items[p.items.length - 1]? = some last) (k : κ) (j : Nat) :
    Function.update (Function.update p.index last (some i)) task none k = some j ↔
      (p.items.set i last).dropLast[j]? = some k := by
  rw [getElem?_set_dropLast hi, Function.update_apply, Function.update_apply]
  by_cases hkt : k = task
  · -- the removed member is nowhere: it was at `i` only, and `i` has the last one now
    subst hkt
    rw [if_pos rfl]
    refine iff_of_false (by simp) fun h => ?_
    split at h
    · split at h
      · cases h
        have := p.getElem?_inj hlast hhere
        omega
      · next hij => exact hij (p.getElem?_inj hhere h)
    · cases h
  rw [if_neg hkt]
  by_cases hkl : k = last
  · -- the last member is at `i`
    subst hkl
    have hne : i ≠ p.items.length - 1 := by
      rintro rfl
      exact hkt (Option.some.inj (hlast.symm.trans hhere))
    rw [if_pos rfl, Option.some.injEq]
    constructor
    · rintro rfl
      rw [if_pos (by omega), if_pos rfl]
    · intro h
      split at h
      · split at h
        · assumption
        · have := p.getElem?_inj hlast h
          omega
      · cases h
  -- the others are where they were
  rw [if_neg hkl, p.index_iff]
  constructor
  · intro h
    have hjl : j ≠ p.items.length - 1 := by
      rintro rfl
      exact hkl (Option.some.inj (h.symm.trans hlast))
    have hji : i ≠ j := by
      rintro rfl
      exact hkt (Option.some.inj (h.symm.trans hhere))
    have hlt := (List.getElem?_eq_some_iff.1 h).1
    rw [if_pos (by omega), if_neg hji]
    exact h
  · intro h
    split at h
    · split at h
      · exact absurd (Option.some.inj h).symm hkl
      · exact h
    · cases h

omit [DecidableEq κ] in
lemma Pool.ne_nil (p : Pool κ) (hi : i < p.items.length) : p.items ≠ [] :=
  ne_nil_of_length_pos (by omega)

/-- The last member takes the place of the one at `i`. -/
def Pool.removeAt (p : Pool κ) (i : Nat) (hi : i < p.items.length) : Pool κ where
  items := (p.items.set i (p.items.getLast (p.ne_nil hi))).dropLast
  index := Function.update (Function.update p.index (p.items.getLast (p.ne_nil hi)) (some i)) p.items[i] none
  index_iff := by
    refine p.index_iff_of_removed hi (List.getElem?_eq_getElem hi) ?_
    rw [← List.getLast?_eq_getElem?, List.getLast?_eq_some_getLast]

lemma Pool.mem_add (p : Pool κ) {j : κ} (hk : p.index k = none) : j ∈ (p.add k hk).items ↔ j ∈ p.items ∨ j = k := by
  simp [Pool.add]

lemma Pool.mem_removeAt (p : Pool κ) (hi : i < p.items.length)
    (hk : k ∈ (p.removeAt i hi).items) : k ∈ p.items ∧ k ≠ p.items[i] := by
  constructor
  · rcases mem_or_eq_of_mem_set (dropLast_subset _ hk) with h | rfl
    · exact h
    · exact getLast_mem _
  · rintro rfl
    exact (Pool.index_eq_none_iff _).1 (Function.update_self _ _ _) hk

end TurboOctopus.Lib
