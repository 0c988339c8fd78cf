import Mathlib.Data.Finmap
/-!
# Finite maps

A Go `map[K]V` is a `Finmap`: equal maps hold the same keys with the same
values, whatever the order they were filled in. Here are the loops programs
run over maps: deleting a list of keys, and asking whether some value is held.
-/

namespace TurboOctopus.Lib

open Finmap

variable {K V : Type} [DecidableEq K]

/-- A Go `map[K]V`. -/
abbrev GoMap (K V : Type) := Finmap (fun _ : K => V)

/-- Delete every key of a list. -/
def eraseAll (m : GoMap K V) (ks : List K) : GoMap K V := ks.foldl (fun m k => m.erase k) m

lemma lookup_eraseAll (m : GoMap K V) (ks : List K) (k : K) :
    (eraseAll m ks).lookup k = if k ∈ ks then none else m.lookup k := by
  induction ks generalizing m with
  | nil => simp [eraseAll]
  | cons k' ks ih =>
    have h : eraseAll m (k' :: ks) = eraseAll (m.erase k') ks := rfl
    rw [h, ih]
    by_cases hk : k ∈ ks
    · simp [hk]
    · by_cases he : k = k'
      · subst he; simp [lookup_erase]
      · simp [hk, he, lookup_erase_ne he]

variable {k k' : K} {m : GoMap K V} {v : V}

/-- What is left after deleting a list of keys was there before, under another key. -/
lemma of_lookup_eraseAll {ks : List K} (h : (eraseAll m ks).lookup k = some v) : k ∉ ks ∧ m.lookup k = some v := by
  rw [lookup_eraseAll] at h
  split at h
  · cases h
  · exact ⟨‹_›, h⟩

lemma lookup_erase_iff : (m.erase k').lookup k = some v ↔ k ≠ k' ∧ m.lookup k = some v := by
  by_cases h : k = k'
  · subst h; simp [lookup_erase]
  · simp [h, lookup_erase_ne h]

lemma lookup_insert_iff {v' : V} :
    (m.insert k' v').lookup k = some v ↔ (k = k' ∧ v = v') ∨ (k ≠ k' ∧ m.lookup k = some v) := by
  by_cases h : k = k'
  · subst h; simp [lookup_insert, eq_comm]
  · simp [h, lookup_insert_of_ne m h]

/-- The keys of a map in one of the orders a loop over it can take. -/
def Enumerates (order : List K) (m : GoMap K V) : Prop := order.Nodup ∧ order.toFinset = m.keys

instance (order : List K) (m : GoMap K V) : Decidable (Enumerates order m) := inferInstanceAs (Decidable (_ ∧ _))

lemma Enumerates.mem_iff {order : List K} (h : Enumerates order m) : k ∈ order ↔ k ∈ m := by
  rw [← List.mem_toFinset, h.2, mem_keys]

/-- Some key holds the value `v`. -/
def HasValue (m : GoMap K V) (v : V) : Prop := ∃ k ∈ m.keys, m.lookup k = some v

instance [DecidableEq V] (m : GoMap K V) (v : V) : Decidable (HasValue m v) :=
  inferInstanceAs (Decidable (∃ k ∈ m.keys, m.lookup k = some v))

lemma mem_keys_of_lookup (h : m.lookup k = some v) : k ∈ m.keys := by
  rw [mem_keys, ← lookup_isSome, h]
  rfl

lemma hasValue_iff : HasValue m v ↔ ∃ k, m.lookup k = some v :=
  ⟨fun ⟨k, _, h⟩ => ⟨k, h⟩, fun ⟨k, h⟩ => ⟨k, mem_keys_of_lookup h, h⟩⟩

/-- No two keys hold one value. -/
def Distinct (m : GoMap K V) : Prop := ∀ k k' v, m.lookup k = some v → m.lookup k' = some v → k = k'

lemma Distinct.erase (h : Distinct m) (k' : K) : Distinct (m.erase k') := by
  intro k1 k2 v h1 h2
  exact h k1 k2 v (lookup_erase_iff.1 h1).2 (lookup_erase_iff.1 h2).2

lemma Distinct.eraseAll (h : Distinct m) (ks : List K) : Distinct (eraseAll m ks) := by
  intro k1 k2 v h1 h2
  exact h k1 k2 v (of_lookup_eraseAll h1).2 (of_lookup_eraseAll h2).2

/-- A value that is not held yet can be added under any key. -/
lemma Distinct.insert (h : Distinct m) (k' : K) (v' : V) (hv : ¬ HasValue m v') : Distinct (m.insert k' v') := by
  intro k1 k2 v h1 h2
  rw [hasValue_iff] at hv
  rcases lookup_insert_iff.1 h1 with ⟨e1, rfl⟩ | ⟨-, m1⟩ <;>
    rcases lookup_insert_iff.1 h2 with ⟨e2, e⟩ | ⟨-, m2⟩
  · exact e1.trans e2.symm
  · exact absurd ⟨_, m2⟩ hv
  · exact absurd ⟨_, e ▸ m1⟩ hv
  · exact h k1 k2 v m1 m2

/-- How many values have a property. -/
def countIf (m : GoMap K V) (p : V → Bool) : Nat := (m.keys.filter fun k => (m.lookup k).any p).card

lemma countIf_insert (hk : k ∉ m) (v : V) (p : V → Bool) :
    countIf (m.insert k v) p = countIf m p + if p v then 1 else 0 := by
  have hkeys : ((m.insert k v).keys.filter fun j => ((m.insert k v).lookup j).any p) =
      if p v then insert k (m.keys.filter fun j => (m.lookup j).any p)
      else m.keys.filter fun j => (m.lookup j).any p := by
    ext j
    by_cases hj : j = k
    · subst hj
      cases hp : p v <;> simp [mem_keys, mem_insert, lookup_insert, hp, hk]
    · cases hp : p v <;> simp [mem_keys, mem_insert, lookup_insert_of_ne m hj, hj]
  rw [countIf, hkeys]
  split
  · rw [Finset.card_insert_of_notMem (by simp [mem_keys, hk]), countIf]
  · rfl

lemma countIf_erase (hk : m.lookup k = some v) (p : V → Bool) :
    countIf m p = countIf (m.erase k) p + if p v then 1 else 0 := by
  have hm : (m.erase k).insert k v = m := ext_lookup fun j => by
    by_cases hj : j = k
    · subst hj
      rw [lookup_insert, hk]
    · rw [lookup_insert_of_ne _ hj, lookup_erase_ne hj]
  rw [← countIf_insert (fun h => (mem_erase.1 h).1 rfl) v p, hm]

lemma countIf_congr {p q : V → Bool} (h : ∀ v, p v = q v) : countIf m p = countIf m q := by
  rw [funext h]

/-- Who is at `v` after `k'` went on to something else was there before, and is not `k'`. -/
lemma of_update_eq {α : Type} {f : K → α} {a v : α} (ha : a ≠ v) (h : Function.update f k' a k = v) :
    k ≠ k' ∧ f k = v := by
  by_cases hk : k = k'
  · subst hk
    exact absurd (by simpa using h) ha
  · exact ⟨hk, by simpa [Function.update_of_ne hk] using h⟩

end TurboOctopus.Lib
