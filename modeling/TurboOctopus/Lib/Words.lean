import Mathlib.Data.List.Sort
import Mathlib.Data.Finset.Card
import Mathlib.Algebra.Order.Ring.Nat
/-!
# Machine words, binary search and ascending lists

What a Go program gets from the language and its standard library: `uint64`
differences as differences of naturals, `sort.Search` over any predicate that
switches once, and the one ascending list that `sort.Sort` makes of a set.
-/

namespace TurboOctopus.Lib

/-! ## `uint64` -/

/-- `big.Int.BitLen` of a number that is not negative. -/
def bitLen (n : Nat) : Nat := if n = 0 then 0 else n.log2 + 1

variable {a b : UInt64} {f : Nat → Bool} {n : Nat}

lemma u64_ofNat (h : n < 2 ^ 64) : (UInt64.ofNat n).toNat = n :=
  UInt64.toNat_ofNat_of_lt' h

lemma u64_sub_of_le (h : b ≤ a) : (a - b).toNat = a.toNat - b.toNat :=
  UInt64.toNat_sub_of_le a b h

/-- A difference below zero wraps to the top of the range. -/
lemma u64_sub_of_lt (h : a < b) : (a - b).toNat = 2 ^ 64 + a.toNat - b.toNat := by
  have ha := a.toNat_lt
  have hb := b.toNat_lt
  rw [UInt64.lt_iff_toNat_lt] at h
  rw [UInt64.toNat_sub]
  omega

lemma u64_succ (h : a.toNat + 1 < 2 ^ 64) : (a + 1).toNat = a.toNat + 1 := by
  rw [UInt64.toNat_add]
  exact Nat.mod_eq_of_lt h

lemma u64_succ_cases (a : UInt64) : (a + 1).toNat = a.toNat + 1 ∨ (a + 1).toNat = 0 := by
  have ha := a.toNat_lt
  rw [UInt64.toNat_add, UInt64.toNat_one]
  omega

lemma succ_mod {m : Nat} (h : 0 < (m + 1) % n) : (m + 1) % n = m % n + 1 := by
  have hsplit : (m + 1) % n = (m % n + 1) % n := by
    conv_lhs => rw [← Nat.div_add_mod m n, Nat.add_assoc, Nat.mul_add_mod]
  rcases Nat.eq_zero_or_pos n with rfl | hn
  · simp
  have hlt := Nat.mod_lt m hn
  rcases Nat.lt_or_ge (m % n + 1) n with hr | hr
  · rw [hsplit, Nat.mod_eq_of_lt hr]
  · obtain hr : m % n + 1 = n := by omega
    rw [hsplit, hr, Nat.mod_self] at h
    exact absurd h (by simp)

/-! ## `sort.Search` -/

/-- The loop of `sort.Search` on `[i, j)`; `fuel` bounds its rounds. -/
def searchLoop (f : Nat → Bool) : Nat → Nat → Nat → Nat
  | 0, i, _ => i
  | fuel + 1, i, j =>
    if i < j then
      let h := (i + j) / 2
      if f h then searchLoop f fuel i h else searchLoop f fuel (h + 1) j
    else i

/-- `sort.Search(n, f)`: the first index of `[0, n)` at which `f` holds, or `n`. -/
def search (n : Nat) (f : Nat → Bool) : Nat := searchLoop f n 0 n

/-- Once `f` holds it goes on holding, up to `n`. -/
def Switches (n : Nat) (f : Nat → Bool) : Prop := ∀ i j, i ≤ j → j < n → f i = true → f j = true

lemma searchLoop_spec (hf : Switches n f) (fuel i j : Nat) (hfuel : j - i ≤ fuel) (hij : i ≤ j) (hjn : j ≤ n)
    (hlow : ∀ k < i, f k = false) (hhigh : ∀ k, j ≤ k → k < n → f k = true) : searchLoop f fuel i j ≤ n ∧
      (∀ k < searchLoop f fuel i j, f k = false) ∧ ∀ k, searchLoop f fuel i j ≤ k → k < n → f k = true := by
  induction fuel generalizing i j with
  | zero =>
    have : i = j := by omega
    subst this
    exact ⟨hjn, hlow, hhigh⟩
  | succ fuel ih =>
    unfold searchLoop
    by_cases hlt : i < j
    · simp only [hlt, if_true]
      by_cases hm : f ((i + j) / 2) = true
      · simp only [hm, if_true]
        exact ih i _ (by omega) (by omega) (by omega) hlow
          (fun k hk hkn => hf _ k hk hkn hm)
      · simp only [hm, if_false, Bool.false_eq_true]
        refine ih _ j (by omega) (by omega) hjn (fun k hk => ?_) hhigh
        -- an index below the midpoint cannot hold, or the midpoint would too
        by_contra hk'
        exact hm (hf k _ (by omega) (by omega) (by simpa using hk'))
    · simp only [hlt, if_false]
      have : i = j := by omega
      subst this
      exact ⟨hjn, hlow, hhigh⟩

lemma search_spec (hf : Switches n f) :
    search n f ≤ n ∧ (∀ k < search n f, f k = false) ∧ ∀ k, search n f ≤ k → k < n → f k = true :=
  searchLoop_spec hf n 0 n (by omega) (by omega) le_rfl (by simp) (fun k hk hkn => by omega)

/-- The search lands on `k` when `f` starts to hold there. -/
lemma search_eq {k : Nat} (hf : Switches n f) (hk : k ≤ n)
    (hlow : ∀ i < k, f i = false) (hhigh : k < n → f k = true) : search n f = k := by
  obtain ⟨hn, hl, hh⟩ := search_spec hf
  rcases lt_trichotomy (search n f) k with h | h | h
  · have := hh _ le_rfl (by omega)
    rw [hlow _ h] at this
    cases this
  · exact h
  · have := hl _ h
    rw [hhigh (by omega)] at this
    cases this

/-! ## Ascending lists of a set -/

section Ascending
variable {α : Type} (key : α → Nat)

/-- The elements of `s` by ascending `key`. -/
def ascending (hk : Function.Injective key) (s : Finset α) : List α :=
  Quot.liftOn s.1 (List.insertionSort fun a b => key a ≤ key b) fun l l' h => by
    have hp : (List.insertionSort (fun a b => key a ≤ key b) l).Perm
        (List.insertionSort (fun a b => key a ≤ key b) l') :=
      (List.perm_insertionSort _ l).trans (h.trans (List.perm_insertionSort _ l').symm)
    have : Std.Total (fun a b : α => key a ≤ key b) := ⟨fun a b => le_total _ _⟩
    have : IsTrans α (fun a b => key a ≤ key b) := ⟨fun a b c => le_trans⟩
    exact List.Perm.eq_of_pairwise (fun a b _ _ h1 h2 => hk (le_antisymm h1 h2))
      (List.pairwise_insertionSort _ l) (List.pairwise_insertionSort _ l') hp

variable {key} {hk : Function.Injective key}

@[simp] lemma length_ascending (s : Finset α) : (ascending key hk s).length = s.card := by
  obtain ⟨⟨l⟩, hl⟩ := s
  exact (List.perm_insertionSort _ l).length_eq

end Ascending

end TurboOctopus.Lib
