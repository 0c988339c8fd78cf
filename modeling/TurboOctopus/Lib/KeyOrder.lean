import Mathlib.Data.List.Lex
import TurboOctopus.Lib.BigEndian
/-!
# Keys in order

A key is below another one if at the first letter that differs it has the smaller one. It
is then no beginning of the other. For keys of one length this is the lexical order.
-/

namespace TurboOctopus.Lib

section Below
variable {α : Type} [LT α] {a b c : List α}

def Below : List α → List α → Prop
  | x :: a, y :: b => x < y ∨ x = y ∧ Below a b
  | _, _ => False

lemma below_cons {x y : α} : Below (x :: a) (y :: b) ↔ x < y ∨ x = y ∧ Below a b := by
  rw [Below]

lemma not_below_nil : ¬ Below a [] := by
  cases a with
  | nil => exact id
  | cons x a => exact id

lemma below_append [Std.Irrefl fun x y : α => x < y] (q : List α) : Below (q ++ a) (q ++ b) ↔ Below a b := by
  induction q with
  | nil => rfl
  | cons x q ih =>
    rw [List.cons_append, List.cons_append, below_cons, ih]
    have hx : ¬ x < x := Std.Irrefl.irrefl x
    simp [hx]

lemma below_of_lt (hlt : a < b) (h : ¬ a <+: b) : Below a b := by
  induction a generalizing b with
  | nil => exact absurd List.nil_prefix h
  | cons x a ih =>
    cases b with
    | nil => cases hlt
    | cons y b =>
      rw [List.cons_lt_cons_iff] at hlt
      rcases hlt with hlt | ⟨rfl, hlt⟩
      · exact .inl hlt
      · exact .inr ⟨rfl, ih hlt (by simpa [List.prefix_cons_inj] using h)⟩

lemma below_of_length [Std.Irrefl fun x y : α => x < y] (hlt : a < b) (h : a.length = b.length) : Below a b := by
  apply below_of_lt hlt
  intro hp
  rw [hp.eq_of_length h] at hlt
  exact List.lt_irrefl b hlt

lemma Below.lt (h : Below a b) : a < b := by
  induction a generalizing b with
  | nil => exact h.elim
  | cons x a ih =>
    cases b with
    | nil => exact h.elim
    | cons y b =>
      rw [List.cons_lt_cons_iff]
      exact h.imp_right fun h => ⟨h.1, ih h.2⟩

lemma Below.apart [Std.Irrefl fun x y : α => x < y] (h : Below a b) : ¬ a <+: b ∧ ¬ b <+: a := by
  induction a generalizing b with
  | nil => exact h.elim
  | cons x a ih =>
    cases b with
    | nil => exact h.elim
    | cons y b =>
      rw [List.cons_prefix_cons, List.cons_prefix_cons]
      rcases h with hlt | ⟨rfl, h⟩
      · have hne : x ≠ y := by
          rintro rfl
          exact Std.Irrefl.irrefl x hlt
        exact ⟨fun hp => hne hp.1, fun hp => hne hp.1.symm⟩
      · exact ⟨fun hp => (ih h).1 hp.2, fun hp => (ih h).2 hp.2⟩

/-- The first difference is after the beginning, or in it. -/
lemma Below.of_append (h : Below (a ++ b) c) : (∃ r, c = a ++ r ∧ Below b r) ∨ Below a c := by
  induction a generalizing c with
  | nil => exact .inl ⟨c, rfl, h⟩
  | cons x a ih =>
    cases c with
    | nil => exact h.elim
    | cons y c =>
      rcases h with hlt | ⟨rfl, h⟩
      · exact .inr (.inl hlt)
      · rcases ih h with ⟨r, rfl, hr⟩ | h
        · exact .inl ⟨r, rfl, hr⟩
        · exact .inr (.inr ⟨rfl, h⟩)

lemma Below.split (h : Below a b) : ∃ q x y a' b', a = q ++ x :: a' ∧ b = q ++ y :: b' ∧ x < y := by
  induction a generalizing b with
  | nil => exact h.elim
  | cons x a ih =>
    cases b with
    | nil => exact h.elim
    | cons y b =>
      rcases h with hlt | ⟨rfl, h⟩
      · exact ⟨[], x, y, a, b, rfl, rfl, hlt⟩
      · obtain ⟨q, u, v, a', b', rfl, rfl, huv⟩ := ih h
        exact ⟨x :: q, u, v, a', b', rfl, rfl, huv⟩

end Below

lemma below_fixedBytes {n x y : Nat} (hlt : x < y) (hy : y < 256 ^ n) : Below (fixedBytes n x) (fixedBytes n y) := by
  induction n generalizing x y with
  | zero => simp at hy; omega
  | succ n ih =>
    have hpos : 0 < 256 ^ n := by simp
    have hdiv : x / 256 ^ n ≤ y / 256 ^ n := Nat.div_le_div_right hlt.le
    have hbyte : y / 256 ^ n < 256 := by
      rw [Nat.div_lt_iff_lt_mul hpos, ← Nat.pow_succ']
      exact hy
    rw [fixedBytes_succ, fixedBytes_succ, below_cons]
    rcases hdiv.lt_or_eq with hdiv | hdiv
    · left
      rw [UInt8.lt_iff_toNat_lt, UInt8.toNat_ofNat', UInt8.toNat_ofNat', Nat.mod_eq_of_lt hbyte,
        Nat.mod_eq_of_lt (hdiv.trans hbyte)]
      exact hdiv
    · right
      refine ⟨by rw [hdiv], ?_⟩
      rw [fixedBytes_mod n x (x % 256 ^ n) (by simp), fixedBytes_mod n y (y % 256 ^ n) (by simp)]
      apply ih _ (Nat.mod_lt y hpos)
      have hx' := Nat.div_add_mod x (256 ^ n)
      have hy' := Nat.div_add_mod y (256 ^ n)
      rw [hdiv] at hx'
      omega

end TurboOctopus.Lib
