import Mathlib.Algebra.Order.Ring.Nat
import Mathlib.Data.List.Basic
/-!
# Blobs in numbered files

An append-only store keeps each blob in one of several numbered files, one blob behind the
other. What is stored is a list of blobs with their file numbers; what a file contains and
where each blob ends in its file follow from the list. The index of such a store is a file
of records of one width.
-/

namespace TurboOctopus.Lib.Segments

open List

variable {α : Type}

/-- A blob and the file it is in. -/
abbrev Placed (α : Type) := Nat × List α

/-- What file `f` contains. -/
def content (f : Nat) (xs : List (Placed α)) : List α := (xs.filter (·.1 = f)).flatMap (·.2)

@[simp] lemma content_nil (f : Nat) : content f ([] : List (Placed α)) = [] := rfl

@[simp] lemma content_append (f : Nat) (xs ys : List (Placed α)) :
    content f (xs ++ ys) = content f xs ++ content f ys := by
  simp [content]

lemma content_cons (f : Nat) (x : Placed α) (xs : List (Placed α)) :
    content f (x :: xs) = if x.1 = f then x.2 ++ content f xs else content f xs := by
  unfold content
  by_cases h : x.1 = f <;> simp [h]

variable {e : Nat × Nat} {f : Nat} {p r xs : List (Placed α)} {x : Placed α}

/-- Blobs of one file fill it without gaps. -/
lemma content_of_forall (h : ∀ x ∈ xs, x.1 = f) : content f xs = xs.flatMap (·.2) := by
  unfold content
  rw [filter_eq_self.2 (by simpa using h)]

lemma content_eq_nil (h : ∀ x ∈ xs, x.1 ≠ f) : content f xs = [] := by
  unfold content
  rw [filter_eq_nil_iff.2 (by simpa using h)]
  rfl

lemma content_take_isPrefix (f n : Nat) (xs : List (Placed α)) : content f (xs.take n) <+: content f xs := by
  refine ⟨content f (xs.drop n), ?_⟩
  rw [← content_append, take_append_drop]

/-- The files and the ends of the blobs `xs` that stand behind `p`. -/
def topsFrom (p : List (Placed α)) : List (Placed α) → List (Nat × Nat)
  | [] => []
  | x :: xs => (x.1, (content x.1 (p ++ [x])).length) :: topsFrom (p ++ [x]) xs

def tops (xs : List (Placed α)) : List (Nat × Nat) := topsFrom [] xs

lemma topsFrom_append (p xs ys : List (Placed α)) :
    topsFrom p (xs ++ ys) = topsFrom p xs ++ topsFrom (p ++ xs) ys := by
  induction xs generalizing p with
  | nil => simp [topsFrom]
  | cons x xs ih =>
    simp only [cons_append, topsFrom, ih]
    rw [append_assoc]
    rfl

lemma tops_append (xs ys : List (Placed α)) : tops (xs ++ ys) = tops xs ++ topsFrom xs ys := by
  rw [tops, topsFrom_append]
  rfl

@[simp] lemma length_topsFrom (p xs : List (Placed α)) : (topsFrom p xs).length = xs.length := by
  induction xs generalizing p with
  | nil => rfl
  | cons x xs ih => simp [topsFrom, ih]

@[simp] lemma length_tops (xs : List (Placed α)) : (tops xs).length = xs.length := length_topsFrom [] xs

lemma tops_take (xs : List (Placed α)) (n : Nat) : (tops xs).take n = tops (xs.take n) := by
  conv_lhs => rw [← take_append_drop n xs, tops_append]
  rcases Nat.le_total n xs.length with hn | hn
  · rw [take_left']
    simp [hn]
  · rw [take_of_length_le hn, drop_of_length_le hn, topsFrom, append_nil, take_of_length_le]
    simpa using hn

/-- Every end is in the file of a blob. -/
lemma topsFrom_file (he : e ∈ topsFrom p xs) : ∃ x ∈ xs, x.1 = e.1 := by
  induction xs generalizing p with
  | nil => cases he
  | cons x xs ih =>
    rcases mem_cons.1 he with rfl | he
    · exact ⟨x, mem_cons_self, rfl⟩
    · obtain ⟨y, hy, heq⟩ := ih he
      exact ⟨y, mem_cons_of_mem x hy, heq⟩

lemma tops_file (he : e ∈ tops xs) : ∃ x ∈ xs, x.1 = e.1 := topsFrom_file he

/-- The store goes from file to file upwards. -/
def Ascending (xs : List (Placed α)) : Prop := xs.Pairwise (·.1 ≤ ·.1)

lemma Ascending.take (h : Ascending xs) (n : Nat) : Ascending (xs.take n) :=
  List.Pairwise.sublist (take_sublist n xs) h

/-- The first blob of a file stands at its start. -/
lemma Ascending.content_eq_nil {y : Placed α} (h : Ascending (p ++ y :: x :: r))
    (hne : y.1 ≠ x.1) : content x.1 (p ++ [y]) = [] := by
  have hyx : y.1 ≤ x.1 :=
    rel_of_pairwise_cons (pairwise_append.1 h).2.1 mem_cons_self
  refine Segments.content_eq_nil (forall_mem_append.2 ⟨fun z hz => ?_, forall_mem_singleton.2 hne⟩)
  have hzy : z.1 ≤ y.1 := (pairwise_append.1 h).2.2 z hz y mem_cons_self
  omega

/-- A run of blobs of one file, where it stands in the file. -/
lemma content_slice {u : List (Placed α)} (hu : ∀ x ∈ u, x.1 = f) :
    ((content f (p ++ u ++ r)).drop (content f p).length).take (u.flatMap (·.2)).length = u.flatMap (·.2) := by
  rw [content_append, content_append, content_of_forall hu, append_assoc, drop_left, take_left]

/-! ## Records of one width -/

section Records
variable {β : Type} {enc : β → List α} {k : Nat}

lemma length_records (hk : ∀ b, (enc b).length = k) (l : List β) : (l.flatMap enc).length = k * l.length := by
  induction l with
  | nil => rfl
  | cons b l ih => simp [ih, hk, Nat.mul_add, Nat.add_comm]

lemma records_drop (hk : ∀ b, (enc b).length = k) (l : List β) (n : Nat) :
    (l.flatMap enc).drop (k * n) = (l.drop n).flatMap enc := by
  rcases Nat.le_total n l.length with hn | hn
  · conv_lhs => rw [← take_append_drop n l, flatMap_append]
    rw [drop_left']
    rw [length_records hk, length_take, Nat.min_eq_left hn]
  · rw [drop_of_length_le hn, drop_of_length_le]
    · rfl
    · rw [length_records hk]
      exact Nat.mul_le_mul_left k hn

lemma records_take (hk : ∀ b, (enc b).length = k) (l : List β) (n : Nat) :
    (l.flatMap enc).take (k * n) = (l.take n).flatMap enc := by
  have h := take_append_drop (k * n) (l.flatMap enc)
  conv_rhs at h => rw [← take_append_drop n l, flatMap_append]
  rw [records_drop hk] at h
  exact append_cancel_right h

end Records

/-! ## Beginnings that fit -/

section Fit
variable {β : Type} (size : β → Nat) (limit : Nat)

/-- The elements that fit below the limit, behind `total` that is used already. -/
def fit : Nat → List β → List β
  | _, [] => []
  | total, b :: l => if total + size b ≤ limit then b :: fit (total + size b) l else []

/-- The first element, fit or not, and those behind it that fit with it. -/
def fitOne : List β → List β
  | [] => []
  | b :: l => b :: fit size limit (size b) l

variable {size limit}

variable {l : List β} {size' : β → Nat} {total : Nat}

lemma fit_of_lt (h : limit < total) (l : List β) : fit size limit total l = [] := by
  cases l with
  | nil => rfl
  | cons b l => rw [fit, if_neg (by omega)]

/-- Nothing is cut off if everything fits. -/
lemma fit_eq_self (h : total + (l.map size).sum ≤ limit) : fit size limit total l = l := by
  induction l generalizing total with
  | nil => rfl
  | cons b l ih =>
    rw [map_cons, sum_cons] at h
    rw [fit, if_pos (by omega), ih (by omega)]

lemma fitOne_eq_self (h : (l.map size).sum ≤ limit) : fitOne size limit l = l := by
  cases l with
  | nil => rfl
  | cons b l => rw [fitOne, fit_eq_self (by simpa using h)]

lemma fit_map {γ : Type} (g : γ → β) (total : Nat) (l : List γ) :
    fit size limit total (l.map g) = (fit (fun c => size (g c)) limit total l).map g := by
  induction l generalizing total with
  | nil => rfl
  | cons c l ih =>
    rw [map_cons, fit, fit]
    split
    · rw [ih, map_cons]
    · rfl

lemma fitOne_map {γ : Type} (g : γ → β) (l : List γ) :
    fitOne size limit (l.map g) = (fitOne (fun c => size (g c)) limit l).map g := by
  cases l with
  | nil => rfl
  | cons c l => rw [map_cons, fitOne, fitOne, fit_map, map_cons]

end Fit

end TurboOctopus.Lib.Segments
