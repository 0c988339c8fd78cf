import Mathlib.Data.List.Basic
/-!
# Logs

What a program did, as a list that grows at its end. `Separated A B` says that between
any two entries that are `A` there is one that is `B`, and `Pending A B` that there is
an `A` with no `B` since: the one log can grow by an `A` exactly where the other does
not hold. `NoneAfter A B` says that no `B` comes after an `A`.
-/

namespace TurboOctopus.Lib

open List

variable {ε : Type} {A B : ε → Prop} {e : ε} {log : List ε}

def Pending (A B : ε → Prop) (log : List ε) : Prop := ∃ l x m, log = l ++ x :: m ∧ A x ∧ ∀ y ∈ m, ¬ B y

def Separated (A B : ε → Prop) (log : List ε) : Prop :=
  ∀ l x m y r, log = l ++ x :: (m ++ y :: r) → A x → A y → ∃ z ∈ m, B z

lemma not_pending_nil : ¬ Pending A B [] := by
  rintro ⟨l, x, m, h, -⟩
  simp at h

lemma separated_nil : Separated A B [] := by
  intro l x m y r h
  simp at h

/-- Where an entry stands in a log that grew: at its end, or in the log before. -/
lemma snoc_eq_append_cons {x : ε} {l m : List ε} (h : log ++ [e] = l ++ x :: m) :
    (log = l ∧ e = x ∧ m = []) ∨ ∃ m', m = m' ++ [e] ∧ log = l ++ x :: m' := by
  rcases eq_nil_or_concat m with rfl | ⟨m', y, rfl⟩
  · obtain ⟨hlog, he⟩ := append_inj' h rfl
    exact .inl ⟨hlog, singleton_inj.1 he, rfl⟩
  · have h' : log ++ [e] = (l ++ x :: m') ++ [y] := by simpa using h
    obtain ⟨hlog, he⟩ := append_inj' h' rfl
    obtain rfl := singleton_inj.1 he
    exact .inr ⟨m', by simp, hlog⟩

lemma pending_snoc : Pending A B (log ++ [e]) ↔ A e ∨ (¬ B e ∧ Pending A B log) := by
  constructor
  · rintro ⟨l, x, m, h, hx, hm⟩
    rcases snoc_eq_append_cons h with ⟨-, rfl, -⟩ | ⟨m, rfl, hlog⟩
    · exact .inl hx
    · simp only [mem_append, mem_singleton] at hm
      exact .inr ⟨hm e (.inr rfl), l, x, m, hlog, hx, fun y hy => hm y (.inl hy)⟩
  · rintro (he | ⟨he, l, x, m, rfl, hx, hm⟩)
    · exact ⟨log, e, [], rfl, he, by simp⟩
    · refine ⟨l, x, m ++ [e], by simp, hx, forall_mem_append.2 ⟨hm, forall_mem_singleton.2 he⟩⟩

lemma separated_snoc : Separated A B (log ++ [e]) ↔ Separated A B log ∧ (A e → ¬ Pending A B log) := by
  constructor
  · intro h
    refine ⟨fun l x m y r hlog => h l x m y (r ++ [e]) (by simp [hlog]), ?_⟩
    rintro he ⟨l, x, m, rfl, hx, hm⟩
    obtain ⟨z, hz, hB⟩ := h l x m e [] (by simp) hx he
    exact hm z hz hB
  · rintro ⟨hsep, hlast⟩ l x m y r h hx hy
    rw [← cons_append, ← append_assoc] at h
    rcases snoc_eq_append_cons h with ⟨hlog, rfl, -⟩ | ⟨r', rfl, hlog⟩
    · by_contra hm
      exact hlast hy ⟨l, x, m, hlog, hx, fun z hz hB => hm ⟨z, hz, hB⟩⟩
    · exact hsep l x m y r' (by simp [hlog]) hx hy

/-- What nothing ends is pending for good. -/
lemma pending_false_iff : Pending A (fun _ => False) log ↔ ∃ x ∈ log, A x := by
  constructor
  · rintro ⟨l, x, m, rfl, hx, -⟩
    exact ⟨x, by simp, hx⟩
  · rintro ⟨x, hmem, hx⟩
    obtain ⟨l, m, rfl⟩ := append_of_mem hmem
    exact ⟨l, x, m, rfl, hx, fun _ _ => id⟩

/-- Entries that are not `A` end what is pending if one of them is `B`. -/
lemma pending_append {es : List ε} (hA : ∀ e ∈ es, ¬ A e) :
    Pending A B (log ++ es) ↔ Pending A B log ∧ ∀ e ∈ es, ¬ B e := by
  induction es generalizing log with
  | nil => simp
  | cons e es ih =>
    rw [← singleton_append, ← append_assoc, ih fun x hx => hA x (mem_cons_of_mem _ hx), pending_snoc]
    simp only [hA e mem_cons_self, false_or, singleton_append, forall_mem_cons]
    tauto

lemma separated_append {es : List ε} (hA : ∀ e ∈ es, ¬ A e) : Separated A B (log ++ es) ↔ Separated A B log := by
  induction es generalizing log with
  | nil => simp
  | cons e es ih =>
    rw [← singleton_append, ← append_assoc, ih fun x hx => hA x (mem_cons_of_mem _ hx), separated_snoc]
    simp [hA e mem_cons_self]

/-- After an entry that is `A` there is none that is `B`. -/
def NoneAfter (A B : ε → Prop) (log : List ε) : Prop := ∀ l x m, log = l ++ x :: m → A x → ∀ y ∈ m, ¬ B y

lemma noneAfter_nil : NoneAfter A B [] := by
  intro l x m h
  simp at h

lemma noneAfter_snoc : NoneAfter A B (log ++ [e]) ↔ NoneAfter A B log ∧ (B e → ∀ x ∈ log, ¬ A x) := by
  constructor
  · intro h
    refine ⟨fun l x m hlog hx y hy => ?_, fun he x hx hA => ?_⟩
    · exact h l x (m ++ [e]) (by simp [hlog]) hx y (mem_append_left _ hy)
    · obtain ⟨l, m, rfl⟩ := append_of_mem hx
      exact h l x (m ++ [e]) (by simp) hA e (by simp) he
  · rintro ⟨hnone, hlast⟩ l x m h hx
    rcases snoc_eq_append_cons h with ⟨-, -, rfl⟩ | ⟨m', rfl, hlog⟩
    · nofun
    · refine forall_mem_append.2 ⟨hnone l x m' hlog hx, forall_mem_singleton.2 fun he => ?_⟩
      exact hlast he x (by simp [hlog]) hx

/-- Two different entries stand one before the other. -/
lemma append_cons_of_mem {x y : ε} (hx : x ∈ log) (hy : y ∈ log) (hne : x ≠ y) :
    (∃ l m r, log = l ++ x :: (m ++ y :: r)) ∨ ∃ l m r, log = l ++ y :: (m ++ x :: r) := by
  obtain ⟨l, m, rfl⟩ := append_of_mem hx
  rcases mem_append.1 hy with hy | hy
  · obtain ⟨l, r, rfl⟩ := append_of_mem hy
    exact .inr ⟨l, r, m, by simp⟩
  · obtain ⟨m, r, rfl⟩ := append_of_mem ((mem_cons.1 hy).resolve_left hne.symm)
    exact .inl ⟨l, m, r, rfl⟩

end TurboOctopus.Lib
