import Mathlib.Logic.Relation
/-!
# Critical sections

Which mutexes a goroutine takes in a step, where every section is closed before the one
around it: a mutex taken twice is a deadlock of the goroutine with itself, and mutexes
nested in a cycle are one between goroutines. Mutexes that are only taken in the order
of a rank are free of both.
-/

namespace TurboOctopus.Lib

variable {μ : Type}

inductive Sections (μ : Type)
  | skip
  | seq (first second : Sections μ)
  | hold (m : μ) (inner : Sections μ)

/-- Some mutex is taken while it is held. -/
def Sections.Relocks : List μ → Sections μ → Prop
  | _, .skip => False
  | held, .seq a b => a.Relocks held ∨ b.Relocks held
  | held, .hold m a => m ∈ held ∨ a.Relocks (m :: held)

/-- `n` is taken while `m` is held. -/
def Sections.Nests (m n : μ) : List μ → Sections μ → Prop
  | _, .skip => False
  | held, .seq a b => a.Nests m n held ∨ b.Nests m n held
  | held, .hold l a => (m ∈ held ∧ n = l) ∨ a.Nests m n (l :: held)

/-- Every mutex has a higher rank than those around it, and none is below `bound`. -/
def Sections.Ascends (rank : μ → Nat) : Nat → Sections μ → Prop
  | _, .skip => True
  | bound, .seq a b => a.Ascends rank bound ∧ b.Ascends rank bound
  | bound, .hold m a => bound ≤ rank m ∧ a.Ascends rank (rank m + 1)

variable {bound : Nat} {c : Sections μ} {held : List μ} {m : μ}

/-- A mutex taken twice is nested in itself. -/
lemma Sections.Relocks.nests_self (h : c.Relocks held) : ∃ m, c.Nests m m held := by
  induction c generalizing held with
  | skip => exact h.elim
  | seq a b iha ihb =>
    rcases h with h | h
    · exact (iha h).imp fun m hm => .inl hm
    · exact (ihb h).imp fun m hm => .inr hm
  | hold l a ih =>
    rcases h with h | h
    · exact ⟨l, .inl ⟨h, rfl⟩⟩
    · exact (ih h).imp fun m hm => .inr hm

variable {rank : μ → Nat}

lemma rank_lt_of_mem_cons (hheld : ∀ l ∈ held, rank l < bound)
    (hm : bound ≤ rank m) : ∀ l ∈ m :: held, rank l < rank m + 1 :=
  List.forall_mem_cons.2 ⟨Nat.lt_succ_self _, fun l hl => Nat.lt_succ_of_lt (Nat.lt_of_lt_of_le (hheld l hl) hm)⟩

lemma Sections.Ascends.not_relocks (h : c.Ascends rank bound)
    (hheld : ∀ m ∈ held, rank m < bound) : ¬ c.Relocks held := by
  induction c generalizing bound held with
  | skip => exact id
  | seq a b iha ihb => exact fun hr => hr.elim (iha h.1 hheld) (ihb h.2 hheld)
  | hold m a ih =>
    rintro (hm | hr)
    · exact absurd (hheld m hm) (Nat.not_lt.2 h.1)
    · exact ih h.2 (rank_lt_of_mem_cons hheld h.1) hr

lemma Sections.Ascends.lt_of_nests {n : μ}
    (h : c.Ascends rank bound) (hheld : ∀ m ∈ held, rank m < bound) (hn : c.Nests m n held) : rank m < rank n := by
  induction c generalizing bound held with
  | skip => exact hn.elim
  | seq a b iha ihb => exact hn.elim (iha h.1 hheld) (ihb h.2 hheld)
  | hold l a ih =>
    rcases hn with ⟨hm, rfl⟩ | hn
    · exact Nat.lt_of_lt_of_le (hheld m hm) h.1
    · exact ih h.2 (rank_lt_of_mem_cons hheld h.1) hn

/-- A relation along which a rank grows has no cycle. -/
lemma acyclic_of_rank (rank : μ → Nat) {R : μ → μ → Prop} (h : ∀ m n, R m n → rank m < rank n) (m : μ) :
    ¬ Relation.TransGen R m m := by
  have hlt : ∀ n, Relation.TransGen R m n → rank m < rank n := fun n hn => by
    induction hn with
    | single hmn => exact h _ _ hmn
    | tail _ hmn ih => exact Nat.lt_trans ih (h _ _ hmn)
  exact fun hm => Nat.lt_irrefl _ (hlt m hm)

end TurboOctopus.Lib
