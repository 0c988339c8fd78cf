import Mathlib.Data.List.Induction
/-!
# Undo logs

A log of entries that undo the changes of a state, the last one first. `R log` relates the
states that cannot be told apart, also after the entries of the log are undone. A change
whose entries lead back to a related state can be put before any other such change
(`Restores.append`), so what holds of each change holds of a run.
-/

namespace TurboOctopus.Lib

open List

variable {σ ε : Type}

section Undo
variable (undo : ε → σ → Option σ)

/-- Undo a list of entries in its order. -/
def undoAll : List ε → σ → Option σ
  | [], s => some s
  | e :: es, s => (undo e s).bind (undoAll es)

lemma undoAll_append (es fs : List ε) (s : σ) : undoAll undo (es ++ fs) s = (undoAll undo es s).bind (undoAll undo fs) := by
  induction es generalizing s with
  | nil => rfl
  | cons e es ih =>
    rw [cons_append, undoAll, undoAll]
    cases undo e s with
    | none => rfl
    | some t => exact ih t

/-- Undoing an entry keeps states that cannot be told apart together. -/
structure Undoing (R : List ε → σ → σ → Prop) : Prop where
  trans : ∀ {log s t u}, R log s t → R log t u → R log s u
  step : ∀ {log e s s' t}, R (log ++ [e]) s s' → undo e s = some t → ∃ t', undo e s' = some t' ∧ R log t t'

/-- The new entries lead from `s` back to a state that is `s₀` to whoever looks. -/
def Restores (R : List ε → σ → σ → Prop) (log new : List ε) (s₀ s : σ) : Prop :=
  ∃ t, undoAll undo new.reverse s = some t ∧ R log s₀ t

end Undo

variable {undo : ε → σ → Option σ} {R : List ε → σ → σ → Prop} {log new new' : List ε} {s₀ s s' t : σ}

lemma Undoing.undoAll (h : Undoing undo R) (hR : R (log ++ new) s s') (ht : undoAll undo new.reverse s = some t) :
    ∃ t', Lib.undoAll undo new.reverse s' = some t' ∧ R log t t' := by
  induction new using List.reverseRecOn generalizing s s' with
  | nil =>
    cases ht
    exact ⟨s', rfl, by simpa using hR⟩
  | append_singleton new e ih =>
    rw [reverse_append, reverse_singleton, singleton_append, Lib.undoAll] at ht
    obtain ⟨u, hu, ht⟩ := Option.bind_eq_some_iff.1 ht
    obtain ⟨u', hu', hR'⟩ := h.step (by rwa [append_assoc]) hu
    obtain ⟨t', ht', hRt⟩ := ih hR' ht
    refine ⟨t', ?_, hRt⟩
    rw [reverse_append, reverse_singleton, singleton_append, Lib.undoAll, hu']
    exact ht'

lemma Restores.append (h : Undoing undo R) (hs : Restores undo R log new s₀ s)
    (hs' : Restores undo R (log ++ new) new' s s') : Restores undo R log (new ++ new') s₀ s' := by
  obtain ⟨t, ht, hRt⟩ := hs
  obtain ⟨u, hu, hRu⟩ := hs'
  obtain ⟨t', ht', hRt'⟩ := h.undoAll hRu ht
  refine ⟨t', ?_, h.trans hRt hRt'⟩
  rw [reverse_append, undoAll_append, hu]
  exact ht'

/-- A state that cannot be told from `s` leads back as well. -/
lemma Restores.related (h : Undoing undo R) (hs : Restores undo R log new s₀ s) (hR : R (log ++ new) s s') :
    Restores undo R log new s₀ s' := by
  obtain ⟨t, ht, hRt⟩ := hs
  obtain ⟨t', ht', hRt'⟩ := h.undoAll hR ht
  exact ⟨t', ht', h.trans hRt hRt'⟩

/-- Undoing the last entries first leads to a state from which the others lead back. -/
lemma Restores.older (hs : Restores undo R log (new ++ new') s₀ s) :
    ∃ t, Lib.undoAll undo new'.reverse s = some t ∧ Restores undo R log new s₀ t := by
  obtain ⟨t, ht, hRt⟩ := hs
  rw [reverse_append, undoAll_append] at ht
  obtain ⟨u, hu, ht⟩ := Option.bind_eq_some_iff.1 ht
  exact ⟨u, hu, t, ht, hRt⟩

end TurboOctopus.Lib
