import Mathlib.Logic.Basic
/-!
# Runs of a transition system

A run is a list of events with the states between them. Whatever one step
keeps, every run keeps (`Run.inv`), and a run over a concatenation is two runs
in a row (`Run.append_iff`), which is how a property of two moments of one run
is read off it.
-/

namespace TurboOctopus.Lib

variable {σ ε : Type} {step : σ → ε → σ → Prop}

/-- From the first state, through the events, to the last state. -/
inductive Run (step : σ → ε → σ → Prop) : σ → List ε → σ → Prop
  | nil (s : σ) : Run step s [] s
  | cons {s t u : σ} {e : ε} {es : List ε} : step s e t → Run step t es u → Run step s (e :: es) u

variable {e : ε} {es fs : List ε} {f : σ → ε → Option σ} {p : σ → Bool} {s t u : σ}

namespace Run

lemma nil_iff : Run step s [] t ↔ t = s :=
  ⟨fun h => by cases h; rfl, fun h => by rw [h]; exact .nil s⟩

lemma cons_iff : Run step s (e :: es) u ↔ ∃ t, step s e t ∧ Run step t es u :=
  ⟨fun h => by cases h with | cons h1 h2 => exact ⟨_, h1, h2⟩, fun ⟨_, h1, h2⟩ => .cons h1 h2⟩

lemma single (h : step s e t) : Run step s [e] t := .cons h (.nil t)

lemma append_iff : Run step s (es ++ fs) u ↔ ∃ t, Run step s es t ∧ Run step t fs u := by
  induction es generalizing s with
  | nil => simp [nil_iff]
  | cons e es ih =>
    simp only [List.cons_append, cons_iff, ih]
    constructor
    · rintro ⟨t, h, v, h1, h2⟩
      exact ⟨v, ⟨t, h, h1⟩, h2⟩
    · rintro ⟨v, ⟨t, h, h1⟩, h2⟩
      exact ⟨t, h, v, h1, h2⟩

lemma append (h : Run step s es t) (h' : Run step t fs u) :
    Run step s (es ++ fs) u := append_iff.2 ⟨t, h, h'⟩

lemma snoc_iff : Run step s (es ++ [e]) u ↔ ∃ t, Run step s es t ∧ step t e u := by
  simp [append_iff, cons_iff, nil_iff]

/-- A function that can always take a step has one run through every list of events. -/
lemma of_fun (f : σ → ε → σ) (s : σ) (es : List ε) : Run (fun s e t => t = f s e) s es (es.foldl f s) := by
  induction es generalizing s with
  | nil => exact .nil s
  | cons e es ih => exact .cons rfl (ih (f s e))

/-- The run of a function that may refuse a step, found by running it: it ends in
a state that passes the test. -/
lemma of_foldlM (h : (es.foldlM f s).any p = true) : ∃ t, Run (fun s e t => f s e = some t) s es t ∧ p t = true := by
  induction es generalizing s with
  | nil => exact ⟨s, .nil s, h⟩
  | cons e es ih =>
    rw [List.foldlM_cons] at h
    cases hu : f s e with
    | none => rw [hu] at h; cases h
    | some u =>
      rw [hu] at h
      obtain ⟨t, hrun, hp⟩ := ih h
      exact ⟨t, .cons hu hrun, hp⟩

lemma mono {step' : σ → ε → σ → Prop} (h : Run step s es t)
    (hs : ∀ s e t, step s e t → step' s e t) : Run step' s es t := by
  induction h with
  | nil s => exact .nil s
  | cons h1 _ ih => exact .cons (hs _ _ _ h1) ih

end Run

/-- The steps of a function that meet a condition on the state before them. -/
def Guarded (ok : σ → ε → Prop) (f : σ → ε → Option σ) (s : σ) (e : ε) (t : σ) : Prop := ok s e ∧ f s e = some t

/-- The run of such a function, found by running it with the condition checked. -/
lemma Run.of_guarded {ok : σ → ε → Prop} [∀ s e, Decidable (ok s e)]
    (h : (es.foldlM (fun s e => if ok s e then f s e else none) s).any p = true) :
    ∃ t, Run (Guarded ok f) s es t ∧ p t = true := by
  obtain ⟨t, hrun, hp⟩ := Run.of_foldlM h
  refine ⟨t, hrun.mono fun s e t hstep => ?_, hp⟩
  split at hstep
  · exact ⟨‹_›, hstep⟩
  · cases hstep

/-- What every step keeps holds at the end of every run that starts with it. -/
lemma Run.inv (I : σ → Prop) (h : Run step s es t) (h0 : I s) (hs : ∀ s e t, I s → step s e t → I t) : I t := by
  induction h with
  | nil s => exact h0
  | cons h1 _ ih => exact ih (hs _ _ _ h0 h1)

end TurboOctopus.Lib
