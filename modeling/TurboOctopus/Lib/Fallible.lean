import Mathlib.Logic.Basic
/-!
# Functions that can fail

A Go function that returns `(T, error)` and changes nothing else is an
`Except`. One that also changes a shared value is an `EStateM`, whose state
survives an error, as the changes made before a Go `return err` do.
-/

namespace TurboOctopus.Lib

section Except
variable {ε α β : Type}

/-- `if c { return e }`. -/
def failIf (c : Prop) [Decidable c] (e : ε) : Except ε Unit := if c then .error e else .ok ()

variable {b : β} {e : ε} {f : α → Except ε β} {x : Except ε α}

lemma bind_ok_iff : (x >>= f) = .ok b ↔ ∃ a, x = .ok a ∧ f a = .ok b := by
  cases x with
  | error e => exact ⟨fun h => (nomatch h), fun ⟨_, h, _⟩ => (nomatch h)⟩
  | ok a => exact ⟨fun h => ⟨a, rfl, h⟩, fun ⟨a', h, hf⟩ => by cases h; exact hf⟩

@[simp] lemma failIf_ok_iff {c : Prop} [Decidable c] {u : Unit} : failIf c e = .ok u ↔ ¬ c := by
  unfold failIf
  split <;> simp_all

lemma failIf_bind_ok_iff {c : Prop} [Decidable c] {f : Unit → Except ε β} :
    (failIf c e >>= f) = .ok b ↔ ¬ c ∧ f () = .ok b := by
  rw [bind_ok_iff]
  exact ⟨fun ⟨_, h, hf⟩ => ⟨failIf_ok_iff.1 h, hf⟩, fun ⟨h, hf⟩ => ⟨(), failIf_ok_iff.2 h, hf⟩⟩

lemma failIf_of {c : Prop} [Decidable c] (h : c) : failIf c e = .error e := if_pos h

lemma failIf_of_not {c : Prop} [Decidable c] (h : ¬ c) : failIf c e = .ok () := if_neg h

@[simp] lemma ok_bind (a : α) (f : α → Except ε β) : (Except.ok a >>= f) = f a := rfl

@[simp] lemma error_bind (e : ε) (f : α → Except ε β) : (Except.error e >>= f) = .error e := rfl

@[simp] lemma pure_ok (a : α) : (pure a : Except ε α) = .ok a := rfl

lemma mapM_ok {l : List α} {g : α → β} (h : ∀ a ∈ l, f a = .ok (g a)) : l.mapM f = .ok (l.map g) := by
  induction l with
  | nil => rfl
  | cons a l ih =>
    rw [List.mapM_cons, h a List.mem_cons_self, ih fun b hb => h b (List.mem_cons_of_mem a hb)]
    rfl

/-- The call returns a value that passes a test. -/
def returns (x : Except ε α) (p : α → Bool) : Bool :=
  match x with
  | .ok a => p a
  | .error _ => false

lemma of_returns {p : α → Bool} (h : returns x p = true) : ∃ a, x = .ok a ∧ p a = true := by
  cases x with
  | ok a => exact ⟨a, rfl, h⟩
  | error e => cases h

end Except

section EStateM
variable {ε σ α β : Type}

lemma run_bind (x : EStateM ε σ α) (f : α → EStateM ε σ β) (s : σ) :
    (x >>= f) s = match x s with
      | .ok a t => f a t
      | .error e t => .error e t := rfl

variable {Q : α → σ → Prop} {R : σ → Prop} {a : α} {b : β} {e : ε} {f : α → EStateM ε σ β}
  {r : EStateM.Result ε σ α} {s t u : σ} {x : EStateM ε σ α}

lemma bind_run_ok (h : (x >>= f) s = .ok b t) : ∃ a u, x s = .ok a u ∧ f a u = .ok b t := by
  rw [run_bind] at h
  cases hx : x s with
  | ok a u => rw [hx] at h; exact ⟨a, u, rfl, h⟩
  | error e u => rw [hx] at h; cases h

lemma run_bind_of_ok (h : x s = .ok a u) : (x >>= f) s = f a u := by
  rw [run_bind, h]

lemma run_bind_of_error (h : x s = .error e u) : (x >>= f) s = .error e u := by
  rw [run_bind, h]

lemma bind_run_error
    (h : (x >>= f) s = .error e t) : x s = .error e t ∨ ∃ a u, x s = .ok a u ∧ f a u = .error e t := by
  rw [run_bind] at h
  cases hx : x s with
  | ok a u => rw [hx] at h; exact .inr ⟨a, u, rfl, h⟩
  | error e u => rw [hx] at h; cases h; exact .inl rfl

lemma map_run_ok {f : α → β} (h : (f <$> x) s = .ok b t) : ∃ a, x s = .ok a t ∧ f a = b := by
  rw [map_eq_pure_bind] at h
  obtain ⟨a, u, hx, hf⟩ := bind_run_ok h
  cases hf
  exact ⟨a, hx, rfl⟩

lemma map_run_of_ok {f : α → β} (h : x s = .ok a t) : (f <$> x) s = .ok (f a) t := by
  rw [map_eq_pure_bind, run_bind_of_ok h]
  rfl

lemma map_run_of_error {f : α → β} (h : x s = .error e t) : (f <$> x) s = .error e t := by
  rw [map_eq_pure_bind, run_bind_of_error h]

lemma map_run_error {f : α → β} (h : (f <$> x) s = .error e t) : x s = .error e t := by
  rw [map_eq_pure_bind] at h
  obtain hx | ⟨a, u, -, hf⟩ := bind_run_error h
  · exact hx
  · cases hf

lemma run_ite {c : Prop} [Decidable c] (x y : EStateM ε σ α) (s : σ) :
    (if c then x else y) s = if c then x s else y s := by
  split <;> rfl

/-- A call whose error is logged and dropped; what it changed stays. -/
def swallow (x : EStateM ε σ Unit) : EStateM ε σ Unit := fun s =>
  match x s with
  | .ok _ t => .ok () t
  | .error _ t => .ok () t

/-- A fallible function that reads and changes no state. -/
def lift (x : Except ε α) : EStateM ε σ α := fun s =>
  match x with
  | .ok a => .ok a s
  | .error e => .error e s

@[simp] lemma lift_ok (a : α) (s : σ) : lift (.ok a : Except ε α) s = .ok a s := rfl

lemma lift_run_ok {x : Except ε α} (h : lift x s = .ok a t) : x = .ok a ∧ t = s := by
  cases x with
  | ok b => cases h; exact ⟨rfl, rfl⟩
  | error e => cases h

/-- A call that works on the first of two shared values. -/
def onFst {τ : Type} (x : EStateM ε σ α) : EStateM ε (σ × τ) α := fun s =>
  match x s.1 with
  | .ok a t => .ok a (t, s.2)
  | .error e t => .error e (t, s.2)

/-- A call that works on the second of two shared values. -/
def onSnd {τ : Type} (x : EStateM ε τ α) : EStateM ε (σ × τ) α := fun s =>
  match x s.2 with
  | .ok a t => .ok a (s.1, t)
  | .error e t => .error e (s.1, t)

lemma onFst_run_ok {τ : Type} {s t : σ × τ} (h : onFst x s = .ok a t) : x s.1 = .ok a t.1 ∧ t.2 = s.2 := by
  unfold onFst at h
  cases hx : x s.1 with
  | ok b u => rw [hx] at h; cases h; exact ⟨rfl, rfl⟩
  | error e u => rw [hx] at h; cases h

lemma onSnd_run_ok {τ : Type} {x : EStateM ε τ α} {s t : σ × τ} (h : onSnd x s = .ok a t) :
    x s.2 = .ok a t.2 ∧ t.1 = s.1 := by
  unfold onSnd at h
  cases hx : x s.2 with
  | ok b u => rw [hx] at h; cases h; exact ⟨rfl, rfl⟩
  | error e u => rw [hx] at h; cases h

/-- What holds at the end of a call: `Q` of the value and the state it returns,
`R` of the state an error leaves behind. -/
def Ends (r : EStateM.Result ε σ α) (Q : α → σ → Prop) (R : σ → Prop) : Prop :=
  match r with
  | .ok a s => Q a s
  | .error _ s => R s

lemma Ends.bind {Q' : β → σ → Prop}
    (hx : Ends (x s) Q R) (hf : ∀ a t, Q a t → Ends (f a t) Q' R) : Ends ((x >>= f) s) Q' R := by
  rw [run_bind]
  cases h : x s with
  | ok a t => rw [h] at hx; exact hf a t hx
  | error e t => rw [h] at hx; exact hx

lemma Ends.lift {x : Except ε α} (hQ : ∀ a, x = .ok a → Q a s) (hR : R s) : Ends (lift x s) Q R := by
  cases x with
  | ok a => exact hQ a rfl
  | error e => exact hR

/-- The state a call leaves behind. -/
def stateOf (r : EStateM.Result ε σ α) : σ :=
  match r with
  | .ok _ s => s
  | .error _ s => s

lemma swallow_run (x : EStateM ε σ Unit) (s : σ) : swallow x s = .ok () (stateOf (x s)) := by
  unfold swallow
  cases x s <;> rfl

lemma Ends.stateOf (h : Ends r Q R) (hQ : ∀ a s, Q a s → R s) : R (stateOf r) := by
  cases r with
  | ok a s => exact hQ a s h
  | error e s => exact h

/-- The outcome of a call without its state. -/
def resultOf (r : EStateM.Result ε σ α) : Except ε α :=
  match r with
  | .ok a _ => .ok a
  | .error e _ => .error e

lemma of_resultOf_ok (h : resultOf r = .ok a) : r = .ok a (Lib.stateOf r) := by
  cases r with
  | ok b s => cases h; rfl
  | error e s => cases h

end EStateM

end TurboOctopus.Lib
