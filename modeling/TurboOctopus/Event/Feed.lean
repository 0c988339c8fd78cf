import Mathlib.Data.List.Nodup
import TurboOctopus.Lib.Runs
/-!
# One-to-many subscriptions

`event.Feed` delivers each value to all subscribed channels. A `Send` holds the
send lock, takes the new channels over from the inbox and works on a beginning of
`sendCases` that gets shorter by swaps; channels are removed from the same list
while it waits for receivers. The channel operations and the sections under
`f.mu` are the steps, and whether a channel takes a value is open at each of them.
-/
namespace TurboOctopus.Event

open Lib List

/-- Where a `Send` is: it has the lock, it tries the case at `i`, or it waits in the `select`. -/
inductive Phase
  | locked
  | scan (i : Nat)
  | select

/-- A `Send` that holds the lock; `active` is the number of cases it still has to serve. -/
structure Sending where
  phase : Phase
  active : Nat
  nsent : Nat

/-- The case of `removeSub`, always the first, is left out of `sendCases`. -/
structure Feed (C : Type) where
  sendCases : List C
  inbox : List C
  sending : Option Sending
  /-- The channels whose `Unsubscribe` waits for a `Send` or for the lock. -/
  leaving : List C
  /-- The number of `Send`s that have had the lock: the number of the current one. -/
  sends : Nat
  /-- The deliveries, by the number of the `Send` and the channel. -/
  log : List (Nat × C)
  /-- What each `Send` has returned. -/
  returned : List (Nat × Nat)

inductive Step (C : Type)
  | subscribe (c : C)
  | lock
  /-- The inbox is taken over, and all cases are active. -/
  | merge
  | trySend (taken : Bool)
  /-- All active cases have been tried: the end of the `Send`, or the `select`. -/
  | scanned
  | choose (j : Nat)
  /-- `remove` looks through the inbox. -/
  | unsubscribe (c : C)
  /-- A `Send` in its `select` receives from `removeSub`. -/
  | removeSub (c : C)
  /-- `remove` takes the free send lock. -/
  | removeLocked (c : C)

/-! ## Case lists -/

section Cases
variable {C : Type} {cs : List C} {c : C} {i j n : Nat}

def delete (cs : List C) (index : Nat) : List C := cs.eraseIdx index

/-- `deactivate` on the first `last + 1` cases: a swap with the last of them. -/
def deactivate (cs : List C) (index last : Nat) : List C :=
  match cs[index]?, cs[last]? with
  | some a, some b => (cs.set index b).set last a
  | _, _ => cs

lemma deactivate_perm (cs : List C) (i j : Nat) : (deactivate cs i j).Perm cs := by
  unfold deactivate
  split
  next a b hi hj =>
    obtain ⟨hlt, rfl⟩ := List.getElem?_eq_some_iff.1 hi
    obtain ⟨hlt', rfl⟩ := List.getElem?_eq_some_iff.1 hj
    exact set_set_perm hlt hlt'
  · exact .refl _

/-- After the swap the case served is the first inactive one, and no other case has
changed sides. -/
lemma getElem_deactivate (hn : n < cs.length) (hj : j ≤ n) (hc : cs[j]? = some c) {d : C}
    (hd : (deactivate cs j n)[i]? = some d) :
    (i = n ∧ d = c) ∨ (i ≠ n ∧ ∃ k, k ≠ j ∧ cs[k]? = some d ∧ (i < n ↔ k ≤ n)) := by
  obtain ⟨hlt, rfl⟩ := List.getElem?_eq_some_iff.1 hc
  simp only [deactivate, hc, List.getElem?_eq_getElem hn] at hd
  by_cases hin : i = n
  · subst hin
    rw [List.getElem?_set_self (by simpa using hn)] at hd
    exact .inl ⟨rfl, (Option.some.inj hd).symm⟩
  · rw [List.getElem?_set_ne (Ne.symm hin)] at hd
    refine .inr ⟨hin, ?_⟩
    by_cases hij : i = j
    · subst hij
      rw [List.getElem?_set_self hlt] at hd
      refine ⟨n, fun h => hin h.symm, ?_, by omega⟩
      rw [List.getElem?_eq_getElem hn, hd]
    · rw [List.getElem?_set_ne (Ne.symm hij)] at hd
      exact ⟨i, hij, hd, by omega⟩

lemma getElem_inj (hnd : cs.Nodup) (hi : cs[i]? = some c) (hj : cs[j]? = some c) : i = j := by
  obtain ⟨hlt, rfl⟩ := List.getElem?_eq_some_iff.1 hi
  exact (List.getElem?_inj hlt hnd).1 (hi.trans hj.symm)

lemma mem_delete {d : C} (hi : cs[i]? = some c) (hd : d ∈ cs) (hne : d ≠ c) : d ∈ delete cs i := by
  obtain ⟨k, hk⟩ := mem_iff_getElem?.1 hd
  refine mem_eraseIdx_iff_getElem?.2 ⟨k, fun h => hne ?_, hk⟩
  subst h
  exact Option.some.inj (hk.symm.trans hi)

lemma not_mem_delete (hnd : cs.Nodup) (hi : cs[i]? = some c) : c ∉ delete cs i := by
  intro hc
  obtain ⟨k, hne, hk⟩ := mem_eraseIdx_iff_getElem?.1 hc
  exact hne (getElem_inj hnd hk hi)

variable [DecidableEq C]

def find (cs : List C) (c : C) : Option Nat := cs.findIdx? fun x => x = c

lemma find_some (h : find cs c = some i) : cs[i]? = some c := by
  obtain ⟨hlt, heq, -⟩ := findIdx?_eq_some_iff_getElem.1 h
  rw [List.getElem?_eq_getElem hlt, of_decide_eq_true heq]

lemma find_none (h : find cs c = none) : c ∉ cs := by
  intro hc
  simpa using findIdx?_eq_none_iff.1 h c hc

lemma find_isSome (h : c ∈ cs) : (find cs c).isSome := by
  cases hf : find cs c with
  | none => exact absurd h (find_none hf)
  | some i => rfl

end Cases

/-! ## The feed -/

variable {C : Type} [DecidableEq C]

namespace Feed

/-- The case at `j` takes the value. -/
def deliver (f : Feed C) (x : Sending) (j : Nat) (phase : Phase) : Option (Feed C) :=
  f.sendCases[j]?.map fun c =>
    { f with
      sendCases := deactivate f.sendCases j (x.active - 1)
      sending := some ⟨phase, x.active - 1, x.nsent + 1⟩
      log := f.log ++ [(f.sends, c)] }

def step (f : Feed C) : Step C → Option (Feed C)
  | .subscribe c => if c ∈ f.sendCases ∨ c ∈ f.inbox then none else some { f with inbox := f.inbox ++ [c] }
  | .lock =>
    match f.sending with
    | none => some { f with sending := some ⟨.locked, 0, 0⟩, sends := f.sends + 1 }
    | some _ => none
  | .merge =>
    match f.sending with
    | some ⟨.locked, _, nsent⟩ =>
      some { f with
        sendCases := f.sendCases ++ f.inbox
        inbox := []
        sending := some ⟨.scan 0, (f.sendCases ++ f.inbox).length, nsent⟩ }
    | _ => none
  | .trySend taken =>
    match f.sending with
    | some ⟨.scan i, active, nsent⟩ =>
      if i < active then
        -- the case swapped into place `i` is tried next
        if taken then f.deliver ⟨.scan i, active, nsent⟩ i (.scan i)
        else some { f with sending := some ⟨.scan (i + 1), active, nsent⟩ }
      else none
    | _ => none
  | .scanned =>
    match f.sending with
    | some ⟨.scan i, active, nsent⟩ =>
      if i < active then none
      else if active = 0 then some { f with sending := none, returned := f.returned ++ [(f.sends, nsent)] }
      else some { f with sending := some ⟨.select, active, nsent⟩ }
    | _ => none
  | .choose j =>
    match f.sending with
    | some ⟨.select, active, nsent⟩ => if j < active then f.deliver ⟨.select, active, nsent⟩ j (.scan 0) else none
    | _ => none
  | .unsubscribe c =>
    if c ∈ f.leaving then none
    else
      match find f.inbox c with
      | some index => some { f with inbox := delete f.inbox index }
      | none => if c ∈ f.sendCases then some { f with leaving := c :: f.leaving } else none
  | .removeSub c =>
    match f.sending, find f.sendCases c with
    | some ⟨.select, active, nsent⟩, some index =>
      if c ∈ f.leaving then
        some { f with
          sendCases := delete f.sendCases index
          leaving := f.leaving.erase c
          sending := some ⟨.scan 0, if index < active then active - 1 else active, nsent⟩ }
      else none
    | _, _ => none
  | .removeLocked c =>
    match f.sending, find f.sendCases c with
    | none, some index =>
      if c ∈ f.leaving then
        some { f with sendCases := delete f.sendCases index, leaving := f.leaving.erase c }
      else none
    | _, _ => none

end Feed

def empty : Feed C := ⟨[], [], none, [], 0, [], []⟩

abbrev Steps : Feed C → List (Step C) → Feed C → Prop := Run fun f e g => f.step e = some g

end TurboOctopus.Event
