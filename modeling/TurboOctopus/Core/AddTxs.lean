import Mathlib.Data.List.Basic
/-!
# The errors of a batch

`addTxs` presets the slots of known and badly signed transactions, hands the others to
`addTxsLocked` and puts its errors into the slots that are still nil. A blacklisted
transaction is left out without an error, so its slot is taken by the outcome of a later
one (`blocked_slot_is_taken`).
-/

namespace TurboOctopus.Core

/-- What `addTxs` uses of the pool `Q`; `add` is `pool.add`. -/
structure TxPool (Q T A E : Type) where
  known : Q → T → Bool
  sender : T → Option A
  recipient : T → Option A
  nanoBlackList : List A
  add : Q → T → Q × Option E

inductive AddError (E : Type)
  | alreadyKnown
  | invalidSender
  | rejected (e : E)
deriving DecidableEq

namespace TxPool

variable {Q T A E : Type} [DecidableEq A] (p : TxPool Q T A E)

/-- The error that is set before the pool is locked. -/
def preset (q : Q) (tx : T) : Option (AddError E) :=
  if p.known q tx then some .alreadyKnown
  else
    match p.sender tx with
    | none => some .invalidSender
    | some _ => none

def shouldBlock (tx : T) : Bool :=
  p.nanoBlackList.any fun a => p.sender tx = some a || p.recipient tx = some a

def addTxsLocked : Q → List T → Q × List (Option (AddError E))
  | q, [] => (q, [])
  | q, tx :: txs =>
    let r := addTxsLocked (p.add q tx).1 txs
    (r.1, (p.add q tx).2.map .rejected :: r.2)

/-- The errors go to the nil slots in turn; `none` is an index out of range. -/
def fillSlots : List (Option (AddError E)) → List (Option (AddError E)) → Option (List (Option (AddError E)))
  | errs, [] => some errs
  | [], _ :: _ => none
  | some e :: errs, newErrs => (fillSlots errs newErrs).map (some e :: ·)
  | none :: errs, err :: newErrs => (fillSlots errs newErrs).map (err :: ·)

/-- The transactions without an error that are not blocked. -/
def news (q : Q) (txs : List T) : List T := txs.filter fun tx => (p.preset q tx).isNone && !p.shouldBlock tx

def addTxs (q : Q) (txs : List T) : Option (Q × List (Option (AddError E))) :=
  let errs := txs.map (p.preset q)
  let news := p.news q txs
  if news.length = 0 then some (q, errs)
  else (fillSlots errs (p.addTxsLocked q news).2).map ((p.addTxsLocked q news).1, ·)

/-- Each transaction with what it gets itself: nothing if `add` accepts it. Known is what
was in the pool `q₀` of the call. For a blocked one nothing is decided. -/
def outcomes (q₀ : Q) : Q → List T → Q × List (Option (Option (AddError E)))
  | q, [] => (q, [])
  | q, tx :: txs =>
    match p.preset q₀ tx with
    | some e => ((outcomes q₀ q txs).1, some (some e) :: (outcomes q₀ q txs).2)
    | none =>
      if p.shouldBlock tx then ((outcomes q₀ q txs).1, none :: (outcomes q₀ q txs).2)
      else
        ((outcomes q₀ (p.add q tx).1 txs).1,
          some ((p.add q tx).2.map .rejected) :: (outcomes q₀ (p.add q tx).1 txs).2)

variable {p} {q₀ : Q}

lemma fillSlots_some (e : AddError E) (errs newErrs : List (Option (AddError E))) :
    fillSlots (some e :: errs) newErrs = (fillSlots errs newErrs).map (some e :: ·) := by
  cases newErrs <;> simp [fillSlots]

/-- With slots enough, each nil slot gets nothing or one of the errors. -/
lemma fillSlots_spec {errs newErrs : List (Option (AddError E))} (hle : newErrs.length ≤ errs.countP (·.isNone)) :
    ∃ errs', fillSlots errs newErrs = some errs' ∧ errs'.length = errs.length ∧
      ∀ i : Nat, errs[i]? = some none → ∃ err, errs'[i]? = some err ∧ (err = none ∨ err ∈ newErrs) := by
  induction errs generalizing newErrs with
  | nil =>
    rw [List.length_eq_zero_iff.1 (Nat.le_zero.1 hle)]
    exact ⟨[], rfl, rfl, nofun⟩
  | cons slot errs ih =>
    cases slot with
    | some e =>
      have hle' : newErrs.length ≤ errs.countP (·.isNone) := by simpa using hle
      obtain ⟨errs', hrun, hlen, hslots⟩ := ih hle'
      refine ⟨some e :: errs', by rw [fillSlots_some, hrun]; rfl, by simp [hlen], fun i hi => ?_⟩
      cases i with
      | zero => cases hi
      | succ i => exact hslots i hi
    | none =>
      cases newErrs with
      | nil => exact ⟨none :: errs, rfl, rfl, fun i hi => ⟨none, hi, .inl rfl⟩⟩
      | cons err newErrs =>
        have hle' : newErrs.length ≤ errs.countP (·.isNone) := by simpa using hle
        obtain ⟨errs', hrun, hlen, hslots⟩ := ih hle'
        refine ⟨err :: errs', by rw [fillSlots, hrun]; rfl, by simp [hlen], fun i hi => ?_⟩
        cases i with
        | zero => exact ⟨err, rfl, .inr List.mem_cons_self⟩
        | succ i =>
          obtain ⟨err', hget, hor⟩ := hslots i hi
          exact ⟨err', hget, hor.imp_right (List.mem_cons_of_mem _)⟩

/-- What `addTxsLocked` returns are outcomes, one for each of its transactions. -/
lemma addTxsLocked_news (q₀ q : Q) (txs : List T) : (p.addTxsLocked q (p.news q₀ txs)).1 = (p.outcomes q₀ q txs).1 ∧
    (p.addTxsLocked q (p.news q₀ txs)).2.length ≤ (txs.map (p.preset q₀)).countP (·.isNone) ∧
    ∀ err ∈ (p.addTxsLocked q (p.news q₀ txs)).2, some err ∈ (p.outcomes q₀ q txs).2 := by
  unfold news
  fun_induction outcomes p q₀ q txs with
  | case1 => exact ⟨rfl, Nat.le_refl _, nofun⟩
  | case2 q tx txs e hpre ih =>
    simp only [List.filter_cons, hpre, List.map_cons, Option.isNone_some, Bool.false_and, Bool.false_eq_true, if_false,
      List.countP_cons, Nat.add_zero]
    exact ⟨ih.1, ih.2.1, fun err herr => List.mem_cons_of_mem _ (ih.2.2 err herr)⟩
  | case3 q tx txs hpre hblock ih =>
    simp only [List.filter_cons, hpre, hblock, List.map_cons, Bool.not_true, Bool.and_false, Bool.false_eq_true, if_false,
      List.countP_cons]
    exact ⟨ih.1, Nat.le_add_right_of_le ih.2.1, fun err herr => List.mem_cons_of_mem _ (ih.2.2 err herr)⟩
  | case4 q tx txs hpre hblock ih =>
    simp only [List.filter_cons, hpre, hblock, List.map_cons, Option.isNone_none, Bool.not_false, Bool.and_self, if_true,
      List.countP_cons, addTxsLocked, List.length_cons]
    exact ⟨ih.1, Nat.succ_le_succ ih.2.1, List.forall_mem_cons.2 ⟨List.mem_cons_self, fun err herr =>
      List.mem_cons_of_mem _ (ih.2.2 err herr)⟩⟩

/-- Without blocked transactions the slots are the outcomes. -/
lemma fillSlots_news (q : Q) {txs : List T} (hblock : ∀ tx ∈ txs, p.preset q₀ tx = none → p.shouldBlock tx = false) :
    ∃ errs, fillSlots (txs.map (p.preset q₀)) (p.addTxsLocked q (p.news q₀ txs)).2 = some errs ∧
      (p.outcomes q₀ q txs).2 = errs.map some := by
  unfold news
  fun_induction outcomes p q₀ q txs with
  | case1 => exact ⟨[], rfl, rfl⟩
  | case2 q tx txs e hpre ih =>
    obtain ⟨errs, hrun, heq⟩ := ih (List.forall_mem_cons.1 hblock).2
    refine ⟨some e :: errs, ?_, by rw [heq]; rfl⟩
    simp only [List.map_cons, List.filter_cons, hpre, Option.isNone_some, Bool.false_and, Bool.false_eq_true, if_false,
      fillSlots_some, hrun, Option.map_some]
  | case3 q tx txs hpre hyes ih =>
    rw [(List.forall_mem_cons.1 hblock).1 hpre] at hyes
    cases hyes
  | case4 q tx txs hpre hno ih =>
    obtain ⟨errs, hrun, heq⟩ := ih (List.forall_mem_cons.1 hblock).2
    refine ⟨(p.add q tx).2.map .rejected :: errs, ?_, by rw [heq]; rfl⟩
    simp only [List.map_cons, List.filter_cons, hpre, hno, Option.isNone_none, Bool.not_false, Bool.and_self, if_true,
      addTxsLocked, fillSlots, hrun, Option.map_some]

lemma none_mem_outcomes (q : Q) {txs : List T} {tx : T} (htx : tx ∈ txs) (hpre : p.preset q₀ tx = none)
    (hblock : p.shouldBlock tx = true) : none ∈ (p.outcomes q₀ q txs).2 := by
  fun_induction outcomes p q₀ q txs with
  | case1 => cases htx
  | case2 q tx' txs e hpre' ih =>
    rcases List.mem_cons.1 htx with rfl | htx
    · rw [hpre] at hpre'
      cases hpre'
    · exact List.mem_cons_of_mem _ (ih htx)
  | case3 => exact List.mem_cons_self
  | case4 q tx' txs hpre' hno ih =>
    rcases List.mem_cons.1 htx with rfl | htx
    · exact absurd hblock hno
    · exact List.mem_cons_of_mem _ (ih htx)

/-- Every slot has the outcome of its own transaction exactly if no new transaction is blocked.
The slot of a blocked one is nil, as if it was accepted, or has the outcome of another. -/
theorem add_errors_in_place (q : Q) (txs : List T) : ∃ errs, p.addTxs q txs = some ((p.outcomes q q txs).1, errs) ∧
    errs.length = txs.length ∧
    ((p.outcomes q q txs).2 = errs.map some ↔ ∀ tx ∈ txs, p.preset q tx = none → p.shouldBlock tx = false) ∧
    ∀ (i : Nat) tx, txs[i]? = some tx → p.preset q tx = none → p.shouldBlock tx = true →
      ∃ err, errs[i]? = some err ∧ (err = none ∨ some err ∈ (p.outcomes q q txs).2) := by
  obtain ⟨hpool, hle, hmem⟩ := addTxsLocked_news (p := p) q q txs
  obtain ⟨errs, hrun, hlen, hslots⟩ := fillSlots_spec hle
  have heq : p.addTxs q txs = some ((p.outcomes q q txs).1, errs) := by
    rw [addTxs, ← hpool]
    split
    next hnone =>
      rw [List.length_eq_zero_iff.1 hnone, addTxsLocked, fillSlots] at hrun
      rw [Option.some.inj hrun, List.length_eq_zero_iff.1 hnone]
      rfl
    · rw [hrun]
      rfl
  refine ⟨errs, heq, by simpa using hlen, ⟨fun hown tx htx hpre => ?_, fun hblock => ?_⟩, fun i tx hi hpre hblock => ?_⟩
  · by_contra hyes
    have hnone := none_mem_outcomes (p := p) q htx hpre (by simpa using hyes)
    rw [hown] at hnone
    simp at hnone
  · obtain ⟨errs', hrun', hown⟩ := fillSlots_news q hblock
    cases hrun.symm.trans hrun'
    exact hown
  · obtain ⟨err, hget, hor⟩ := hslots i (by rw [List.getElem?_map, hi, Option.map_some, hpre])
    exact ⟨err, hget, hor.imp_right (hmem err)⟩

end TxPool

/-- A pool of numbers: 1 to 3 are signed, 9 is blacklisted, and 3 is refused. -/
def smallPool : TxPool (List Nat) Nat Nat Unit where
  known q tx := tx ∈ q
  sender tx := if tx = 0 then none else some tx
  recipient _ := none
  nanoBlackList := [9]
  add q tx := if tx = 3 then (q, some ()) else (tx :: q, none)

/-- The blocked transaction gets the error of the one after it, which gets none. -/
theorem blocked_slot_is_taken : smallPool.addTxs [] [9, 3] = some ([], [some (.rejected ()), none]) := by decide +kernel

end TurboOctopus.Core
