import TurboOctopus.Types.Transaction
import TurboOctopus.Lib.Heap
import Mathlib.Data.List.Nodup
import Mathlib.Algebra.Order.BigOperators.Group.List
import Mathlib.Logic.Function.Basic
/-!
# Transactions by price and nonce

The order in which a miner takes transactions: the best of the next transactions of all
accounts. A trace says which transactions were taken, and what `Waiting` says of it is what
the heads should be.
-/
namespace TurboOctopus.Types

open Lib List

/-! ## The source -/

/-- A transaction and the time it was first seen. -/
structure Pooled where
  tx : Transaction
  time : Int
deriving DecidableEq

/-- `none` is `ErrGasFeeCapTooLow`. -/
def Transaction.effectiveGasTip (tx : Transaction) (baseFee : Option Int) : Option Int :=
  match baseFee with
  | none => some tx.gasTipCap
  | some baseFee =>
    if (tx.gasFeeCap : Int) < baseFee then none else some (min (tx.gasTipCap : Int) (tx.gasFeeCap - baseFee))

structure TxWithMinerFee where
  tx : Pooled
  minerFee : Int

def newTxWithMinerFee (tx : Pooled) (baseFee : Option Int) : Option TxWithMinerFee :=
  (tx.tx.effectiveGasTip baseFee).map fun minerFee => ⟨tx, minerFee⟩

def TxWithMinerFee.less (a b : TxWithMinerFee) : Prop :=
  if a.minerFee = b.minerFee then a.tx.time < b.tx.time else a.minerFee > b.minerFee

instance : DecidableRel TxWithMinerFee.less := fun a b =>
  inferInstanceAs (Decidable (if a.minerFee = b.minerFee then a.tx.time < b.tx.time else a.minerFee > b.minerFee))

/-- The sender that the signer recovers and the base fee stay as they are: they are parameters. -/
structure TxsByPriceAndNonce (sender : Transaction → Address) (baseFee : Option Int) where
  txs : Address → Option (List Pooled)
  heads : List TxWithMinerFee

section Source
variable (sender : Transaction → Address) (baseFee : Option Int)

/-- The first transaction of an account, if the account is kept. -/
def newHead (txs : Address → Option (List Pooled)) (account : Address) : Option TxWithMinerFee :=
  match txs account with
  | some (tx :: _) => if sender tx.tx ≠ account then none else newTxWithMinerFee tx baseFee
  | _ => none

/-- `accounts` is the order in which the map is gone through. An empty list panics. -/
def newTxsByPriceAndNonce (accounts : List Address) (txs : Address → Option (List Pooled)) :
    Option (TxsByPriceAndNonce sender baseFee) :=
  if accounts.any fun account => txs account = some [] then none
  else some
    { txs := fun account => (newHead sender baseFee txs account).bind fun _ => (txs account).map List.tail
      heads := Heap.init TxWithMinerFee.less (accounts.filterMap (newHead sender baseFee txs)) }

end Source

/-- The head is taken: replaced by the next one of its account, or with all of the account. -/
inductive Take
  | shift
  | pop
deriving DecidableEq

namespace TxsByPriceAndNonce

variable {sender : Transaction → Address} {baseFee : Option Int}

def peek (t : TxsByPriceAndNonce sender baseFee) : Option Pooled := t.heads.head?.map (·.tx)

def pop (t : TxsByPriceAndNonce sender baseFee) : Option (TxsByPriceAndNonce sender baseFee) :=
  if t.heads = [] then none else some { t with heads := Heap.pop TxWithMinerFee.less t.heads }

def shift (t : TxsByPriceAndNonce sender baseFee) : Option (TxsByPriceAndNonce sender baseFee) :=
  match t.heads with
  | [] => none
  | head :: heads =>
    let acc := sender head.tx.tx
    match t.txs acc with
    | some (tx :: txs) =>
      match newTxWithMinerFee tx baseFee with
      | some wrapped => some ⟨Function.update t.txs acc (some txs), Heap.fix TxWithMinerFee.less (wrapped :: heads) 0⟩
      | none => t.pop
    | _ => t.pop

def take (t : TxsByPriceAndNonce sender baseFee) : Take → Option (TxsByPriceAndNonce sender baseFee)
  | .shift => t.shift
  | .pop => t.pop

/-- What is peeked at before each of the calls. -/
def takes : TxsByPriceAndNonce sender baseFee → List Take →
    Option (List (Take × Pooled) × TxsByPriceAndNonce sender baseFee)
  | t, [] => some ([], t)
  | t, k :: ks => t.peek.bind fun tx => (t.take k).bind fun u => (takes u ks).map fun (trace, v) => ((k, tx) :: trace, v)

end TxsByPriceAndNonce

/-! ## The specification -/

/-- What the set is made of. -/
structure Offer where
  sender : Transaction → Address
  baseFee : Option Int
  txs : Address → Option (List Pooled)

def affordable (baseFee : Option Int) (x : Pooled) : Bool := (x.tx.effectiveGasTip baseFee).isSome

namespace Offer

variable (o : Offer)

def list (account : Address) : List Pooled := (o.txs account).getD []

/-- The transactions of an account that were taken. -/
def given (trace : List (Take × Pooled)) (account : Address) : List Pooled :=
  (trace.map Prod.snd).filter fun x => o.sender x.tx = account

/-- The next transaction of an account that still has one. -/
structure Waiting (trace : List (Take × Pooled)) (account : Address) (x : Pooled) (rest : List Pooled) : Prop where
  next : o.list account = o.given trace account ++ x :: rest
  kept : ∀ y, (Take.pop, y) ∈ trace → o.sender y.tx ≠ account
  affordable : affordable o.baseFee x = true

/-- A higher tip, or the same tip and seen earlier. -/
def Beats (x y : Pooled) : Prop :=
  ∃ tip tip', x.tx.effectiveGasTip o.baseFee = some tip ∧ y.tx.effectiveGasTip o.baseFee = some tip' ∧
    (tip' < tip ∨ tip = tip' ∧ x.time < y.time)

end Offer

/-! ## One call -/

lemma weakOrder_less : Heap.WeakOrder TxWithMinerFee.less where
  asymm x y := by
    unfold TxWithMinerFee.less
    split_ifs <;> omega
  trans x y z := by
    unfold TxWithMinerFee.less
    split_ifs <;> omega

lemma newTxWithMinerFee_tx {x : Pooled} {baseFee : Option Int} {w : TxWithMinerFee}
    (h : newTxWithMinerFee x baseFee = some w) : w.tx = x ∧ affordable baseFee x = true := by
  obtain ⟨fee, hfee, rfl⟩ := Option.map_eq_some_iff.1 h
  exact ⟨rfl, by rw [affordable, hfee]; rfl⟩

lemma affordable_iff {x : Pooled} {baseFee : Option Int} :
    affordable baseFee x = true ↔ ∃ w, newTxWithMinerFee x baseFee = some w := by
  rw [affordable, newTxWithMinerFee]
  cases x.tx.effectiveGasTip baseFee <;> simp

section Calls
variable {sender : Transaction → Address} {baseFee : Option Int} {t t' : TxsByPriceAndNonce sender baseFee}
  {head : TxWithMinerFee} {heads : List TxWithMinerFee} {new : Option TxWithMinerFee} {k : Take} {x : Pooled}
  {accounts : List Address}

/-- What a call does: the head goes, the others stay, and with `Shift` one of its account may
come, unless that has no other or cannot pay for it. -/
structure Taken (t : TxsByPriceAndNonce sender baseFee) (head : TxWithMinerFee) (heads : List TxWithMinerFee) (k : Take)
    (new : Option TxWithMinerFee) (t' : TxsByPriceAndNonce sender baseFee) : Prop where
  before : t.heads = head :: heads
  ordered : Heap.Ordered TxWithMinerFee.less t.heads → Heap.Ordered TxWithMinerFee.less t'.heads
  perm : t'.heads.Perm (new.toList ++ heads)
  others : ∀ account, account ≠ sender head.tx.tx → t'.txs account = t.txs account
  comes : ∀ w, new = some w → k = .shift ∧ newTxWithMinerFee w.tx baseFee = some w ∧
    ∃ rest, t.txs (sender head.tx.tx) = some (w.tx :: rest) ∧ t'.txs (sender head.tx.tx) = some rest
  goes : new = none → t'.txs = t.txs ∧
    (k = .shift → ∀ tx rest, t.txs (sender head.tx.tx) = some (tx :: rest) → affordable baseFee tx = false)

lemma pop_taken (ht : t.heads = head :: heads)
    (hgoes : k = .shift → ∀ tx rest, t.txs (sender head.tx.tx) = some (tx :: rest) → affordable baseFee tx = false) :
    ∃ t', t.pop = some t' ∧ Taken t head heads k none t' := by
  refine ⟨_, if_neg (by rw [ht]; exact cons_ne_nil _ _), ht, ?_, ?_, fun _ _ => rfl, nofun, fun _ => ⟨rfl, hgoes⟩⟩
  · rw [ht]
    exact weakOrder_less.pop_ordered
  · rw [ht]
    exact Heap.pop_perm head heads

/-- While there is a head, both calls return. -/
lemma exists_taken (ht : t.heads = head :: heads) (k : Take) : ∃ new t', t.take k = some t' ∧ Taken t head heads k new t' := by
  cases k with
  | pop => exact ⟨none, pop_taken ht nofun⟩
  | shift =>
    simp only [TxsByPriceAndNonce.take, TxsByPriceAndNonce.shift, ht]
    split
    next tx txs htxs =>
      split
      next w hw =>
        obtain ⟨rfl, -⟩ := newTxWithMinerFee_tx hw
        refine ⟨some w, _, rfl, ht, ?_, Heap.fix_perm _, fun account hne => Function.update_of_ne hne _ _, ?_, nofun⟩
        · rw [ht]
          exact weakOrder_less.fix_ordered w
        · rintro _ ⟨⟩
          exact ⟨rfl, hw, txs, htxs, Function.update_self _ _ _⟩
      next hw =>
        refine ⟨none, pop_taken ht fun _ tx' rest htx => ?_⟩
        rw [htxs] at htx
        cases htx
        exact Bool.eq_false_iff.2 fun hpays => by
          obtain ⟨w, hw'⟩ := affordable_iff.1 hpays
          rw [hw] at hw'
          cases hw'
    next hnone => exact ⟨none, pop_taken ht fun _ tx rest htx => absurd htx (hnone tx rest)⟩

lemma exists_head (h : t.peek = some x) : ∃ head heads, t.heads = head :: heads ∧ head.tx = x := by
  obtain ⟨head, hhead, rfl⟩ := Option.map_eq_some_iff.1 h
  obtain ⟨heads, hheads⟩ := head?_eq_some_iff.1 hhead
  exact ⟨head, heads, hheads, rfl⟩

lemma Taken.mem (h : Taken t head heads k new t') {w : TxWithMinerFee} : w ∈ t'.heads ↔ new = some w ∨ w ∈ heads := by
  rw [h.perm.mem_iff, mem_append, Option.mem_toList]

/-- A list stays, or it loses its first. -/
lemma Taken.list (h : Taken t head heads k new t') (account : Address) : t'.txs account = t.txs account ∨
    account = sender head.tx.tx ∧ ∃ w rest, new = some w ∧ t.txs account = some (w.tx :: rest) ∧ t'.txs account = some rest := by
  by_cases haccount : account = sender head.tx.tx
  · subst haccount
    cases hnew : new with
    | none => exact .inl (congrFun (h.goes hnew).1 _)
    | some w =>
      obtain ⟨-, -, rest, hrest⟩ := h.comes w hnew
      exact .inr ⟨rfl, w, rest, rfl, hrest⟩
  · exact .inl (h.others account haccount)

/-- The accounts that still have transactions are among these. -/
def Within (accounts : List Address) (t : TxsByPriceAndNonce sender baseFee) : Prop :=
  ∀ account, (t.txs account).getD [] ≠ [] → account ∈ accounts

/-- How many transactions are left. -/
def remaining (accounts : List Address) (t : TxsByPriceAndNonce sender baseFee) : Nat :=
  t.heads.length + (accounts.map fun account => ((t.txs account).getD []).length).sum

lemma Taken.within (h : Taken t head heads k new t') (ht : Within accounts t) : Within accounts t' := by
  intro account hne
  rcases h.list account with heq | ⟨-, w, rest, -, heq, -⟩
  · exact ht account (heq ▸ hne)
  · exact ht account (by rw [heq]; exact cons_ne_nil _ _)

lemma Taken.remaining_lt (h : Taken t head heads k new t') (ht : Within accounts t) :
    remaining accounts t' < remaining accounts t := by
  have hheads := h.perm.length_eq
  rw [length_append, Option.length_toList] at hheads
  have hle : ∀ account ∈ accounts, ((t'.txs account).getD []).length ≤ ((t.txs account).getD []).length := by
    intro account _
    rcases h.list account with heq | ⟨-, w, rest, -, heq, heq'⟩
    · rw [heq]
    · rw [heq, heq']
      exact Nat.le_succ _
  unfold remaining
  rw [h.before, length_cons, hheads]
  cases hnew : new with
  | none =>
    have hsum := sum_le_sum hle
    rw [if_neg nofun]
    omega
  | some w =>
    obtain ⟨-, -, rest, heq, heq'⟩ := h.comes w hnew
    have hmem : sender head.tx.tx ∈ accounts := ht _ (by rw [heq]; exact cons_ne_nil _ _)
    have hsum := sum_lt_sum _ _ hle ⟨_, hmem, by rw [heq, heq']; exact Nat.lt_succ_self _⟩
    rw [Option.isSome_some, if_pos rfl]
    omega

lemma takes_of_take {ks : List Take} {out : List (Take × Pooled)} {u : TxsByPriceAndNonce sender baseFee}
    (hpeek : t.peek = some x) (hu : t.take k = some u) (h : u.takes ks = some (out, t')) :
    t.takes (k :: ks) = some ((k, x) :: out, t') := by
  rw [TxsByPriceAndNonce.takes, hpeek, Option.bind_some, hu, Option.bind_some, h]
  rfl

/-- `Shift` alone comes to the end. -/
lemma exists_takes_shift (ht : Within accounts t) :
    ∃ n trace t', t.takes (replicate n .shift) = some (trace, t') ∧ t'.peek = none := by
  induction hm : remaining accounts t using Nat.strong_induction_on generalizing t with
  | h m ih =>
  cases hpeek : t.peek with
  | none => exact ⟨0, [], t, rfl, hpeek⟩
  | some x =>
    obtain ⟨head, heads, hheads, -⟩ := exists_head hpeek
    obtain ⟨new, u, hu, htaken⟩ := exists_taken hheads .shift
    obtain ⟨n, trace, t', htakes, hend⟩ := ih _ (hm ▸ htaken.remaining_lt ht) (htaken.within ht) rfl
    refine ⟨n + 1, (.shift, x) :: trace, t', ?_, hend⟩
    exact takes_of_take hpeek hu htakes

end Calls

/-! ## The heads are the waiting transactions -/

/-- What holds after a trace. -/
structure HeadsOf (o : Offer) (trace : List (Take × Pooled)) (t : TxsByPriceAndNonce o.sender o.baseFee) : Prop where
  ordered : Heap.Ordered TxWithMinerFee.less t.heads
  accounts : (t.heads.map fun w => o.sender w.tx.tx).Nodup
  heads : ∀ w ∈ t.heads, newTxWithMinerFee w.tx o.baseFee = some w ∧
    ∃ rest, o.Waiting trace (o.sender w.tx.tx) w.tx rest ∧ t.txs (o.sender w.tx.tx) = some rest
  waiting : ∀ account x rest, o.Waiting trace account x rest → ∃ w ∈ t.heads, w.tx = x
  inOrder : ∀ account, o.given trace account <+: o.list account
  paid : ∀ account, ∀ x ∈ o.given trace account, affordable o.baseFee x = true

section Proofs
variable {o : Offer} {trace : List (Take × Pooled)} {t t' : TxsByPriceAndNonce o.sender o.baseFee}
  {head w : TxWithMinerFee} {heads : List TxWithMinerFee} {new : Option TxWithMinerFee} {x y : Pooled} {account : Address}
  {rest : List Pooled} {k : Take}

lemma given_append_self (trace : List (Take × Pooled)) (k : Take) (x : Pooled) :
    o.given (trace ++ [(k, x)]) (o.sender x.tx) = o.given trace (o.sender x.tx) ++ [x] := by
  simp [Offer.given]

lemma given_append_of_ne (h : o.sender x.tx ≠ account) : o.given (trace ++ [(k, x)]) account = o.given trace account := by
  simp [Offer.given, h]

lemma waiting_append_of_ne (hne : o.sender y.tx ≠ account) :
    o.Waiting (trace ++ [(k, y)]) account x rest ↔ o.Waiting trace account x rest := by
  constructor
  · intro h
    exact ⟨given_append_of_ne hne ▸ h.next, fun z hz => h.kept z (mem_append_left _ hz), h.affordable⟩
  · intro h
    refine ⟨by rw [given_append_of_ne hne]; exact h.next, fun z hz => ?_, h.affordable⟩
    rcases mem_append.1 hz with hz | hz
    · exact h.kept z hz
    · cases mem_singleton.1 hz
      exact hne

/-- What waits after a transaction of the account is the next in its list. -/
lemma waiting_append_self (h : o.Waiting trace (o.sender y.tx) y rest) {rest' : List Pooled} :
    o.Waiting (trace ++ [(k, y)]) (o.sender y.tx) x rest' ↔
      k = .shift ∧ rest = x :: rest' ∧ affordable o.baseFee x = true := by
  constructor
  · intro h'
    have hnext := h'.next
    rw [h.next, given_append_self, append_assoc] at hnext
    refine ⟨?_, by simpa using append_cancel_left hnext, h'.affordable⟩
    cases k with
    | shift => rfl
    | pop => exact absurd rfl (h'.kept y (mem_append_right _ mem_cons_self))
  · rintro ⟨rfl, rfl, hpays⟩
    refine ⟨?_, fun z hz => h.kept z (by simpa using hz), hpays⟩
    rw [given_append_self, append_assoc]
    exact h.next

variable (hsender : ∀ account, ∀ x ∈ o.list account, o.sender x.tx = account)
include hsender

/-- The heads other than the one that is taken stay, and what comes is what waits then. -/
lemma HeadsOf.taken (h : HeadsOf o trace t) (ht : Taken t head heads k new t') :
    HeadsOf o (trace ++ [(k, head.tx)]) t' := by
  obtain ⟨hfee, rest, hhead, hrest⟩ := h.heads head (by rw [ht.before]; exact mem_cons_self)
  have hnodup := h.accounts
  rw [ht.before, map_cons, nodup_cons] at hnodup
  have hcomes : ∀ w, new = some w → newTxWithMinerFee w.tx o.baseFee = some w ∧ o.sender w.tx.tx = o.sender head.tx.tx ∧
      ∃ rest, o.Waiting (trace ++ [(k, head.tx)]) (o.sender head.tx.tx) w.tx rest ∧
        t'.txs (o.sender head.tx.tx) = some rest := by
    intro w hw
    obtain ⟨hk, hwfee, rest', hlist, hlist'⟩ := ht.comes w hw
    cases hrest.symm.trans hlist
    refine ⟨hwfee, hsender _ _ (by rw [hhead.next]; simp), rest', ?_, hlist'⟩
    exact (waiting_append_self hhead).2 ⟨hk, rfl, (newTxWithMinerFee_tx hwfee).2⟩
  refine ⟨ht.ordered h.ordered, ?_, fun w hw => ?_, fun account x rest' hx => ?_, fun account => ?_, fun account x hx => ?_⟩
  · rw [(ht.perm.map _).nodup_iff]
    cases hn : new with
    | none => exact hnodup.2
    | some w =>
      rw [Option.toList_some, singleton_append, map_cons, (hcomes w hn).2.1]
      exact nodup_cons.2 hnodup
  · rcases ht.mem.1 hw with hw | hw
    · obtain ⟨hfee, hacc, hrest⟩ := hcomes w hw
      rw [hacc]
      exact ⟨hfee, hrest⟩
    · obtain ⟨hfee, rest, hw', hrest⟩ := h.heads w (by rw [ht.before]; exact mem_cons_of_mem _ hw)
      have hne : o.sender head.tx.tx ≠ o.sender w.tx.tx := fun heq => hnodup.1 (heq ▸ mem_map_of_mem hw)
      exact ⟨hfee, rest, (waiting_append_of_ne hne).2 hw', by rw [ht.others _ hne.symm, hrest]⟩
  · by_cases haccount : o.sender head.tx.tx = account
    · subst haccount
      obtain ⟨hk, rfl, hpays⟩ := (waiting_append_self hhead).1 hx
      cases hn : new with
      | none => exact absurd hpays (by simp [(ht.goes hn).2 hk _ _ hrest])
      | some w =>
        obtain ⟨-, -, rest', hlist, -⟩ := ht.comes w hn
        cases hrest.symm.trans hlist
        exact ⟨w, ht.mem.2 (.inl hn), rfl⟩
    · obtain ⟨w, hw, rfl⟩ := h.waiting account x rest' ((waiting_append_of_ne haccount).1 hx)
      refine ⟨w, ht.mem.2 (.inr ?_), rfl⟩
      rw [ht.before] at hw
      rcases mem_cons.1 hw with rfl | hw
      · -- the head that is taken is of another account
        exact absurd (hsender account w.tx (by rw [hx.next]; simp)) haccount
      · exact hw
  · by_cases haccount : o.sender head.tx.tx = account
    · subst haccount
      rw [given_append_self]
      exact ⟨rest, by rw [append_assoc]; exact hhead.next.symm⟩
    · rw [given_append_of_ne haccount]
      exact h.inOrder account
  · by_cases haccount : o.sender head.tx.tx = account
    · subst haccount
      rw [given_append_self] at hx
      exact forall_mem_append.2 ⟨h.paid _, forall_mem_singleton.2 hhead.affordable⟩ x hx
    · rw [given_append_of_ne haccount] at hx
      exact h.paid account x hx

omit hsender in
lemma takes_cons {ks : List Take} {out : List (Take × Pooled)} (ht : t.takes (k :: ks) = some (out, t')) :
    ∃ head heads new u out', Taken t head heads k new u ∧ u.takes ks = some (out', t') ∧ out = (k, head.tx) :: out' := by
  obtain ⟨x, hpeek, ht⟩ := Option.bind_eq_some_iff.1 ht
  obtain ⟨u, hu, ht⟩ := Option.bind_eq_some_iff.1 ht
  obtain ⟨⟨out', v⟩, hv, heq⟩ := Option.map_eq_some_iff.1 ht
  cases heq
  obtain ⟨head, heads, hheads, rfl⟩ := exists_head hpeek
  obtain ⟨new, u', hu', htaken⟩ := exists_taken hheads k
  cases hu.symm.trans hu'
  exact ⟨head, heads, new, u, out', htaken, hv, rfl⟩

lemma HeadsOf.takes {ks : List Take} {out : List (Take × Pooled)} (h : HeadsOf o trace t)
    (ht : t.takes ks = some (out, t')) : HeadsOf o (trace ++ out) t' ∧ out.map Prod.fst = ks := by
  induction ks generalizing t trace out with
  | nil =>
    cases ht
    rw [append_nil]
    exact ⟨h, rfl⟩
  | cons k ks ih =>
    obtain ⟨head, heads, new, u, out', htaken, hu, rfl⟩ := takes_cons ht
    obtain ⟨hnext, hkinds⟩ := ih (h.taken hsender htaken) hu
    rw [append_assoc] at hnext
    exact ⟨hnext, by rw [map_cons, hkinds]⟩

/-! ## The first heads -/

omit hsender in
lemma newHead_eq_some : newHead o.sender o.baseFee o.txs account = some w ↔
      ∃ rest, o.txs account = some (w.tx :: rest) ∧ o.sender w.tx.tx = account ∧
        newTxWithMinerFee w.tx o.baseFee = some w := by
  rw [newHead]
  constructor
  · intro h
    split at h
    · next tx rest htxs =>
      split at h
      · cases h
      · next hsender =>
        obtain ⟨rfl, -⟩ := newTxWithMinerFee_tx h
        exact ⟨rest, htxs, not_not.1 hsender, h⟩
    · cases h
  · rintro ⟨rest, htxs, hsender, hfee⟩
    rw [htxs]
    dsimp only
    rw [if_neg (not_not.2 hsender)]
    exact hfee

lemma headsOf_new {accounts : List Address} (hnodup : accounts.Nodup)
    (hkeys : ∀ account, account ∈ accounts ↔ (o.txs account).isSome)
    (ht : newTxsByPriceAndNonce o.sender o.baseFee accounts o.txs = some t) : HeadsOf o [] t ∧ Within accounts t := by
  rw [newTxsByPriceAndNonce] at ht
  split at ht
  · cases ht
  cases ht
  have hperm := Heap.init_perm (r := TxWithMinerFee.less) (accounts.filterMap (newHead o.sender o.baseFee o.txs))
  refine ⟨⟨weakOrder_less.init_ordered _, ?_, fun w hw => ?_, fun account x rest hx => ?_, fun account => nil_prefix, nofun⟩,
    fun account hne => (hkeys account).2 ?_⟩
  · rw [(hperm.map _).nodup_iff, map_filterMap]
    refine hnodup.filterMap fun account account' acc hacc hacc' => ?_
    obtain ⟨w, hw, rfl⟩ := Option.map_eq_some_iff.1 hacc
    obtain ⟨w', hw', heq⟩ := Option.map_eq_some_iff.1 hacc'
    obtain ⟨-, -, hw, -⟩ := newHead_eq_some.1 hw
    obtain ⟨-, -, hw', -⟩ := newHead_eq_some.1 hw'
    rw [← hw, ← hw', heq]
  · obtain ⟨account, -, hhead⟩ := mem_filterMap.1 (hperm.mem_iff.1 hw)
    obtain ⟨rest, htxs, rfl, hfee⟩ := newHead_eq_some.1 hhead
    refine ⟨hfee, rest, ⟨?_, nofun, (newTxWithMinerFee_tx hfee).2⟩, ?_⟩
    · rw [Offer.list, htxs]
      rfl
    · dsimp only
      rw [hhead, htxs]
      rfl
  · have hlist : (o.txs account).getD [] = x :: rest := hx.next
    have htxs : o.txs account = some (x :: rest) := by
      cases hget : o.txs account with
      | none => rw [hget] at hlist; cases hlist
      | some l => rw [hget] at hlist; exact congrArg some hlist
    obtain ⟨w, hw⟩ := affordable_iff.1 hx.affordable
    obtain ⟨rfl, -⟩ := newTxWithMinerFee_tx hw
    have hown : o.sender w.tx.tx = account := hsender account w.tx (by rw [hx.next]; simp)
    refine ⟨w, hperm.mem_iff.2 (mem_filterMap.2 ⟨account, (hkeys account).2 (by rw [htxs]; rfl), ?_⟩), rfl⟩
    exact newHead_eq_some.2 ⟨rest, htxs, hown, hw⟩
  · cases hget : o.txs account with
    | none => simp [hget] at hne
    | some l => rfl

/-! ## What is peeked at -/

omit hsender

lemma HeadsOf.peek_eq_none (h : HeadsOf o trace t) :
    t.peek = none ↔ ∀ account x rest, ¬ o.Waiting trace account x rest := by
  rw [TxsByPriceAndNonce.peek, Option.map_eq_none_iff, head?_eq_none_iff]
  constructor
  · intro hnil account x rest hx
    obtain ⟨w, hw, -⟩ := h.waiting account x rest hx
    rw [hnil] at hw
    cases hw
  · intro hnone
    by_contra hne
    obtain ⟨head, heads, hheads⟩ := exists_cons_of_ne_nil hne
    obtain ⟨-, rest, hwait, -⟩ := h.heads head (by rw [hheads]; exact mem_cons_self)
    exact hnone _ _ _ hwait

lemma less_of_beats {w' : TxWithMinerFee} (h : newTxWithMinerFee w.tx o.baseFee = some w)
    (h' : newTxWithMinerFee w'.tx o.baseFee = some w') (hbeats : o.Beats w.tx w'.tx) : w.less w' := by
  obtain ⟨fee, hfee, hw⟩ := Option.map_eq_some_iff.1 h
  obtain ⟨fee', hfee', hw'⟩ := Option.map_eq_some_iff.1 h'
  obtain ⟨tip, tip', htip, htip', hbest⟩ := hbeats
  have hminer : w.minerFee = tip := by
    rw [← hw]
    exact Option.some.inj (hfee.symm.trans htip)
  have hminer' : w'.minerFee = tip' := by
    rw [← hw']
    exact Option.some.inj (hfee'.symm.trans htip')
  rw [TxWithMinerFee.less, hminer, hminer']
  rcases hbest with hlt | ⟨rfl, htime⟩
  · rw [if_neg hlt.ne']
    exact hlt
  · rw [if_pos rfl]
    exact htime

lemma HeadsOf.peek (h : HeadsOf o trace t) (hpeek : t.peek = some x) :
    (∃ rest, o.Waiting trace (o.sender x.tx) x rest) ∧
      ∀ account y rest, o.Waiting trace account y rest → ¬ o.Beats y x := by
  obtain ⟨head, heads, hheads, rfl⟩ := exists_head hpeek
  obtain ⟨hfee, rest, hwait, -⟩ := h.heads head (by rw [hheads]; exact mem_cons_self)
  refine ⟨⟨rest, hwait⟩, fun account y rest' hy hbeats => ?_⟩
  obtain ⟨w, hw, rfl⟩ := h.waiting account y rest' hy
  have hless := less_of_beats (h.heads w hw).1 hfee hbeats
  rw [hheads] at hw
  rcases mem_cons.1 hw with rfl | hw
  · exact weakOrder_less.asymm _ _ hless hless
  · exact weakOrder_less.head (hheads ▸ h.ordered) hw hless

/-- A list has no transaction twice if no account has. -/
lemma nodup_of_given (sender : Transaction → Address) {l : List Pooled}
    (h : ∀ account, (l.filter fun x => sender x.tx = account).Nodup) : l.Nodup := by
  induction l with
  | nil => exact nodup_nil
  | cons x l ih =>
    have hx := h (sender x.tx)
    rw [filter_cons_of_pos (by simp), nodup_cons] at hx
    refine nodup_cons.2 ⟨fun hmem => hx.1 (mem_filter.2 ⟨hmem, by simp⟩), ih fun account => ?_⟩
    have hall := h account
    rw [filter_cons] at hall
    split at hall
    · exact hall.of_cons
    · exact hall

/-- Accounts that were never dropped gave all that they can pay for. -/
lemma HeadsOf.exhausted (h : HeadsOf o trace t) (hshift : ∀ y, (Take.pop, y) ∉ trace) (hpeek : t.peek = none)
    (account : Address) : o.given trace account = (o.list account).takeWhile (affordable o.baseFee) := by
  obtain ⟨rest, hrest⟩ := h.inOrder account
  rw [← hrest, takeWhile_append_of_pos (h.paid account)]
  cases rest with
  | nil => simp
  | cons x rest =>
    have hcannot : ¬ affordable o.baseFee x = true := fun hpays =>
      h.peek_eq_none.1 hpeek account x rest ⟨hrest.symm, fun y hy => absurd hy (hshift y), hpays⟩
    rw [takeWhile_cons_of_neg hcannot, append_nil]

end Proofs

/-! ## The order -/

/-- A transaction of an account, by its signature value. -/
def plainTx (account : Nat) (nonce : UInt64) (gasPrice : Nat) : Pooled :=
  ⟨.legacy ⟨nonce, gasPrice, 21000, none, 0, [], account, 0, 0⟩, 0⟩

def plainSender : Transaction → Address
  | .legacy tx => .ofNat 160 tx.v
  | _ => 0

/-- Only the first sender of a list is compared with its account. A second transaction that
account 2 has signed makes `Shift` go on in the list of account 2, whose first transaction
still waits. -/
theorem foreign_sender_skips_nonce : plainSender (plainTx 1 0 10).tx = 1 ∧ plainSender (plainTx 2 0 1).tx = 2 ∧
      (((newTxsByPriceAndNonce plainSender none [1, 2] fun account =>
          if account = 1 then some [plainTx 1 0 10, plainTx 2 5 9]
          else if account = 2 then some [plainTx 2 0 1, plainTx 2 1 8] else none).bind fun t =>
        t.takes [.shift, .shift, .shift]).map fun r => r.1.map Prod.snd) =
      some [plainTx 1 0 10, plainTx 2 5 9, plainTx 2 1 8] := by
  decide +kernel

/-- If every transaction is signed by its account: what is peeked at waits, none that waits
beats it, and both calls return. The accounts give their transactions by nonce, and none
twice. `Shift` alone comes to an end, and with it they give all up to the first that they
cannot pay for. -/
theorem price_and_nonce_order (o : Offer) {accounts : List Address} (hnodup : accounts.Nodup)
    (hkeys : ∀ account, account ∈ accounts ↔ (o.txs account).isSome) (hne : ∀ account, o.txs account ≠ some [])
    (hsorted : ∀ account, (o.list account).Pairwise fun x y => x.tx.nonce < y.tx.nonce)
    (hsender : ∀ account, ∀ x ∈ o.list account, o.sender x.tx = account) :
    ∃ t₀, newTxsByPriceAndNonce o.sender o.baseFee accounts o.txs = some t₀ ∧
      (∀ ks trace t, t₀.takes ks = some (trace, t) →
        (t.peek = none ↔ ∀ account x rest, ¬ o.Waiting trace account x rest) ∧
        (∀ x, t.peek = some x → (∃ rest, o.Waiting trace (o.sender x.tx) x rest) ∧
          (∀ account y rest, o.Waiting trace account y rest → ¬ o.Beats y x) ∧
          (∃ u, t.shift = some u) ∧ ∃ u, t.pop = some u) ∧
        (∀ account, o.given trace account <+: o.list account) ∧
        (trace.map Prod.snd).Nodup ∧
        ((∀ k ∈ ks, k = .shift) → t.peek = none → ∀ account,
          o.given trace account = (o.list account).takeWhile (affordable o.baseFee))) ∧
      ∃ n trace t, t₀.takes (replicate n .shift) = some (trace, t) ∧ t.peek = none := by
  have hnew : ¬ (accounts.any fun account => o.txs account = some []) = true := by
    rw [any_eq_true]
    rintro ⟨account, -, hnil⟩
    exact hne account (of_decide_eq_true hnil)
  obtain ⟨hstart, hwithin⟩ := headsOf_new hsender hnodup hkeys (if_neg hnew)
  refine ⟨_, if_neg hnew, fun ks trace t ht => ?_, exists_takes_shift hwithin⟩
  obtain ⟨h, hkinds⟩ := hstart.takes hsender ht
  rw [nil_append] at h
  refine ⟨h.peek_eq_none, fun x hx => ?_, h.inOrder, nodup_of_given o.sender fun account => ?_, fun hshift hpeek => ?_⟩
  · obtain ⟨head, heads, hheads, -⟩ := exists_head hx
    obtain ⟨-, u, hu, -⟩ := exists_taken hheads .shift
    obtain ⟨-, v, hv, -⟩ := exists_taken hheads .pop
    exact ⟨(h.peek hx).1, (h.peek hx).2, ⟨u, hu⟩, v, hv⟩
  · obtain ⟨rest, hrest⟩ := h.inOrder account
    have hall : (o.list account).Nodup := (hsorted account).imp fun {x y} hlt heq => by
      rw [heq] at hlt
      exact UInt64.lt_irrefl _ hlt
    rw [← hrest] at hall
    exact hall.of_append_left
  · refine h.exhausted (fun y hy => ?_) hpeek
    have hmem : Take.pop ∈ ks := hkinds ▸ mem_map_of_mem hy
    cases hshift _ hmem

/-- Account 1 with two transactions, account 2 with one. -/
def twoAccounts (baseFee : Option Int) : Offer where
  sender := plainSender
  baseFee := baseFee
  txs account :=
    if account = 1 then some [plainTx 1 0 10, plainTx 1 1 9] else if account = 2 then some [plainTx 2 0 1] else none

/-- To show something of all accounts, the two and one without transactions are enough. -/
lemma twoAccounts_txs {p : Address → Option (List Pooled) → Prop} (h₁ : p 1 (some [plainTx 1 0 10, plainTx 1 1 9]))
    (h₂ : p 2 (some [plainTx 2 0 1])) (h : ∀ account, account ∉ [1, 2] → p account none) (baseFee : Option Int)
    (account : Address) : p account ((twoAccounts baseFee).txs account) := by
  unfold twoAccounts
  dsimp only
  split_ifs with h1 h2
  · exact h1 ▸ h₁
  · exact h2 ▸ h₂
  · exact h account fun hmem => (mem_pair.1 hmem).elim h1 h2

lemma twoAccounts_keys (baseFee : Option Int) (account : Address) :
    account ∈ [1, 2] ↔ ((twoAccounts baseFee).txs account).isSome :=
  twoAccounts_txs (p := fun account l => account ∈ [1, 2] ↔ l.isSome) (by decide) (by decide) (fun _ h => by simpa using h)
    baseFee account

lemma twoAccounts_sender (baseFee : Option Int) (account : Address) :
    ∀ x ∈ (twoAccounts baseFee).list account, plainSender x.tx = account :=
  twoAccounts_txs (p := fun account l => ∀ x ∈ l.getD [], plainSender x.tx = account) (by decide) (by decide)
    (fun _ _ x hx => absurd hx not_mem_nil) baseFee account

/-- The two of account 1 come first, then the one of account 2, then nothing. -/
theorem price_and_nonce_order_two : ∃ t₀, newTxsByPriceAndNonce plainSender none [1, 2] (twoAccounts none).txs = some t₀ ∧
    ((t₀.takes [.shift, .shift]).map fun r => (r.1.map Prod.snd, r.2.peek)) =
      some ([plainTx 1 0 10, plainTx 1 1 9], some (plainTx 2 0 1)) ∧
    ∃ n trace t, t₀.takes (replicate n .shift) = some (trace, t) ∧ t.peek = none ∧
      (twoAccounts none).given trace 1 = [plainTx 1 0 10, plainTx 1 1 9] := by
  have hne := twoAccounts_txs (p := fun _ l => l ≠ some []) (by simp) (by simp) (by simp) none
  have hsorted := twoAccounts_txs (p := fun _ l => (l.getD []).Pairwise fun x y => x.tx.nonce < y.tx.nonce) (by decide)
    (by decide) (by simp) none
  obtain ⟨t₀, hnew, hall, n, trace, t, htakes, hend⟩ := price_and_nonce_order (twoAccounts none) (by decide)
    (twoAccounts_keys none) hne hsorted (twoAccounts_sender none)
  refine ⟨t₀, hnew, ?_, n, trace, t, htakes, hend, ?_⟩
  · obtain rfl := Option.some.inj hnew
    decide +kernel
  · exact (hall _ _ _ htakes).2.2.2.2 (fun k hk => eq_of_mem_replicate hk) hend 1

end TurboOctopus.Types
