import TurboOctopus.Core.StateProcessor
/-!
# Receipts and the body of a block

`Process` gives each common transaction its receipt in the order of the body,
and then each system call its own. The receipts line up with the body unless a
common transaction stands behind a system transaction, or a call whose error
`Finalize` drops takes its transaction and then fails (`receipts_match_iff`).
-/
namespace TurboOctopus.Core

open Lib TurboOctopus.Types Params Parlia List

variable {ω : Type} {e : Engine} {V : Env ω} {header : Header} {block : Types.Block} {p q r : Pending ω}

/-! ## Calls that fail with their transaction taken -/

/-- The message finds its transaction in the block, and fails in the virtual machine. -/
def callFails (e : Engine) (V : Env ω) (header : Header) (msg : CallMsg) (p : Pending ω) : Bool :=
  match e.takeTransaction msg (p.state.world.nonce msg.fromAddr) false p with
  | .error _ _ => false
  | .ok _ _ => (V.machine.call (newEVMBlockContext V.chain.getHeader header) msg p.state.world).isNone

/-- The same of one of several messages that are applied up to the first error. -/
def reverts (e : Engine) (V : Env ω) (header : Header) : List CallMsg → Pending ω → Bool
  | [], _ => false
  | msg :: msgs, p => callFails e V header msg p ||
    match e.applyTransaction V header false msg p with
    | .ok _ q => reverts e V header msgs q
    | .error _ _ => false

/-- The same of the calls at block 1. -/
def initReverts (e : Engine) (V : Env ω) (header : Header) (p : Pending ω) : Bool :=
  if header.number.getD 0 = 1 then reverts e V header (e.initMessages header) p else false

/-- The same of the call that slashes. -/
def slashReverts (e : Engine) (V : Env ω) (header : Header) (snap : Snapshot) (p : Pending ω) : Bool :=
  if header.difficulty.getD 0 ≠ diffInTurn then
    match snap.supposeValidator with
    | .error _ => false
    | .ok v => if HasValue snap.recents v then false else callFails e V header (e.slashMessage header v) p
  else false

/-- A call of the block whose error is dropped fails after taking its transaction. -/
def callReverts (e : Engine) (V : Env ω) (header : Header) (snap : Snapshot) (p : Pending ω) : Bool :=
  initReverts e V header p || slashReverts e V header snap (stateOf (e.initFirst V header false p))

/-! ## What is taken and what gets a receipt -/

/-- Between `p` and `q` the transactions `taken` left the list of those received,
and the transactions `kept` got a receipt. -/
structure Consumes (C : Crypto) (p q : Pending ω) (taken kept : List Transaction) : Prop where
  received : p.received = taken ++ q.received
  receipts : q.receipts.map Receipt.txHash = p.receipts.map Receipt.txHash ++ kept.map (Transaction.hash C)
  sub : kept.Sublist taken

/-- Between `p` and `q` a transaction was taken and got no receipt, if `lost`. -/
def Loses (C : Crypto) (p q : Pending ω) (lost : Bool) : Prop :=
  ∃ taken kept, Consumes C p q taken kept ∧ (kept = taken ↔ lost = false)

lemma Loses.refl (C : Crypto) (p : Pending ω) : Loses C p p false :=
  ⟨[], [], ⟨rfl, by simp, .slnil⟩, by simp⟩

variable {C : Crypto} {g g' : Progress ω} {i : Nat} {snap : Snapshot} {txs : List Transaction}

lemma Loses.trans {a b : Bool} (hp : Loses C p q a) (hq : Loses C q r b) : Loses C p r (a || b) := by
  obtain ⟨taken, kept, h, ha⟩ := hp
  obtain ⟨taken', kept', h', hb⟩ := hq
  refine ⟨taken ++ taken', kept ++ kept', ⟨?_, ?_, h.sub.append h'.sub⟩, ?_⟩
  · rw [h.received, h'.received, append_assoc]
  · rw [h'.receipts, h.receipts, map_append, append_assoc]
  · rw [Bool.or_eq_false_iff, ← ha, ← hb]
    constructor
    · intro heq
      -- a sublist of the same length is the whole list
      have hlen := congrArg List.length heq
      have hl := h.sub.length_le
      have hl' := h'.sub.length_le
      rw [length_append, length_append] at hlen
      exact ⟨h.sub.eq_of_length (by omega), h'.sub.eq_of_length (by omega)⟩
    · rintro ⟨rfl, rfl⟩
      rfl

/-- What applying a message does, in three cases: no transaction is taken, one is
taken and fails, or one is taken and gets its receipt. -/
lemma applyTransaction_cases (e : Engine) (V : Env ω) (header : Header) (msg : CallMsg) (p : Pending ω) :
    (callFails e V header msg p = false ∧ ∃ err, e.applyTransaction V header false msg p = .error err p) ∨
    (callFails e V header msg p = true ∧ ∃ tx err q, e.applyTransaction V header false msg p = .error err q ∧
      p.received = tx :: q.received ∧ q.receipts = p.receipts) ∨
    (callFails e V header msg p = false ∧ ∃ tx q, e.applyTransaction V header false msg p = .ok () q ∧
      p.received = tx :: q.received ∧
      q.receipts.map Receipt.txHash = p.receipts.map Receipt.txHash ++ [tx.hash e.crypto]) := by
  unfold callFails
  cases ht : e.takeTransaction msg (p.state.world.nonce msg.fromAddr) false p with
  | error err q => exact .inl ⟨rfl, err, applyTransaction_untaken ht⟩
  | ok tx q =>
    obtain ⟨hrec, hq, -⟩ := takeTransaction_ok ht
    have hworld : (e.prepareFor tx q).state.world = p.state.world := by rw [hq]; rfl
    have hreceipts : (e.prepareFor tx q).receipts = p.receipts := by rw [hq]; rfl
    cases hc : V.machine.call (newEVMBlockContext V.chain.getHeader header) msg p.state.world with
    | none =>
      refine .inr (.inl ⟨rfl, tx, .execution, e.prepareFor tx q, ?_, hrec, hreceipts⟩)
      rw [applyTransaction_taken ht, Env.applyMessage, hworld, hc]
    | some res =>
      have hm : ∃ r, V.applyMessage header msg (e.prepareFor tx q).state = .ok r := by
        rw [Env.applyMessage, hworld, hc]
        exact ⟨_, rfl⟩
      obtain ⟨r, hm⟩ := hm
      refine .inr (.inr ⟨rfl, tx, e.record V header msg (p.state.world.nonce msg.fromAddr) false tx r.1 r.2
        (e.prepareFor tx q), ?_, hrec, ?_⟩)
      · rw [applyTransaction_taken ht, hm]
      · simp [Engine.record, Engine.systemReceipt, hreceipts]

lemma applyTransaction_loses (e : Engine) (V : Env ω) (header : Header) (msg : CallMsg) (p : Pending ω) :
    Loses e.crypto p (stateOf (e.applyTransaction V header false msg p)) (callFails e V header msg p) := by
  rcases applyTransaction_cases e V header msg p with ⟨hr, err, ha⟩ | ⟨hr, tx, err, q, ha, hrec, hreceipts⟩ |
    ⟨hr, tx, q, ha, hrec, hreceipts⟩
  · rw [ha, hr]
    exact .refl _ _
  · rw [ha, hr]
    exact ⟨[tx], [], ⟨hrec, by simp [stateOf, hreceipts], nil_sublist _⟩, by simp⟩
  · rw [ha, hr]
    exact ⟨[tx], [tx], ⟨hrec, by simpa [stateOf] using hreceipts, .refl _⟩, by simp⟩

lemma applyTransaction_ok_loses {msg : CallMsg} (h : e.applyTransaction V header false msg p = .ok () q) :
    Loses e.crypto p q false := by
  have hl := applyTransaction_loses e V header msg p
  rcases applyTransaction_cases e V header msg p with ⟨-, err, ha⟩ | ⟨-, tx, err, q', ha, -⟩ | ⟨hr, -⟩
  · rw [h] at ha; cases ha
  · rw [h] at ha; cases ha
  · rw [hr, h] at hl
    exact hl

lemma applyEach_loses (e : Engine) (V : Env ω) (header : Header) (msgs : List CallMsg) (p : Pending ω) :
    Loses e.crypto p (stateOf (e.applyEach V header false msgs p)) (reverts e V header msgs p) := by
  -- on the messages: the loop goes on exactly if the first call succeeds
  induction msgs generalizing p with
  | nil => exact .refl _ _
  | cons msg msgs ih =>
    have hl := applyTransaction_loses e V header msg p
    unfold Engine.applyEach reverts
    rw [run_bind]
    cases ha : e.applyTransaction V header false msg p with
    | ok u q =>
      rw [ha] at hl
      exact hl.trans (ih q)
    | error err q =>
      rw [ha] at hl
      simpa using hl

lemma initFirst_loses (e : Engine) (V : Env ω) (header : Header) (p : Pending ω) :
    Loses e.crypto p (stateOf (e.initFirst V header false p)) (initReverts e V header p) := by
  unfold Engine.initFirst initReverts
  split
  · rw [swallow_run]
    exact applyEach_loses e V header _ p
  · exact .refl _ _

lemma slashSpoiled_loses (hd : header.difficulty.getD 0 ≠ diffInTurn)
    (h : e.slashSpoiled V header false snap p = .ok () q) : Loses e.crypto p q (slashReverts e V header snap p) := by
  unfold Engine.slashSpoiled at h
  obtain ⟨v, p', hlift, hcall⟩ := bind_run_ok h
  obtain ⟨hv, rfl⟩ := lift_run_ok hlift
  unfold slashReverts
  rw [if_pos hd, hv]
  dsimp only
  split at hcall
  · rename_i hrecent
    cases hcall
    rw [if_pos hrecent]
    exact .refl _ _
  · rename_i hrecent
    rw [if_neg hrecent]
    rw [swallow_run] at hcall
    cases hcall
    exact applyTransaction_loses e V header _ p'

lemma distributeIncoming_loses {val : Address} (h : e.distributeIncoming V header false val p = .ok () q) :
    Loses e.crypto p q false := by
  unfold Engine.distributeIncoming at h
  dsimp only at h
  split at h
  · cases h
    exact .refl _ _
  · -- moving the fees touches neither list
    have hc : Loses e.crypto p (p.collect header) false := ⟨[], [], ⟨rfl, by simp [Pending.collect], .slnil⟩, by simp⟩
    split at h
    · obtain ⟨_, p1, h1, h2⟩ := bind_run_ok h
      exact (hc.trans (applyTransaction_ok_loses h1)).trans (applyTransaction_ok_loses h2)
    · exact hc.trans (applyTransaction_ok_loses h)

lemma settle_loses (h : e.settle V header snap p = .ok () q) :
    Loses e.crypto p q (callReverts e V header snap p) ∧ q.received = [] := by
  obtain ⟨p1, p2, h1, h2, h3, hrec⟩ := settle_ok_iff.1 h
  have hinit := initFirst_loses e V header p
  rw [h1] at hinit
  have hslash : Loses e.crypto p1 p2 (slashReverts e V header snap p1) := by
    unfold Engine.slashOutOfTurn at h2
    split at h2
    · exact slashSpoiled_loses ‹_› h2
    · rename_i hd
      cases h2
      rw [slashReverts, if_neg hd]
      exact .refl _ _
  have hcall : callReverts e V header snap p = (initReverts e V header p || slashReverts e V header snap p1) := by
    rw [callReverts, h1]
    rfl
  rw [hcall, ← Bool.or_false (_ || _)]
  exact ⟨(hinit.trans hslash).trans (distributeIncoming_loses h3), hrec⟩

/-! ## The body -/

/-- Whether `Process` sets a transaction aside. -/
def isSystem (e : Engine) (header : Header) (tx : Transaction) : Bool :=
  match e.isSystemTransaction tx header with
  | .ok b => b
  | .error _ => false

def commonTxs (e : Engine) (block : Types.Block) : List Transaction :=
  block.transactions.filter fun tx => !isSystem e block.header tx

def systemTxs (e : Engine) (block : Types.Block) : List Transaction :=
  block.transactions.filter fun tx => isSystem e block.header tx

lemma length_commonTxs_systemTxs (e : Engine) (block : Types.Block) :
    (commonTxs e block).length + (systemTxs e block).length = block.transactions.length := by
  unfold commonTxs systemTxs
  rw [Nat.add_comm]
  exact (length_eq_length_filter_add _).symm

lemma processTx_ok {tx : Transaction} (h : processTx e V block i tx g = .ok g') :
    (isSystem e block.header tx = true ∧ g'.systemTxs = g.systemTxs ++ [tx] ∧ g'.receipts = g.receipts) ∨
    (isSystem e block.header tx = false ∧ g'.systemTxs = g.systemTxs ∧
      g'.receipts.map Receipt.txHash = g.receipts.map Receipt.txHash ++ [tx.hash e.crypto]) := by
  unfold processTx at h
  unfold isSystem
  cases hsys : e.isSystemTransaction tx block.header with
  | error err => rw [hsys] at h; cases h
  | ok b =>
    rw [hsys] at h
    cases b with
    | true =>
      cases h
      exact .inl ⟨rfl, rfl, rfl⟩
    | false =>
      cases hmsg : V.machine.asMessage V.chain.config block.header.number block.header.baseFee tx with
      | none => rw [hmsg] at h; cases h
      | some msg =>
        rw [hmsg] at h
        dsimp only at h
        cases happ : applyTransaction e V block i tx msg g with
        | none => rw [happ] at h; cases h
        | some g1 =>
          rw [happ] at h
          cases h
          obtain ⟨result, -, rfl⟩ := Option.map_eq_some_iff.1 happ
          exact .inr ⟨rfl, rfl, by simp⟩

lemma processTxs_ok (h : processTxs e V block i txs g = .ok g') :
    g'.systemTxs = g.systemTxs ++ txs.filter (fun tx => isSystem e block.header tx) ∧
    g'.receipts.map Receipt.txHash = g.receipts.map Receipt.txHash ++
      (txs.filter fun tx => !isSystem e block.header tx).map (Transaction.hash e.crypto) := by
  induction txs generalizing i g with
  | nil =>
    cases h
    simp
  | cons tx txs ih =>
    obtain ⟨g1, h1, h2⟩ := bind_ok_iff.1 h
    obtain ⟨hsys, hreceipts⟩ := ih h2
    rcases processTx_ok h1 with ⟨hs, hs1, hr1⟩ | ⟨hs, hs1, hr1⟩
    · rw [hsys, hreceipts, hs1, hr1]
      simp [hs]
    · rw [hsys, hreceipts, hs1, hr1]
      simp [hs]

/-! ## Alignment -/

/-- No call of the block fails after taking its transaction. -/
def callsSucceed (e : Engine) (V : Env ω) (block : Types.Block) (s : StateDB ω) (c : Caches) : Bool :=
  match processBody e V block s, resultOf (e.snapshot V.chain (block.header.num - 1) block.header.parentHash [] c) with
  | .ok g, .ok snap => !callReverts e V block.header snap g.pending
  | _, _ => true

/-- The receipts are those of the transactions, one for each and in the same order. -/
def Match (C : Crypto) (receipts : List Receipt) (txs : List Transaction) : Prop :=
  receipts.length = txs.length ∧
    ∀ (i : Nat) (rc : Receipt) (tx : Transaction), receipts[i]? = some rc → txs[i]? = some tx → rc.txHash = tx.hash C

lemma match_iff {receipts : List Receipt} :
    Match C receipts txs ↔ receipts.map Receipt.txHash = txs.map (Transaction.hash C) := by
  constructor
  · rintro ⟨hlen, hall⟩
    refine ext_getElem (by simpa using hlen) fun i h1 h2 => ?_
    simp only [length_map] at h1 h2
    rw [getElem_map, getElem_map]
    exact hall i _ _ (List.getElem?_eq_getElem h1) (List.getElem?_eq_getElem h2)
  · intro hmap
    refine ⟨by simpa using congrArg List.length hmap, fun i rc tx hr ht => ?_⟩
    have hi := congrArg (·[i]?) hmap
    simpa [hr, ht] using hi

lemma process_ok {s : StateDB ω} {c c' : Caches} {r : Processed ω} (h : process e V block s c = .ok r c') :
    ∃ g snap c1 q, processBody e V block s = .ok g ∧
      e.snapshot V.chain (block.header.num - 1) block.header.parentHash [] c = .ok snap c1 ∧
      e.settle V block.header snap g.pending = .ok () q ∧ r.receipts = q.receipts := by
  unfold process at h
  cases hg : processBody e V block s with
  | error err => rw [hg] at h; cases h
  | ok g =>
    rw [hg] at h
    dsimp only at h
    cases hf : e.finalize V block.header (c, g.pending) with
    | error err t => rw [hf] at h; cases h
    | ok u t =>
      rw [hf] at h
      cases h
      obtain ⟨snap, t1, hread, hf1⟩ := bind_run_ok hf
      obtain ⟨_, t2, hepoch, hf2⟩ := bind_run_ok hf1
      obtain ⟨-, rfl⟩ := lift_run_ok hepoch
      obtain ⟨hsnap, hp⟩ := onFst_run_ok hread
      have hset := (onSnd_run_ok hf2).1
      rw [hp] at hset
      exact ⟨g, snap, _, _, rfl, hsnap, hset, rfl⟩

/-- If `Process` succeeds, the receipts match the body exactly if the common
transactions come first, as far as their hashes tell, and no call of the engine
fails after it took its transaction. -/
theorem receipts_match_iff (e : Engine) (V : Env ω) (block : Types.Block) (s : StateDB ω) (c c' : Caches)
    (r : Processed ω) (h : process e V block s c = .ok r c') :
    Match e.crypto r.receipts block.transactions ↔
      ((commonTxs e block ++ systemTxs e block).map (Transaction.hash e.crypto) =
        block.transactions.map (Transaction.hash e.crypto) ∧ callsSucceed e V block s c = true) := by
  obtain ⟨g, snap, c1, q, hg, hsnap, hset, hr⟩ := process_ok h
  obtain ⟨hsys, hreceipts⟩ := processTxs_ok hg
  obtain ⟨⟨taken, kept, hcons, hlost⟩, hdone⟩ := settle_loses hset
  have hcalls : callsSucceed e V block s c = true ↔ kept = taken := by
    rw [callsSucceed, hg, hsnap, hlost]
    simp [resultOf]
  have htaken : systemTxs e block = taken := by
    have hrec := hcons.received
    rw [hdone, append_nil] at hrec
    exact hsys.symm.trans hrec
  have hall : r.receipts.map Receipt.txHash = (commonTxs e block ++ kept).map (Transaction.hash e.crypto) := by
    rw [hr, hcons.receipts, map_append]
    exact congrArg (· ++ _) hreceipts
  rw [match_iff, hall, hcalls, htaken]
  constructor
  · intro heq
    have hlen := congrArg List.length heq
    have hbody := length_commonTxs_systemTxs e block
    rw [htaken] at hbody
    simp only [length_map, length_append] at hlen
    have hkept : kept = taken := hcons.sub.eq_of_length (by omega)
    exact ⟨hkept ▸ heq, hkept⟩
  · rintro ⟨heq, rfl⟩
    exact heq

/-! ## Blocks that do and do not match -/

/-- Validator 1 of the two makes block 1 out of turn. -/
def oneOfTwo : Engine := smallEngine 200 epoch_twoHundred 1

def firstOf (difficulty : Nat) : Header :=
  firstHeader (oneOfTwo.hashOf (smallHeader 0 0 0 [1, 2] few_two)) difficulty

def payment : Transaction := smallTx 7 (newTransaction 0 9 1 21000 0 [])

def depositTx : Transaction := smallTx 1 (expectedTx 0 (oneOfTwo.depositMessage (firstOf 1) 10 1))

def slashTx : Transaction := smallTx 1 (expectedTx 0 (oneOfTwo.slashMessage (firstOf 1) 2))

/-- The run of a block of these transactions, on a machine that refuses some calls, passes a test. -/
def runsTo (refuses : List Address) (difficulty : Nat) (txs : List Transaction) (test : Processed Unit → Bool) : Bool :=
  returns (resultOf (process oneOfTwo ⟨smallMachine refuses, smallChain [1, 2] [] few_two⟩ ⟨firstOf difficulty, txs, []⟩
    smallState Caches.empty)) test

theorem payment_and_deposit_match :
    ∃ r c', process oneOfTwo ⟨smallMachine [], smallChain [1, 2] []⟩ ⟨firstOf 2, [payment, depositTx], []⟩
        smallState Caches.empty = .ok r c' ∧ Match oneOfTwo.crypto r.receipts [payment, depositTx] := by
  have hrun : runsTo [] 2 [payment, depositTx] (fun _ => true) = true := by decide +kernel
  obtain ⟨r, hr, -⟩ := of_returns hrun
  have hok := of_resultOf_ok hr
  refine ⟨r, _, hok, (receipts_match_iff _ _ _ _ _ _ r hok).2 ⟨?_, ?_⟩⟩
  · decide +kernel
  · decide +kernel

/-- The deposit stands before the payment, and the receipts are in the other
order. A slash that fails has no receipt. -/
theorem receipts_out_of_line :
    (∃ r c', process oneOfTwo ⟨smallMachine [], smallChain [1, 2] []⟩ ⟨firstOf 2, [depositTx, payment], []⟩
        smallState Caches.empty = .ok r c' ∧
      r.receipts.map Receipt.txHash = [payment.hash oneOfTwo.crypto, depositTx.hash oneOfTwo.crypto] ∧
      ¬ Match oneOfTwo.crypto r.receipts [depositTx, payment]) ∧
    ∃ r c', process oneOfTwo ⟨smallMachine [slashContract], smallChain [1, 2] []⟩
        ⟨firstOf 1, [payment, slashTx, depositTx], []⟩ smallState Caches.empty = .ok r c' ∧
      r.receipts.length = 2 ∧ ¬ Match oneOfTwo.crypto r.receipts [payment, slashTx, depositTx] := by
  have hfirst : runsTo [] 2 [depositTx, payment] (fun r => decide (r.receipts.map Receipt.txHash =
      [payment.hash oneOfTwo.crypto, depositTx.hash oneOfTwo.crypto])) = true := by decide +kernel
  have hslash : runsTo [slashContract] 1 [payment, slashTx, depositTx] (fun r => decide (r.receipts.length = 2)) = true := by
    decide +kernel
  obtain ⟨r, hr, hhash⟩ := of_returns hfirst
  obtain ⟨r', hr', hlen⟩ := of_returns hslash
  have hne : payment.hash oneOfTwo.crypto ≠ depositTx.hash oneOfTwo.crypto := by decide +kernel
  refine ⟨⟨r, _, of_resultOf_ok hr, of_decide_eq_true hhash, fun hm => ?_⟩,
    r', _, of_resultOf_ok hr', of_decide_eq_true hlen, fun hm => ?_⟩
  · have := match_iff.1 hm
    rw [of_decide_eq_true hhash] at this
    exact hne (List.cons.inj this).1
  · exact absurd (hm.1.symm.trans (of_decide_eq_true hlen)) (by simp)

end TurboOctopus.Core
