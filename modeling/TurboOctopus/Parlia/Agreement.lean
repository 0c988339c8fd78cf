import TurboOctopus.Parlia.Production
import TurboOctopus.Parlia.SystemTx
/-!
# Producer and validators agree on system transactions

`FinalizeAndAssemble` signs a transaction for each system call that succeeds;
`Finalize` on another node makes the same calls and takes those transactions off
its list. A call that fails leaves no transaction, and the next one on the list
is then another call's: both nodes pass over it. `Agree` relates the two, call by
call, up to the block hash in receipts and logs, which the producer does not know
yet.
-/
namespace TurboOctopus.Parlia

open Lib TurboOctopus.Types Params TurboOctopus.Core List

variable {ω : Type} {s s' : StateDB ω} {p p' v : Pending ω}

/-! ## Up to the block hash -/

def unplacedLog (l : Log) : Log := { l with blockHash := 0 }

/-- A receipt without the hash of its block. -/
def unplaced (r : Receipt) : Receipt := { r with blockHash := 0, logs := r.logs.map unplacedLog }

lemma createBloom_unplaced (C : Crypto) (logs : List Log) : createBloom C (logs.map unplacedLog) = createBloom C logs := by
  unfold createBloom
  rw [foldl_map]
  rfl

/-- The same accounts and logs. -/
structure Alike (s s' : StateDB ω) : Prop where
  world : s'.world = s.world
  logs : ∀ b, (s'.logs b).map unplacedLog = (s.logs b).map unplacedLog
  logSize : s'.logSize = s.logSize

/-- The same transaction in execution as well. -/
structure Aligned (s s' : StateDB ω) : Prop extends Alike s s' where
  thash : s'.thash = s.thash
  txIndex : s'.txIndex = s.txIndex

lemma Alike.prepare (ha : Alike s s') (b : Hash) (i : Nat) : Aligned (s.prepare b i) (s'.prepare b i) :=
  ⟨{ ha with }, rfl, rfl⟩

lemma Aligned.withWorld (ha : Aligned s s') (w : World ω) : Aligned { s with world := w } { s' with world := w } :=
  { ha with world := rfl }

lemma Aligned.addLog (ha : Aligned s s') (n : UInt64) (ev : Event) : Aligned (s.addLog n ev) (s'.addLog n ev) := by
  refine { ha with logs := fun b => ?_, logSize := congrArg (· + 1) ha.logSize }
  simp only [StateDB.addLog, ha.thash, ha.txIndex, ha.logSize]
  by_cases hb : b = s.thash
  · subst hb
    simp [ha.logs]
  · simp [Function.update_of_ne hb, ha.logs]

lemma Aligned.addLogs (ha : Aligned s s') (n : UInt64) (events : List Event) :
    Aligned (events.foldl (StateDB.addLog n) s) (events.foldl (StateDB.addLog n) s') := by
  induction events generalizing s s' with
  | nil => exact ha
  | cons ev events ih => exact ih (ha.addLog n ev)

lemma unplaced_marked (logs : List Log) (x : Hash) :
    (logs.map fun l => { l with blockHash := x }).map unplacedLog = logs.map unplacedLog := by
  rw [map_map]
  rfl

lemma Alike.markLogs (ha : Alike s s') (b x y : Hash) : Alike (s.markLogs b x) (s'.markLogs b y) := by
  refine ⟨ha.world, fun b' => ?_, ha.logSize⟩
  unfold StateDB.markLogs
  by_cases hb : b' = b
  · subst hb
    simp only [Function.update_self, unplaced_marked, ha.logs]
  · simp only [Function.update_of_ne hb, ha.logs]

/-- What the producer and a validator have come to, the transactions still to be
matched apart. -/
structure Agree (p v : Pending ω) : Prop where
  state : Alike p.state v.state
  txs : v.txs = p.txs
  receipts : v.receipts.map unplaced = p.receipts.map unplaced
  usedGas : v.usedGas = p.usedGas

/-! ## Two nodes -/

/-- The fields of a header that the producer has settled before it assembles the
block. -/
structure SameBlock (h h' : Header) : Prop where
  parentHash : h'.parentHash = h.parentHash
  coinbase : h'.coinbase = h.coinbase
  difficulty : h'.difficulty = h.difficulty
  number : h'.number = h.number
  gasLimit : h'.gasLimit = h.gasLimit
  time : h'.time = h.time
  mixDigest : h'.mixDigest = h.mixDigest
  baseFee : h'.baseFee = h.baseFee

/-- Two nodes execute the same block on the same machine. -/
structure Twins (e e' : Engine) (V V' : Env ω) (h h' : Header) : Prop where
  crypto : e'.crypto = e.crypto
  chainConfig : e'.chainConfig = e.chainConfig
  machine : V'.machine = V.machine
  block : SameBlock h h'
  context : newEVMBlockContext V'.chain.getHeader h' = newEVMBlockContext V.chain.getHeader h

section Twins
variable {e e' : Engine} {V V' : Env ω} {h h' : Header} {msg : CallMsg} (ht : Twins e e' V V' h h')
include ht

lemma Twins.signingHash (tx : Transaction) : e'.signingHash tx = e.signingHash tx := by
  unfold Engine.signingHash
  rw [ht.crypto, ht.chainConfig]

lemma Twins.num : h'.num = h.num := by
  unfold Header.num
  rw [ht.block.number]

lemma Twins.applyMessage_ok (ha : Aligned s s') {r : UInt64 × StateDB ω} (hm : V.applyMessage h msg s = .ok r) :
    ∃ t', V'.applyMessage h' msg s' = .ok (r.1, t') ∧ Aligned r.2 t' := by
  unfold Env.applyMessage at hm ⊢
  rw [ht.context, ht.machine, ha.world, ht.num]
  cases hc : V.machine.call (newEVMBlockContext V.chain.getHeader h) msg s.world with
  | none => rw [hc] at hm; cases hm
  | some res =>
    obtain ⟨gas, world, events⟩ := res
    rw [hc] at hm
    cases hm
    exact ⟨_, rfl, (ha.withWorld world).addLogs _ _⟩

lemma Twins.systemReceipt (ha : Alike s s') (hi : s'.txIndex = s.txIndex) (x y : Hash) (tx : Transaction)
    (root : List UInt8) (gasUsed usedGas : UInt64) : unplaced (e'.systemReceipt h' y tx root gasUsed usedGas s') =
      unplaced (e.systemReceipt h x tx root gasUsed usedGas s) := by
  have hlogs := ha.logs (tx.hash e.crypto)
  have hbloom : createBloom e.crypto (s'.logs (tx.hash e.crypto)) = createBloom e.crypto (s.logs (tx.hash e.crypto)) := by
    rw [← createBloom_unplaced, hlogs, createBloom_unplaced]
  simp only [unplaced, Engine.systemReceipt, ht.crypto, ht.block.number, hlogs, hbloom, hi]

lemma Twins.record (hp : Agree p v) (ha : Aligned s s') (nonce : UInt64) (tx : Transaction) (gasUsed : UInt64) :
    Agree (e.record V h msg nonce true tx gasUsed s p) (e'.record V' h' msg nonce false tx gasUsed s' v) := by
  have hmark := fun x y => ha.toAlike.markLogs (tx.hash e.crypto) x y
  have hdone : V'.machine.endTransaction e'.chainConfig h'.number s'.world =
      V.machine.endTransaction e.chainConfig h.number s.world := by
    rw [ht.machine, ht.chainConfig, ht.block.number, ha.world]
  unfold Engine.record
  rw [hdone, ht.crypto, hp.usedGas]
  refine ⟨⟨rfl, (hmark _ _).logs, ha.logSize⟩, congrArg (· ++ [tx]) hp.txs, ?_, rfl⟩
  rw [map_append, map_append, hp.receipts]
  exact congrArg (fun r => p.receipts.map unplaced ++ [r]) (ht.systemReceipt (hmark _ _) ha.txIndex _ _ _ _ _ _)

end Twins

/-! ## One call -/

/-- The account of the engine signs the transaction it is given. -/
def Engine.SignsTx (e : Engine) : Prop :=
  ∀ tx tx', e.signTxFn e.val tx = .ok tx' → tx'.nonce = tx.nonce ∧ tx'.gasPrice = tx.gasPrice ∧ tx'.gas = tx.gas ∧
    tx'.toAddr = tx.toAddr ∧ tx'.value = tx.value ∧ tx'.data = tx.data

variable {e : Engine} {h : Header} {m m' : CallMsg} {w : Address}

lemma Engine.SignsTx.signingHash (hs : e.SignsTx) {tx tx' : Transaction}
    (h : e.signTxFn e.val tx = .ok tx') : e.signingHash tx' = e.signingHash tx := by
  obtain ⟨hnonce, hprice, hgas, hto, hvalue, hdata⟩ := hs tx tx' h
  unfold Engine.signingHash signerHash
  rw [hnonce, hprice, hgas, hto, hvalue, hdata]

/-- `run` on a validator follows the producer from `p` to `p'`: it takes what the
producer sent and leaves the rest, if `ok` holds of the rest. -/
structure Mirrored (run : SystemM ω Unit) (p p' : Pending ω) (sent : List Transaction)
    (ok : List Transaction → Prop) : Prop where
  txs : p'.txs = p.txs ++ sent
  follow : ∀ v rest, Agree p v → v.received = sent ++ rest → ok rest →
    ∃ v', run v = .ok () v' ∧ Agree p' v' ∧ v'.received = rest

/-- The next transaction is none of these messages. -/
def Foreign (e : Engine) (nonce : UInt64) (msgs : List CallMsg) (rest : List Transaction) : Prop :=
  ∀ tx, rest.head? = some tx → ∀ m ∈ msgs, e.signingHash tx ≠ e.signingHash (expectedTx nonce m)

section Calls
variable {e e' : Engine} {V V' : Env ω} {h h' : Header} {msg : CallMsg} (ht : Twins e e' V V' h h') (hs : e.SignsTx)

lemma takeTransaction_mining (hfrom : msg.fromAddr = e.val) {nonce : UInt64} {r : Except Err Transaction}
    (hsign : e.signTxFn e.val (expectedTx nonce msg) = r) {p : Pending ω} :
    e.takeTransaction msg nonce true p = lift r p := by
  unfold Engine.takeTransaction
  rw [if_pos ⟨hfrom, rfl⟩, hfrom, hsign]
  cases r <;> rfl

/-- A call the producer could not make leaves the state for the validators' eyes as it was. -/
lemma mined_error (hfrom : msg.fromAddr = e.val) {err : Err} (hm : e.applyTransaction V h true msg p = .error err p') :
    p'.txs = p.txs ∧ p'.state.world = p.state.world ∧ ∀ v, Agree p v → Agree p' v := by
  cases hsign : e.signTxFn e.val (expectedTx (p.state.world.nonce msg.fromAddr) msg) with
  | error err' =>
    rw [applyTransaction_untaken (takeTransaction_mining hfrom hsign)] at hm
    cases hm
    exact ⟨rfl, rfl, fun _ hv => hv⟩
  | ok tx =>
    rw [applyTransaction_taken (takeTransaction_mining hfrom hsign)] at hm
    cases happ : V.applyMessage h msg (e.prepareFor tx p).state with
    | ok r => rw [happ] at hm; cases hm
    | error err' =>
      rw [happ] at hm
      cases hm
      exact ⟨rfl, rfl, fun v hv => { hv with state := { hv.state with } }⟩

include ht hs in
/-- A call the producer made is made again from the transaction it signed. -/
lemma mined_ok (hfrom : msg.fromAddr = e.val) (hm : e.applyTransaction V h true msg p = .ok () p') :
    ∃ tx, e.signTxFn e.val (expectedTx (p.state.world.nonce e.val) msg) = .ok tx ∧
      Mirrored (e'.applyTransaction V' h' false msg) p p' [tx] fun _ => True := by
  cases hsign : e.signTxFn e.val (expectedTx (p.state.world.nonce msg.fromAddr) msg) with
  | error err =>
    rw [applyTransaction_untaken (takeTransaction_mining hfrom hsign)] at hm
    cases hm
  | ok tx =>
    rw [applyTransaction_taken (takeTransaction_mining hfrom hsign)] at hm
    cases happ : V.applyMessage h msg (e.prepareFor tx p).state with
    | error err => rw [happ] at hm; cases hm
    | ok r =>
      rw [happ] at hm
      cases hm
      refine ⟨tx, by rwa [hfrom] at hsign, rfl, fun v rest hv hrec _ => ?_⟩
      have hnonce : v.state.world.nonce msg.fromAddr = p.state.world.nonce msg.fromAddr := by rw [hv.state.world]
      have hhash : e'.signingHash tx = e'.signingHash (expectedTx (p.state.world.nonce msg.fromAddr) msg) := by
        rw [ht.signingHash, ht.signingHash, hs.signingHash hsign]
      have htake' : e'.takeTransaction msg (v.state.world.nonce msg.fromAddr) false v =
          .ok tx { v with received := rest } := by
        unfold Engine.takeTransaction
        rw [if_neg (by simp), hrec, hnonce]
        exact if_neg (not_not.2 hhash)
      have haligned : Aligned (e.prepareFor tx p).state (e'.prepareFor tx { v with received := rest }).state := by
        unfold Engine.prepareFor
        rw [hv.txs, ht.crypto]
        exact hv.state.prepare _ _
      obtain ⟨t', happ', ha'⟩ := ht.applyMessage_ok haligned happ
      refine ⟨_, by rw [applyTransaction_taken htake', happ'], ?_, rfl⟩
      rw [hnonce]
      exact ht.record { hv with state := haligned.toAlike } ha' _ _ _

/-- A validator passes over a call whose transaction is not the next one. -/
lemma passed_over (V' : Env ω) (h' : Header) (he : ∀ tx, e'.signingHash tx = e.signingHash tx)
    (hforeign : Foreign e (v.state.world.nonce msg.fromAddr) [msg] v.received) :
    ∃ err, e'.applyTransaction V' h' false msg v = .error err v := by
  cases htake : e'.takeTransaction msg (v.state.world.nonce msg.fromAddr) false v with
  | error err q => exact ⟨err, applyTransaction_untaken htake⟩
  | ok tx q =>
    obtain ⟨hrec, -, hhash⟩ := takeTransaction_ok htake
    rw [he, he] at hhash
    exact absurd hhash (hforeign tx (by rw [hrec]; rfl) msg mem_cons_self)

/-- Both nodes make a call, or both pass over it. -/
inductive CallEnds (e e' : Engine) (V V' : Env ω) (h h' : Header) (msg : CallMsg) (p : Pending ω) : Prop
  | made (tx : Transaction) (p' : Pending ω) :
      e.applyTransaction V h true msg p = .ok () p' →
      e.signTxFn e.val (expectedTx (p.state.world.nonce e.val) msg) = .ok tx →
      Mirrored (e'.applyTransaction V' h' false msg) p p' [tx] (fun _ => True) → CallEnds e e' V V' h h' msg p
  | failed (err : Err) (p' : Pending ω) :
      e.applyTransaction V h true msg p = .error err p' → p'.txs = p.txs → p'.state.world = p.state.world →
      (∀ v, Agree p v → Foreign e (p'.state.world.nonce e.val) [msg] v.received →
        Agree p' v ∧ ∃ err', e'.applyTransaction V' h' false msg v = .error err' v) →
      CallEnds e e' V V' h h' msg p

include ht hs in
lemma callEnds (hfrom : msg.fromAddr = e.val) (p : Pending ω) : CallEnds e e' V V' h h' msg p := by
  cases hm : e.applyTransaction V h true msg p with
  | ok u p' =>
    obtain ⟨tx, hsign, hmir⟩ := mined_ok ht hs hfrom hm
    exact .made tx p' hm hsign hmir
  | error err p' =>
    obtain ⟨htxs, hworld, hag⟩ := mined_error hfrom hm
    refine .failed err p' hm htxs hworld fun v hv hforeign => ⟨hag v hv, passed_over V' h' ht.signingHash ?_⟩
    rwa [hv.state.world, hfrom, ← hworld]

end Calls

/-! ## The calls whose errors are dropped -/

/-- The first transaction sent is of a message like these. If nothing is sent, no
nonce moves. -/
def Starts (e : Engine) (p p' : Pending ω) (sent : List Transaction) (Q : CallMsg → Prop) : Prop :=
  (sent = [] ∧ p'.state.world.nonce = p.state.world.nonce) ∨
    ∃ tx more m, sent = tx :: more ∧ Q m ∧ e.signTxFn e.val (expectedTx (p.state.world.nonce e.val) m) = .ok tx

section Dropped
variable {e e' : Engine} {V V' : Env ω} {h h' : Header} (ht : Twins e e' V V' h h') (hs : e.SignsTx)

variable {Q R : CallMsg → Prop} {msgs : List CallMsg} {p1 : Pending ω} {sent : List Transaction}

lemma Starts.append {p2 : Pending ω} {more : List Transaction}
    (hq : Starts e p p1 sent Q) (hr : Starts e p1 p2 more R) : Starts e p p2 (sent ++ more) fun m => Q m ∨ R m := by
  rcases hq with ⟨rfl, hnonce⟩ | ⟨tx, tl, m, rfl, hm, hsign⟩
  · rcases hr with ⟨rfl, hnonce'⟩ | ⟨tx, tl, m, rfl, hm, hsign⟩
    · exact .inl ⟨rfl, hnonce'.trans hnonce⟩
    · exact .inr ⟨tx, tl, m, rfl, .inr hm, by rw [← hnonce]; exact hsign⟩
  · exact .inr ⟨tx, tl ++ more, m, rfl, .inl hm, hsign⟩

lemma Starts.mono (hq : Starts e p p' sent Q) (hqr : ∀ m, Q m → R m) : Starts e p p' sent R :=
  hq.imp_right fun ⟨tx, more, m, heq, hm, hsign⟩ => ⟨tx, more, m, heq, hqr m hm, hsign⟩

/-- No transaction has the signing hash of one of these messages unless it makes
that call. -/
def Engine.SignsApart (e : Engine) (msgs : List CallMsg) (txs : List Transaction) : Prop :=
  ∀ tx ∈ txs, ∀ m ∈ msgs, e.signingHash tx = e.signingHash (expectedTx tx.nonce m) →
    tx.toAddr = some m.toAddr ∧ tx.data = m.data

instance (e : Engine) (msgs : List CallMsg) (txs : List Transaction) : Decidable (e.SignsApart msgs txs) :=
  inferInstanceAs (Decidable (∀ tx ∈ txs, ∀ m ∈ msgs, _))

lemma Starts.foreign (hs : e.SignsTx) (hst : Starts e p p' sent Q) (hapart : e.SignsApart msgs sent)
    (hne : ∀ m', Q m' → ∀ m ∈ msgs, ¬ (m'.toAddr = m.toAddr ∧ m'.data = m.data)) :
    Foreign e (p.state.world.nonce e.val) msgs sent := by
  intro tx hd m hm hhash
  rcases hst with ⟨rfl, -⟩ | ⟨tx', more, m', rfl, hq, hsign⟩
  · cases hd
  · cases hd
    obtain ⟨hnonce, -, -, hto, -, hdata⟩ := hs _ _ hsign
    have hn : tx.nonce = p.state.world.nonce e.val := hnonce
    obtain ⟨hto', hdata'⟩ := hapart tx mem_cons_self m hm (by rw [hn]; exact hhash)
    exact hne m' hq m hm ⟨Option.some.inj (hto.symm.trans hto'), hdata.symm.trans hdata'⟩

include ht hs

/-- The messages of a list, up to the first that fails. -/
lemma applyEach_mirrored (hfrom : ∀ m ∈ msgs, m.fromAddr = e.val) (p : Pending ω) :
    ∃ sent, Mirrored (swallow (e'.applyEach V' h' false msgs)) p (stateOf (e.applyEach V h true msgs p)) sent
      (Foreign e ((stateOf (e.applyEach V h true msgs p)).state.world.nonce e.val) msgs) := by
  induction msgs generalizing p with
  | nil => exact ⟨[], (append_nil _).symm, fun v rest hv hrec _ => ⟨v, rfl, hv, hrec⟩⟩
  | cons msg msgs ih =>
    cases callEnds ht hs (hfrom msg mem_cons_self) p with
    | made tx p1 hm hsign hone =>
      obtain ⟨sent, hrest⟩ := ih (fun m hm => hfrom m (mem_cons_of_mem _ hm)) p1
      have hstate : e.applyEach V h true (msg :: msgs) p = e.applyEach V h true msgs p1 := run_bind_of_ok hm
      rw [hstate]
      refine ⟨tx :: sent, ?_, fun v rest hv hrec hok => ?_⟩
      · rw [hrest.txs, hone.txs, append_assoc]
        rfl
      · obtain ⟨v1, hv1, hag, hrec1⟩ := hone.follow v (sent ++ rest) hv hrec trivial
        have hstep : e'.applyEach V' h' false (msg :: msgs) v = e'.applyEach V' h' false msgs v1 := run_bind_of_ok hv1
        rw [swallow_run, hstep, ← swallow_run]
        exact hrest.follow v1 rest hag hrec1 fun tx hd m hm => hok tx hd m (mem_cons_of_mem _ hm)
    | failed err p1 hm htxs hworld hpass =>
      have hstate : e.applyEach V h true (msg :: msgs) p = .error err p1 := run_bind_of_error hm
      rw [hstate]
      refine ⟨[], by simpa [stateOf] using htxs, fun v rest hv hrec hok => ?_⟩
      obtain ⟨hag, err', hv'⟩ := hpass v hv fun tx hd m hm => by
        rw [mem_singleton.1 hm]
        rw [hrec] at hd
        exact hok tx hd msg mem_cons_self
      have hstep : e'.applyEach V' h' false (msg :: msgs) v = .error err' v := run_bind_of_error hv'
      rw [swallow_run, hstep]
      exact ⟨v, rfl, hag, hrec⟩

lemma swallowed_mirrored (msg : CallMsg) (hfrom : msg.fromAddr = e.val) (p : Pending ω) :
    ∃ sent, Mirrored (swallow (e'.applyTransaction V' h' false msg)) p
        (stateOf (e.applyTransaction V h true msg p)) sent
        (Foreign e ((stateOf (e.applyTransaction V h true msg p)).state.world.nonce e.val) [msg]) ∧
      Starts e p (stateOf (e.applyTransaction V h true msg p)) sent (· = msg) := by
  cases callEnds ht hs hfrom p with
  | made tx p1 hm hsign hone =>
    rw [hm]
    refine ⟨[tx], ⟨hone.txs, fun v rest hv hrec _ => ?_⟩, .inr ⟨tx, [], msg, rfl, rfl, hsign⟩⟩
    obtain ⟨v1, hv1, hag, hrec1⟩ := hone.follow v rest hv hrec trivial
    rw [swallow_run, hv1]
    exact ⟨v1, rfl, hag, hrec1⟩
  | failed err p1 hm htxs hworld hpass =>
    rw [hm]
    refine ⟨[], ⟨by simpa [stateOf] using htxs, fun v rest hv hrec hok => ?_⟩, .inl ⟨rfl, congrArg World.nonce hworld⟩⟩
    obtain ⟨hag, err', hv'⟩ := hpass v hv (by rw [hrec]; exact hok)
    rw [swallow_run, hv']
    exact ⟨v, rfl, hag, hrec⟩

lemma initFirst_mirrored (hcb : h.coinbase = e.val) (p : Pending ω) : ∃ sent p1, e.initFirst V h true p = .ok () p1 ∧
      Mirrored (e'.initFirst V' h' false) p p1 sent (Foreign e (p1.state.world.nonce e.val) (e.initMessages h)) := by
  have hmsgs : e'.initMessages h' = e.initMessages h := by
    unfold Engine.initMessages Engine.initData Engine.pack
    rw [ht.crypto, ht.block.coinbase]
  unfold Engine.initFirst
  rw [ht.block.number]
  by_cases hone : h.number.getD 0 = 1
  · have hfrom : ∀ m ∈ e.initMessages h, m.fromAddr = e.val := forall_mem_map.2 fun _ _ => hcb
    obtain ⟨sent, hmir⟩ := applyEach_mirrored ht hs hfrom p
    rw [if_pos hone, if_pos hone]
    unfold Engine.initContract
    rw [hmsgs]
    exact ⟨sent, _, swallow_run _ _, hmir⟩
  · rw [if_neg hone, if_neg hone]
    exact ⟨[], p, rfl, (append_nil _).symm, fun v rest hv hrec _ => ⟨v, rfl, hv, hrec⟩⟩

lemma slashSpoiled_mirrored (hcb : h.coinbase = e.val) {snap : Snapshot}
    (hm : e.slashSpoiled V h true snap p = .ok () p1) :
    ∃ w sent, snap.supposeValidator = .ok w ∧ Mirrored (e'.slashSpoiled V' h' false snap) p p1 sent
        (Foreign e (p1.state.world.nonce e.val) [e.slashMessage h w]) ∧
      Starts e p p1 sent (· = e.slashMessage h w) := by
  unfold Engine.slashSpoiled at hm
  obtain ⟨w, p', hlift, hcall⟩ := bind_run_ok hm
  obtain ⟨hw, rfl⟩ := lift_run_ok hlift
  have hmsg : e'.slashMessage h' w = e.slashMessage h w := by
    unfold Engine.slashMessage Engine.slashData Engine.pack
    rw [ht.crypto, ht.block.coinbase]
  have hrun : ∀ v, e'.slashSpoiled V' h' false snap v = (if HasValue snap.recents w then pure ()
      else swallow (e'.applyTransaction V' h' false (e.slashMessage h w)) : SystemM ω Unit) v := by
    intro v
    unfold Engine.slashSpoiled
    rw [hw, run_bind, lift_ok, ← hmsg]
    rfl
  refine ⟨w, ?_⟩
  by_cases hrecent : HasValue snap.recents w
  · rw [if_pos hrecent] at hcall
    cases hcall
    refine ⟨[], hw, ⟨(append_nil _).symm, fun v rest hv hrec _ => ⟨v, ?_, hv, hrec⟩⟩, .inl ⟨rfl, rfl⟩⟩
    rw [hrun, if_pos hrecent]
    rfl
  · rw [if_neg hrecent, swallow_run] at hcall
    cases hcall
    obtain ⟨sent, hmir, hst⟩ := swallowed_mirrored ht hs (e.slashMessage h w) hcb p'
    refine ⟨sent, hw, ⟨hmir.txs, fun v rest hv hrec hok => ?_⟩, hst⟩
    rw [hrun, if_neg hrecent]
    exact hmir.follow v rest hv hrec hok

end Dropped

/-! ## The fees -/

section Fees
variable {e e' : Engine} {V V' : Env ω} {h h' : Header} (ht : Twins e e' V V' h h') (hs : e.SignsTx)
include ht

lemma Twins.collect (hv : Agree p v) : Agree (p.collect h) (v.collect h') := by
  refine { hv with state := { hv.state with world := ?_ } }
  unfold Pending.collect
  simp only [hv.state.world, ht.block.coinbase]

include hs

/-- A call that has to succeed. -/
lemma required_mirrored (msg : CallMsg) (hfrom : msg.fromAddr = e.val) {p1 : Pending ω}
    (hm : e.applyTransaction V h true msg p = .ok () p1) :
    ∃ tx, Mirrored (e'.applyTransaction V' h' false msg) p p1 [tx] (fun _ => True) ∧ Starts e p p1 [tx] (· = msg) := by
  obtain ⟨tx, hsign, hmir⟩ := mined_ok ht hs hfrom hm
  exact ⟨tx, hmir, .inr ⟨tx, [], msg, rfl, rfl, hsign⟩⟩

/-- The calls that hand out the fees. -/
def HandsOut (e : Engine) (h : Header) (m : CallMsg) : Prop :=
  (∃ amount, m = rewardMessage h amount) ∨ ∃ amount, m = e.depositMessage h amount e.val

lemma distributeIncoming_mirrored (hcb : h.coinbase = e.val) {p1 : Pending ω}
    (hm : e.distributeIncoming V h true e.val p = .ok () p1) :
    ∃ sent, Mirrored (e'.distributeIncoming V' h' false h'.coinbase) p p1 sent (fun _ => True) ∧
      Starts e p p1 sent (HandsOut e h) := by
  have hreward : ∀ amount, rewardMessage h' amount = rewardMessage h amount := by
    intro amount
    unfold rewardMessage
    rw [ht.block.coinbase]
  have hdeposit : ∀ amount, e'.depositMessage h' amount h'.coinbase = e.depositMessage h amount e.val := by
    intro amount
    unfold Engine.depositMessage Engine.depositData Engine.pack
    rw [ht.crypto, ht.block.coinbase, hcb]
  unfold Engine.distributeIncoming at hm
  dsimp only at hm
  split at hm
  · rename_i hzero
    cases hm
    refine ⟨[], ⟨(append_nil _).symm, fun v rest hv hrec _ => ⟨v, ?_, hv, hrec⟩⟩, .inl ⟨rfl, rfl⟩⟩
    unfold Engine.distributeIncoming
    rw [hv.state.world]
    exact if_pos hzero
  · rename_i hpos
    have hbal : ∀ v, Agree p v → v.state.world.balance systemAddress = p.state.world.balance systemAddress ∧
        (v.collect h').rewards (p.state.world.balance systemAddress) =
          (p.collect h).rewards (p.state.world.balance systemAddress) := by
      intro v hv
      refine ⟨by rw [hv.state.world], ?_⟩
      unfold Pending.rewards
      rw [(ht.collect hv).state.world]
    split at hm
    · rename_i hrew
      obtain ⟨_, p2, h1, h2⟩ := bind_run_ok hm
      obtain ⟨tx1, hmir1, hst1⟩ := required_mirrored ht hs (rewardMessage h _) hcb h1
      obtain ⟨tx2, hmir2, hst2⟩ := required_mirrored ht hs (e.depositMessage h _ e.val) hcb h2
      refine ⟨[tx1, tx2], ⟨?_, fun v rest hv hrec _ => ?_⟩, ?_⟩
      · rw [hmir2.txs, hmir1.txs]
        exact append_assoc _ [tx1] [tx2]
      · obtain ⟨hb, hrw⟩ := hbal v hv
        obtain ⟨v1, hv1, hag1, hrec1⟩ := hmir1.follow (v.collect h') (tx2 :: rest) (ht.collect hv) hrec trivial
        obtain ⟨v2, hv2, hag2, hrec2⟩ := hmir2.follow v1 rest hag1 hrec1 trivial
        refine ⟨v2, ?_, hag2, hrec2⟩
        unfold Engine.distributeIncoming
        dsimp only
        rw [hb, if_neg hpos, hrw, if_pos hrew]
        unfold Engine.distributeToSystem Engine.distributeToValidator
        rw [hreward, hdeposit, run_bind_of_ok hv1, hv2]
      · exact (hst1.append hst2).mono fun m => Or.imp (fun hm => ⟨_, hm⟩) fun hm => ⟨_, hm⟩
    · rename_i hrew
      obtain ⟨tx, hmir, hst⟩ := required_mirrored ht hs (e.depositMessage h _ e.val) hcb hm
      refine ⟨[tx], ⟨hmir.txs, fun v rest hv hrec _ => ?_⟩, ?_⟩
      · obtain ⟨hb, hrw⟩ := hbal v hv
        obtain ⟨v1, hv1, hag1, hrec1⟩ := hmir.follow (v.collect h') rest (ht.collect hv) hrec trivial
        refine ⟨v1, ?_, hag1, hrec1⟩
        unfold Engine.distributeIncoming
        dsimp only
        rw [hb, if_neg hpos, hrw, if_neg hrew]
        unfold Engine.distributeToValidator
        rw [hdeposit, hv1]
      · exact hst.mono fun m hm => .inr ⟨_, hm⟩

end Fees

/-! ## The whole block -/

section Chain
variable {e e' : Engine} {parent : Header} {rest : List Header}

/-- Two nodes that store the same path find the same hashes along it. -/
lemma ancestorHash_congr {get get' : Hash → UInt64 → Option Header} (hp : e.Path (parent :: rest))
    (hget : ∀ a ∈ parent :: rest, get (e.hashOf a) a.num = some a)
    (hget' : ∀ a ∈ parent :: rest, get' (e.hashOf a) a.num = some a) (n : UInt64) {fuel : Nat}
    (hfuel : fuel ≤ (parent :: rest).length) :
    ancestorHash get' n fuel (e.hashOf parent) parent.num = ancestorHash get n fuel (e.hashOf parent) parent.num := by
  induction fuel generalizing parent rest with
  | zero => rfl
  | succ fuel ih =>
    unfold ancestorHash
    rw [hget parent mem_cons_self, hget' parent mem_cons_self]
    dsimp only
    split
    · rfl
    · cases hp with
      | genesis hg =>
        have hzero : fuel = 0 := by simpa using hfuel
        rw [hzero]
        rfl
      | @child _ q path hq hnum hpar =>
        have hdown : parent.num - 1 = q.num := by rw [hnum]; grind
        rw [hpar, hdown]
        exact ih hq (fun a ha => hget a (mem_cons_of_mem _ ha)) (fun a ha => hget' a (mem_cons_of_mem _ ha))
          (by simpa using hfuel)

lemma twins_of_follows {V V' : Env ω} {h h' : Header} {c c' : Caches} (hr : e.SameRules e')
    (hm : V'.machine = V.machine) (hf : Follows e V.chain (parent :: rest) c)
    (hf' : Follows e' V'.chain (parent :: rest) c') (hsame : SameBlock h h') (hnum : h.num = parent.num + 1)
    (hpar : h.parentHash = e.hashOf parent) : Twins e e' V V' h h' := by
  have hlen : h.num.toNat ≤ (parent :: rest).length := by
    have hp := hf.stored.path.num_toNat hf.stored.fits
    rw [hnum, length_cons]
    rcases u64_succ_cases parent.num with hn | hn
    · omega
    · omega
  have hdown : h.num - 1 = parent.num := by rw [hnum]; grind
  have hnum' : h'.num = h.num := by rw [Header.num, hsame.number, ← Header.num]
  have hhash : getHashFn V'.chain.getHeader h' = getHashFn V.chain.getHeader h := by
    funext n
    unfold getHashFn
    rw [hnum', hsame.parentHash, hpar, hdown]
    rw [ancestorHash_congr hf.stored.path hf.stored.get_stored (fun a ha => by
      have := hf'.stored.get_stored a ha
      rwa [hr.hashOf] at this) n hlen]
  refine ⟨hr.crypto, hr.chainConfig, hm, hsame, ?_⟩
  unfold newEVMBlockContext
  rw [hhash, hsame.coinbase, hsame.gasLimit, hsame.number, hsame.time, hsame.difficulty, hsame.baseFee, hsame.mixDigest]

end Chain

/-- The calls of a block whose errors both nodes drop. -/
def Engine.droppedMessages (e : Engine) (h : Header) (snap : Snapshot) : List CallMsg :=
  e.initMessages h ++ match snap.supposeValidator with
    | .ok w => [e.slashMessage h w]
    | .error _ => []

/-! ### No two of them look alike -/

lemma length_pack (e : Engine) (signature : List UInt8) (args : List Address) :
    (e.pack signature args).length = 4 + 32 * args.length := by
  unfold Engine.pack
  rw [length_append, length_take, length_flatMap]
  simp [Hash.bytes, Nat.mul_comm]

lemma slash_ne_init (hm : m ∈ e.initMessages h) :
    ¬ ((e.slashMessage h w).toAddr = m.toAddr ∧ (e.slashMessage h w).data = m.data) := by
  rintro ⟨-, hdata⟩
  obtain ⟨c, -, rfl⟩ := mem_map.1 hm
  have hlen := congrArg List.length hdata
  simp [Engine.slashMessage, getSystemMessage, Engine.slashData, Engine.initData, length_pack] at hlen

lemma handsOut_ne_init (hm' : HandsOut e h m') (hm : m ∈ e.initMessages h) :
    ¬ (m'.toAddr = m.toAddr ∧ m'.data = m.data) := by
  rintro ⟨hto, hdata⟩
  obtain ⟨c, hc, rfl⟩ := mem_map.1 hm
  rcases hm' with ⟨amount, rfl⟩ | ⟨amount, rfl⟩
  · have hmem : systemRewardContract ∈ initContracts := (show systemRewardContract = c from hto) ▸ hc
    exact absurd hmem (by decide)
  · have hlen := congrArg List.length hdata
    simp [Engine.depositMessage, getSystemMessage, Engine.depositData, Engine.initData, length_pack] at hlen

lemma handsOut_ne_slash (hm' : HandsOut e h m') :
    ¬ (m'.toAddr = (e.slashMessage h w).toAddr ∧ m'.data = (e.slashMessage h w).data) := by
  rintro ⟨hto, -⟩
  rcases hm' with ⟨amount, rfl⟩ | ⟨amount, rfl⟩
  · exact absurd (show systemRewardContract = slashContract from hto) (by decide)
  · exact absurd (show validatorContract = slashContract from hto) (by decide)

section Block
variable {e e' : Engine} {V V' : Env ω} {h h' : Header} {parent : Header} {rest : List Header} {c : Caches}
  {snap : Snapshot}

/-- The producer reads the snapshot out of turn only, the validator always. -/
lemma mineSlash_mirrored (ht : Twins e e' V V' h h') (hs : e.SignsTx) (hf : Follows e V.chain (parent :: rest) c)
    (href : e.refSnapshot (parent :: rest) = .ok snap) (hnum : h.num - 1 = parent.num)
    (hpar : h.parentHash = e.hashOf parent) (hcb : h.coinbase = e.val) {t : Caches × Pending ω}
    (hm : e.mineSlash V h (c, p) = .ok () t) :
    ∃ sent, Mirrored (e'.slashOutOfTurn V' h' snap) p t.2 sent (fun rest => ∀ w, snap.supposeValidator = .ok w →
        Foreign e (t.2.state.world.nonce e.val) [e.slashMessage h w] rest) ∧
      Starts e p t.2 sent fun m => ∃ w, m = e.slashMessage h w := by
  unfold Engine.mineSlash at hm
  unfold Engine.slashOutOfTurn
  rw [ht.block.difficulty]
  by_cases hd : h.difficulty.getD 0 ≠ diffInTurn
  · rw [if_pos hd] at hm ⊢
    obtain ⟨snap', t1, hread, hslash⟩ := bind_run_ok hm
    obtain ⟨hsnap, hp1⟩ := onFst_run_ok hread
    rw [hnum, hpar] at hsnap
    obtain rfl : snap' = snap := by
      have := hf.ref_of_snapshot hsnap
      rw [href] at this
      cases this
      rfl
    have hrun := (onSnd_run_ok hslash).1
    rw [hp1] at hrun
    obtain ⟨w, sent, hw, hmir, hst⟩ := slashSpoiled_mirrored ht hs hcb hrun
    exact ⟨sent, ⟨hmir.txs, fun v rest hv hrec hok => hmir.follow v rest hv hrec (hok w hw)⟩, hst.mono fun m hm => ⟨w, hm⟩⟩
  · rw [if_neg hd] at hm ⊢
    cases hm
    exact ⟨[], ⟨(append_nil _).symm, fun v rest hv hrec _ => ⟨v, rfl, hv, hrec⟩⟩, .inl ⟨rfl, rfl⟩⟩

lemma finalizeAndAssemble_ok {state state' : StateDB ω} {txs : List Transaction} {receipts receipts' : List Receipt}
    {block : Types.Block} {c1 : Caches}
    (hm : e.finalizeAndAssemble V h state txs receipts c = .ok (block, receipts', state') c1) :
    ∃ t, e.mineSystem V h (c, ⟨state, txs, receipts, [], h.gasUsed⟩) = .ok () t ∧ block.transactions = t.2.txs ∧
      receipts' = t.2.receipts ∧ block.header.gasUsed = t.2.usedGas ∧
      state'.world = V.machine.finalise (V.chain.config.isEIP158 h.number) t.2.state.world := by
  unfold Engine.finalizeAndAssemble at hm
  cases hrun : e.mineSystem V h (c, ⟨state, txs, receipts, [], h.gasUsed⟩) with
  | error err t => rw [hrun] at hm; cases hm
  | ok u t =>
    rw [hrun] at hm
    dsimp only at hm
    split at hm
    · cases hm
    · cases hm
      exact ⟨t, rfl, rfl, rfl, rfl, rfl⟩

/-- What the producer's three steps sent, and that a validator follows each. -/
lemma mineSystem_mirrored (ht : Twins e e' V V' h h') (hs : e.SignsTx) (hf : Follows e V.chain (parent :: rest) c)
    (href : e.refSnapshot (parent :: rest) = .ok snap) (hnum : h.num - 1 = parent.num)
    (hpar : h.parentHash = e.hashOf parent) (hcb : h.coinbase = e.val) {t : Caches × Pending ω}
    (hm : e.mineSystem V h (c, p) = .ok () t) : ∃ sent, Mirrored (e'.settle V' h' snap) p t.2 sent fun rest => rest =
      [] ∧ e.SignsApart (e.droppedMessages h snap) sent := by
  unfold Engine.mineSystem at hm
  obtain ⟨_, t1, hinit, hm1⟩ := bind_run_ok hm
  obtain ⟨_, t2, hslash, hm2⟩ := bind_run_ok hm1
  obtain ⟨hinit, hc1⟩ := onSnd_run_ok hinit
  obtain ⟨hfees, -⟩ := onSnd_run_ok hm2
  obtain ⟨s1, p1, hrun1, hmir1⟩ := initFirst_mirrored ht hs hcb p
  have hp1 : t1 = (c, p1) := by
    rw [hrun1] at hinit
    cases hinit
    exact Prod.ext hc1 rfl
  rw [hp1] at hslash
  obtain ⟨s2, hmir2, hst2⟩ := mineSlash_mirrored ht hs hf href hnum hpar hcb hslash
  obtain ⟨s3, hmir3, hst3⟩ := distributeIncoming_mirrored ht hs hcb hfees
  refine ⟨s1 ++ (s2 ++ s3), ?_, ?_⟩
  · rw [hmir3.txs, hmir2.txs, hmir1.txs, append_assoc, append_assoc]
  · rintro v rest hv hrec ⟨rfl, hapart⟩
    rw [append_nil] at hrec
    have hmem23 : ∀ tx ∈ s2 ++ s3, tx ∈ s1 ++ (s2 ++ s3) := fun tx htx => mem_append_right _ htx
    have hmem3 : ∀ tx ∈ s3, tx ∈ s1 ++ (s2 ++ s3) := fun tx htx => hmem23 tx (mem_append_right _ htx)
    -- what follows the initialisation is a slash or hands out fees
    have hok1 : Foreign e (p1.state.world.nonce e.val) (e.initMessages h) (s2 ++ s3) := by
      refine (hst2.append hst3).foreign hs (fun tx htx m hm => hapart tx (hmem23 tx htx) m
        (mem_append_left _ hm)) fun m' hm' m hm => ?_
      rcases hm' with ⟨w, rfl⟩ | hm'
      · exact slash_ne_init hm
      · exact handsOut_ne_init hm' hm
    have hok2 : ∀ w, snap.supposeValidator = .ok w →
        Foreign e (t2.2.state.world.nonce e.val) [e.slashMessage h w] s3 := by
      intro w hw
      refine hst3.foreign hs (fun tx htx m hm => hapart tx (hmem3 tx htx) m ?_) fun m' hm' m hm => ?_
      · unfold Engine.droppedMessages
        rw [hw]
        exact mem_append_right _ hm
      · rw [mem_singleton.1 hm]
        exact handsOut_ne_slash hm'
    obtain ⟨v1, hv1, hag1, hrec1⟩ := hmir1.follow v (s2 ++ s3) hv hrec hok1
    obtain ⟨v2, hv2, hag2, hrec2⟩ := hmir2.follow v1 s3 hag1 hrec1 hok2
    obtain ⟨v3, hv3, hag3, hrec3⟩ := hmir3.follow v2 [] hag2 (by rw [hrec2, append_nil]) trivial
    exact ⟨v3, settle_ok_iff.2 ⟨v1, v2, hv1, hv2, hv3, hrec3⟩, hag3, hrec3⟩

end Block

/-- A header that `Prepare` made passes the check of epoch blocks on every node
whose contract gives the same answer, whatever its seal. -/
theorem prepared_passes_epoch_check {e' : Engine} {chain : ChainReader} {now now' : UInt64} {h₀ h' : Header} {c c' : Caches}
    (hp : e.prepare chain now now' h₀ c = .ok h c') (hconfig : e'.config = e.config)
    (hcontract : e'.getCurrentValidators = e.getCurrentValidators) (hpar : h'.parentHash = h.parentHash)
    (hnumber : h'.number = h.number) (hlen : h'.extra.length = h.extra.length)
    (hextra : h'.extra.take (h.extra.length - extraSeal) = h.extra.take (h.extra.length - extraSeal)) :
    e'.verifyEpochValidators h' = .ok () := by
  obtain ⟨_, _, _, -, -, hpre⟩ := prepare_ok hp
  obtain ⟨vals, hvals, hann⟩ := hpre.announced
  obtain ⟨k, hk, -⟩ := hpre.extra
  have hcut := congrArg (drop extraVanity) hextra
  rw [drop_take, drop_take, Nat.sub_right_comm, hann] at hcut
  unfold Engine.epochValidators Header.num at hvals
  unfold Engine.verifyEpochValidators Header.num
  rw [hconfig, hcontract, hpar, hnumber, hlen]
  split at hvals
  · next hepoch =>
    obtain ⟨newValidators, hnew, hsorted⟩ := bind_ok_iff.1 hvals
    cases hsorted
    rw [if_pos hepoch, hnew, ok_bind, failIf_of_not (by omega)]
    exact failIf_of_not (not_not.2 hcut)
  · next hepoch => exact if_neg hepoch

/-- With epochs of one block, block 1 announces the validator. -/
theorem first_epoch_passes_check : ∃ h, (h.num % 1 = 0 ∧ h.extra.length = extraVanity + 20 + extraSeal) ∧
    (smallEngine 1 (by decide) 1).verifyEpochValidators h = .ok () := by
  have hmade : returns (resultOf ((smallEngine 1 (by decide) 1).prepare (soloChain (noForks 1)) 10 10 soloTemplate
      Caches.empty)) (fun h => decide (h.num % 1 = 0 ∧ h.extra.length = extraVanity + 20 + extraSeal)) = true := by
    decide +kernel
  obtain ⟨h, hprep, hepoch⟩ := of_returns hmade
  exact ⟨h, of_decide_eq_true hepoch, prepared_passes_epoch_check (of_resultOf_ok hprep) rfl rfl rfl rfl rfl rfl⟩

/-- If a producer assembles a block, then `Finalize` on another node that stores
the same path, run on what the common transactions left and the system
transactions of the block, succeeds: it uses up these transactions and ends with
the same accounts, gas, and receipts up to the block hash. -/
theorem validator_follows_producer (e e' : Engine) (hr : e.SameRules e') (hs : e.SignsTx) (V V' : Env ω)
    (hm : V'.machine = V.machine) (parent : Header) (rest : List Header) (snap : Snapshot)
    (href : e.refSnapshot (parent :: rest) = .ok snap) (c c' : Caches) (hf : Follows e V.chain (parent :: rest) c)
    (hf' : Follows e' V'.chain (parent :: rest) c') (h h' : Header) (hsame : SameBlock h h')
    (hnum : h.num = parent.num + 1) (hpar : h.parentHash = e.hashOf parent) (hcb : h.coinbase = e.val)
    (hepoch : e'.verifyEpochValidators h' = .ok ()) (state state' : StateDB ω) (txs : List Transaction)
    (receipts receipts' : List Receipt) (block : Types.Block) (c1 : Caches)
    (hmade : e.finalizeAndAssemble V h state txs receipts c = .ok (block, receipts', state') c1) (v : Pending ω)
    (hv : Agree ⟨state, txs, receipts, [], h.gasUsed⟩ v) (hsys : block.transactions = txs ++ v.received)
    (hapart : e.SignsApart (e.droppedMessages h snap) v.received) :
    ∃ q c2, e'.finalize V' h' (c', v) = .ok () (c2, q) ∧ q.received = [] ∧ q.txs = block.transactions ∧
      q.receipts.map unplaced = receipts'.map unplaced ∧ q.usedGas = block.header.gasUsed ∧
      state'.world = V.machine.finalise (V.chain.config.isEIP158 h.number) q.state.world := by
  have ht := twins_of_follows hr hm hf hf' hsame hnum hpar
  have hdown : h.num - 1 = parent.num := by rw [hnum]; grind
  obtain ⟨t, hrun, htxs, hreceipts, hgas, hworld⟩ := finalizeAndAssemble_ok hmade
  obtain ⟨sent, hmir⟩ := mineSystem_mirrored ht hs hf href hdown hpar hcb hrun
  have hsent : v.received = sent := by
    have heq := hsys.symm.trans (htxs.trans hmir.txs)
    exact append_cancel_left heq
  obtain ⟨q, hq, hag, hrec⟩ := hmir.follow v [] hv (by rw [hsent, append_nil]) ⟨rfl, hsent ▸ hapart⟩
  obtain ⟨c2, -, hsnap, -⟩ := hf'.snapshot_twice (s := snap) (by rw [hr.refSnapshot]; exact href)
  rw [← hdown, ← ht.num, hr.hashOf, ← hpar, ← hsame.parentHash] at hsnap
  refine ⟨q, c2, ?_, hrec, ?_, ?_, ?_, ?_⟩
  · unfold Engine.finalize
    have hread : onFst (e'.snapshot V'.chain (h'.num - 1) h'.parentHash []) (c', v) = .ok snap (c2, v) := by
      unfold onFst
      rw [hsnap]
    rw [run_bind_of_ok hread, hepoch, run_bind_of_ok (lift_ok () (c2, v))]
    unfold onSnd
    rw [hq]
  · rw [hag.txs, htxs]
  · rw [hag.receipts, hreceipts]
  · rw [hag.usedGas, hgas]
  · rw [hworld, hag.state.world]

/-! ## The first block

Validator 1 of two makes it out of turn. The slash contract refuses every call,
so the initialisation stops there, and the slash fails. -/

def firstGenesis : Header := smallHeader 0 0 0 [1, 2] few_two
def firstEnv : Env Unit := ⟨smallMachine [slashContract], smallChain [1, 2] [] few_two⟩
def firstBlock : Header := firstHeader (firstGenesis.hash smallCrypto) 1

/-- Fees of 100 are waiting. -/
def feesState : StateDB Unit :=
  { smallState with world := smallState.world.setBalance systemAddress 100 }

def firstSystemTxs (e : Engine) : List Transaction :=
  [expectedTx 0 (getSystemMessage 1 validatorContract e.initData 0), expectedTx 1 (rewardMessage firstBlock 6),
    expectedTx 2 (e.depositMessage firstBlock 94 1)]

theorem first_block_followed : ∃ q c2, (smallEngine 200 (by decide) 2).finalize firstEnv firstBlock
        (Caches.empty, ⟨feesState, [], [], firstSystemTxs (smallEngine 200 (by decide) 1), 0⟩) = .ok () (c2, q) ∧
      q.received = [] := by
  let e := smallEngine 200 (by decide) 1
  let e' := smallEngine 200 (by decide) 2
  have hr : e.SameRules e' := ⟨rfl, rfl, rfl, rfl, sound_of_uncached fun _ => rfl, sound_of_uncached fun _ => rfl⟩
  have hs : e.SignsTx := by
    rintro tx tx' hsign
    cases hsign
    exact ⟨rfl, rfl, rfl, rfl, rfl, rfl⟩
  have href : returns (e.refSnapshot [firstGenesis]) (fun s => decide (e.SignsApart (e.droppedMessages firstBlock s)
      (firstSystemTxs e))) = true := by decide +kernel
  have hrun : returns (resultOf (e.finalizeAndAssemble firstEnv firstBlock feesState [] [] Caches.empty))
      (fun r => decide (r.1.transactions = firstSystemTxs e)) = true := by decide +kernel
  obtain ⟨snap, hsnap, hapart⟩ := of_returns href
  obtain ⟨⟨block, receipts, state⟩, hmade, htxs⟩ := of_returns hrun
  have hagree : Agree ⟨feesState, [], [], [], firstBlock.gasUsed⟩ ⟨feesState, [], [], firstSystemTxs e, 0⟩ :=
    ⟨⟨rfl, fun _ => rfl, rfl⟩, rfl, rfl, rfl⟩
  obtain ⟨q, c2, hq, hrec, -⟩ := validator_follows_producer e e' hr hs firstEnv firstEnv rfl firstGenesis [] snap hsnap
    Caches.empty Caches.empty (follows_genesis _ rfl) (follows_genesis _ rfl) firstBlock firstBlock
    ⟨rfl, rfl, rfl, rfl, rfl, rfl, rfl, rfl⟩ (by decide +kernel) (firstHeader_parentHash _ _) rfl
    (by decide +kernel) feesState state [] [] receipts block _ (of_resultOf_ok hmade) _ hagree (of_decide_eq_true htxs)
    (of_decide_eq_true hapart)
  exact ⟨q, c2, hq, hrec⟩

/-- The transactions a block adds, replayed on a node. -/
def replay (e : Engine) (block : Types.Block) : EStateM.Result Err (Caches × Pending Unit) Unit :=
  e.finalize firstEnv block.header (Caches.empty, ⟨feesState, [], [], block.transactions, 0⟩)

/-- The receipts the producer returns name the header before it was complete. And
nothing keeps it from assembling an epoch block that announces nobody, which
`Finalize` turns down. -/
theorem producer_and_validator_differ :
    (∃ block receipts state c1 t, (smallEngine 200 (by decide) 1).finalizeAndAssemble firstEnv firstBlock feesState [] []
        Caches.empty = .ok (block, receipts, state) c1 ∧
      replay (smallEngine 200 (by decide) 2) block = .ok () t ∧ t.2.receipts ≠ receipts) ∧
    ∃ block receipts state c1, (smallEngine 1 (by decide) 1).finalizeAndAssemble firstEnv firstBlock feesState [] []
        Caches.empty = .ok (block, receipts, state) c1 ∧
      resultOf (replay (smallEngine 1 (by decide) 1) block) = .error .errMismatchingEpochValidators := by
  have hplaced : returns (resultOf ((smallEngine 200 (by decide) 1).finalizeAndAssemble firstEnv firstBlock feesState [] []
      Caches.empty)) (fun r => decide (resultOf (replay (smallEngine 200 (by decide) 2) r.1) = .ok ()) &&
        decide ((stateOf (replay (smallEngine 200 (by decide) 2) r.1)).2.receipts ≠ r.2.1)) = true := by
    decide +kernel
  have hepoch : returns (resultOf ((smallEngine 1 (by decide) 1).finalizeAndAssemble firstEnv firstBlock feesState [] []
      Caches.empty)) (fun r => decide (resultOf (replay (smallEngine 1 (by decide) 1) r.1) =
        .error .errMismatchingEpochValidators)) = true := by
    decide +kernel
  obtain ⟨⟨block, receipts, state⟩, hmade, htest⟩ := of_returns hplaced
  obtain ⟨⟨block', receipts', state'⟩, hmade', htest'⟩ := of_returns hepoch
  obtain ⟨hrun, hne⟩ := Bool.and_eq_true_iff.1 htest
  exact ⟨⟨block, receipts, state, _, _, of_resultOf_ok hmade, of_resultOf_ok (of_decide_eq_true hrun),
    of_decide_eq_true hne⟩, block', receipts', state', _, of_resultOf_ok hmade', of_decide_eq_true htest'⟩

end TurboOctopus.Parlia
