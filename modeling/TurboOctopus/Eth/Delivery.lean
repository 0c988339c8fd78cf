import TurboOctopus.Lib.Runs
import TurboOctopus.Eth.Peer
/-!
# Which blocks reach the trader

The node with all its peers, in any order of messages. A block that a peer sends
whole is handed on only with the body its header was made for. A block that was
asked for is handed on whatever the peer answered (`any_answer_delivered`): the
header is not compared with the hash, nor the body with the header. It is the
block asked for when the peers answer what they were asked
(`deliveries_consistent`).
-/
namespace TurboOctopus.Eth

open Lib TurboOctopus.Types List Function

variable {κ ε : Type} [DecidableEq κ]

/-- How a block came, the `flag` of `FnTraderBlockProcess`: 0 for a block that was
asked for, here with its hash, and 1 for one that was sent whole. -/
inductive Route
  | requested (asked : Option Hash)
  | broadcast
deriving DecidableEq

structure Delivered (κ : Type) where
  peer : κ
  block : Block
  route : Route
deriving DecidableEq

/-- The peers by their ids. `asked` remembers which hash a tracked request id was
drawn for, and `log` what was handed to the trader; no handler reads them. -/
structure Sys (κ : Type) where
  peers : κ → Peer
  asked : κ → UInt64 → Option Hash
  log : List (Delivered κ)

def Sys.init : Sys κ := ⟨fun _ => newPeer, fun _ _ => none, []⟩

/-- What can happen to a peer. An announcement is a sequence of requests. -/
inductive Event (κ ε : Type)
  | connect (peer : κ)
  | request (peer : κ) (draw : Draw ε) (hash : Hash)
  | newBlock (peer : κ) (ann : NewBlockPacket)
  | response (peer : κ) (hasBlock : HasBlock) (id : UInt64) (part : Part)

/-- The request is tracked: both sends succeeded. -/
def Draw.tracked (d : Draw ε) : Bool := d.err1.isNone && d.err2.isNone

def Sys.setPeer (s : Sys κ) (k : κ) (p : Peer) : Sys κ := { s with peers := Function.update s.peers k p }

def Sys.deliver (s : Sys κ) (k : κ) (route : Route) (blocks : List Block) : Sys κ :=
  { s with log := s.log ++ blocks.map fun b => ⟨k, b, route⟩ }

variable (N : Node)

@[grind =] def Sys.step (s : Sys κ) : Event κ ε → Sys κ
  | .connect k => s.setPeer k newPeer
  | .request k d hash =>
    let t := s.setPeer k ((s.peers k).requestBlocks d hash).1
    if d.tracked then { t with asked := Function.update s.asked k (Function.update (s.asked k) d.id (some hash)) } else t
  | .newBlock k ann =>
    match (s.peers k).handleNewBlock N ann with
    | .ok (p, blocks) => (s.setPeer k p).deliver k .broadcast blocks
    | .error _ => s
  | .response k hasBlock id part =>
    let r := (s.peers k).handleResponse N hasBlock id part
    (s.setPeer k r.1).deliver k (.requested (s.asked k id)) r.2

/-- One event, as a step of `Run`. -/
def Steps (s : Sys κ) (e : Event κ ε) (t : Sys κ) : Prop := t = s.step N e

/-! ## Consistent deliveries -/

/-- The body of the block is the one its header was made for, and a block that
was asked for has the hash it was asked by. -/
def Consistent (d : Delivered κ) : Prop :=
  BodyMatches N d.block.header ⟨d.block.transactions, d.block.uncles⟩ ∧
    ∀ asked, d.route = .requested asked → asked = some (d.block.header.hash N.crypto)

/-- The response to a request for the hash has only the header, or only bodies of
the header. -/
def Part.Answers (asked : Hash) (header : Header) : Part → Prop
  | .header blockHeaders => ∀ h ∈ blockHeaders, h = header ∧ h.hash N.crypto = asked
  | .body blockBodies => ∀ b ∈ blockBodies, BodyMatches N header b

/-- The responses of the peer `k` to tracked requests are answers, about the header
that `headerOf` gives for the hash. Nothing is asked of its other messages, nor
of the other peers. -/
def Honest (headerOf : Hash → Header) (k : κ) (s : Sys κ) : Event κ ε → Prop
  | .response k' _ id part => k' = k → ∀ asked, id ∈ (s.peers k).receiveBlocks → s.asked k id = some asked →
      part.Answers N asked (headerOf asked)
  | .connect _ | .request _ _ _ | .newBlock _ _ => True

/-- A step at which the peer is honest. -/
def HonestStep (headerOf : Hash → Header) (k : κ) (s : Sys κ) (e : Event κ ε) (t : Sys κ) : Prop :=
  Honest N headerOf k s e ∧ Steps N s e t

/-- What a tracked entry holds answers the request it is tracked for. -/
def Answered (headerOf : Hash → Header) (asked : Hash) (info : RecvBlockInfo) : Prop :=
  (∀ h ∈ info.blockHeader, h = headerOf asked ∧ h.hash N.crypto = asked) ∧
    ∀ b ∈ info.blockBody, BodyMatches N (headerOf asked) b

/-- Kept while the peer `k` is honest. -/
structure Inv (headerOf : Hash → Header) (k : κ) (s : Sys κ) : Prop where
  entry : ∀ id info, (s.peers k).receiveBlocks.lookup id = some info →
    ∃ asked, s.asked k id = some asked ∧ Answered N headerOf asked info
  log : ∀ d ∈ s.log, d.peer = k → Consistent N d

def Event.peer : Event κ ε → κ
  | .connect k | .request k _ _ | .newBlock k _ | .response k _ _ _ => k

section Steps
variable {N} {headerOf : Hash → Header} {s t : Sys κ} {k : κ}

/-- What an event of one peer leaves alone, and what it can put into the log. -/
lemma step_frame (s : Sys κ) (e : Event κ ε) (hk : e.peer ≠ k) : (s.step N e).peers k = s.peers k ∧
      (s.step N e).asked k = s.asked k ∧ ∀ d ∈ (s.step N e).log, d ∈ s.log ∨ d.peer ≠ k := by
  have hset : ∀ p, (s.setPeer e.peer p).peers k = s.peers k := fun p => update_of_ne hk.symm ..
  have hnew : ∀ (r : Sys κ) route blocks, r.log = s.log →
      ∀ d ∈ (r.deliver e.peer route blocks).log, d ∈ s.log ∨ d.peer ≠ k := by
    intro r route blocks hr
    exact forall_mem_append.2 ⟨fun d hd => .inl (hr ▸ hd), forall_mem_map.2 fun _ _ => .inr hk⟩
  cases e with
  | connect k' => exact ⟨hset _, rfl, fun d hd => .inl hd⟩
  | request k' d hash =>
    simp only [Sys.step]
    split
    · exact ⟨hset _, update_of_ne hk.symm .., fun d hd => .inl hd⟩
    · exact ⟨hset _, rfl, fun d hd => .inl hd⟩
  | newBlock k' ann =>
    simp only [Sys.step]
    split
    · exact ⟨hset _, rfl, hnew _ _ _ rfl⟩
    · exact ⟨rfl, rfl, fun d hd => .inl hd⟩
  | response k' hasBlock id part => exact ⟨hset _, rfl, hnew _ _ _ rfl⟩

variable {asked : Hash} {e : Event κ ε} {info : RecvBlockInfo} {part : Part}

lemma Answered.write (h : Answered N headerOf asked info)
    (hp : part.Answers N asked (headerOf asked)) : Answered N headerOf asked (part.write info) := by
  cases part with
  | header blockHeaders => exact ⟨hp, h.2⟩
  | body blockBodies => exact ⟨h.1, hp⟩

omit [DecidableEq κ] in
/-- A block of an answered entry is the one that was asked for. -/
lemma Answered.consistent {header : Header} {body : BlockBody}
    (h : Answered N headerOf asked info) (hh : header ∈ info.blockHeader) (hb : body ∈ info.blockBody) :
    Consistent N ⟨k, blockOf header body, .requested (some asked)⟩ := by
  obtain ⟨rfl, hhash⟩ := h.1 header hh
  refine ⟨h.2 body hb, fun a ha => ?_⟩
  cases ha
  exact congrArg some hhash.symm

/-- A new value of the peer keeps the invariant when its entries are answered. -/
lemma Inv.setPeer (h : Inv N headerOf k s) (p : Peer)
    (hp : ∀ id info, p.receiveBlocks.lookup id = some info →
      ∃ asked, s.asked k id = some asked ∧ Answered N headerOf asked info) :
    Inv N headerOf k (s.setPeer k p) := by
  refine ⟨fun id info hl => ?_, h.log⟩
  simp only [Sys.setPeer, update_self] at hl
  exact hp id info hl

omit [DecidableEq κ] in
lemma Inv.deliver (h : Inv N headerOf k s) {route : Route} {blocks : List Block}
    (hb : ∀ b ∈ blocks, Consistent N (⟨k, b, route⟩ : Delivered κ)) : Inv N headerOf k (s.deliver k route blocks) :=
  ⟨h.entry, forall_mem_append.2 ⟨h.log, forall_mem_map.2 fun b hm _ => hb b hm⟩⟩

section
variable (h : Inv N headerOf k s)
include h

/-- The entry of a new request is empty, and the others keep their hashes. -/
lemma Inv.request (d : Draw ε) (hash : Hash) :
    Inv N headerOf k (s.step N (.request k d hash)) := by
  obtain ⟨id, err1, err2⟩ := d
  have hsame : Inv N headerOf k (s.setPeer k (s.peers k)) := h.setPeer _ h.entry
  cases err1 with
  | some e => exact hsame
  | none =>
    cases err2 with
    | some e => exact hsame
    | none =>
      refine ⟨fun i info hl => ?_, h.log⟩
      simp only [Sys.step, Draw.tracked, Sys.setPeer, Peer.requestBlocks, Option.isNone_none, Bool.and_self,
        if_true, update_self] at hl ⊢
      rcases lookup_insert_iff.1 hl with ⟨rfl, rfl⟩ | ⟨hi, hl⟩
      · exact ⟨hash, update_self .., by simp [Answered]⟩
      · rw [update_of_ne hi]
        exact h.entry i info hl

lemma Inv.newBlock (ann : NewBlockPacket) :
    Inv N headerOf k (s.step N (.newBlock k ann : Event κ ε)) := by
  simp only [Sys.step]
  split
  · rename_i p blocks hn
    obtain ⟨hrecv, hblocks⟩ := of_mem_handleNewBlock hn
    refine (h.setPeer p fun id info hl => h.entry id info (hrecv ▸ hl)).deliver fun b hb => ?_
    exact ⟨(hblocks b hb).2, fun a ha => nomatch ha⟩
  · exact h

/-- A response is written to the entry of its id only, and the blocks it
completes are made of what that entry holds. -/
lemma Inv.response {hasBlock : HasBlock} {id : UInt64}
    (hon : Honest N headerOf k s (.response k hasBlock id part : Event κ ε)) :
    Inv N headerOf k (s.step N (.response k hasBlock id part : Event κ ε)) := by
  have hwrite : ∀ info, (s.peers k).receiveBlocks.lookup id = some info →
      ∃ asked, s.asked k id = some asked ∧ Answered N headerOf asked (part.write info) := by
    intro info hl
    obtain ⟨asked, ha, hinfo⟩ := h.entry id info hl
    exact ⟨asked, ha, hinfo.write (hon rfl asked (Finmap.mem_iff.2 ⟨info, hl⟩) ha)⟩
  refine (h.setPeer _ fun i left hl => ?_).deliver fun b hb => ?_
  · rcases of_lookup_handleResponse hl with hold | ⟨info, rfl, hold, rfl⟩
    · exact h.entry i left hold
    · exact hwrite info hold
  · obtain ⟨info, hl, header, hh, body, hbody, rfl⟩ := of_mem_handleResponse hb
    obtain ⟨asked, ha, hinfo⟩ := hwrite info hl
    rw [ha]
    exact hinfo.consistent hh hbody

lemma Inv.step (hs : HonestStep N headerOf k s e t) : Inv N headerOf k t := by
  obtain ⟨hon, rfl⟩ := hs
  by_cases hk : e.peer = k
  · subst hk
    cases e with
    | connect k => exact h.setPeer newPeer fun id info hl => by simp [newPeer] at hl
    | request k d hash => exact h.request d hash
    | newBlock k ann => exact h.newBlock ann
    | response k hasBlock id part => exact h.response hon
  · obtain ⟨hp, ha, hlog⟩ := step_frame (N := N) s e hk
    refine ⟨fun id info hl => ?_, fun d hd hdk => ?_⟩
    · rw [ha]
      exact h.entry id info (hp ▸ hl)
    · rcases hlog d hd with hd | hd
      · exact h.log d hd hdk
      · exact absurd hdk hd

end

/-- Blocks that are sent whole are consistent, whatever the peers do. -/
lemma broadcast_step (h : ∀ d ∈ s.log, d.route = .broadcast → Consistent N d)
    (hs : Steps N s e t) : ∀ d ∈ t.log, d.route = .broadcast → Consistent N d := by
  subst hs
  cases e with
  | connect k => exact h
  | request k d hash =>
    simp only [Sys.step]
    split <;> exact h
  | newBlock k ann =>
    simp only [Sys.step]
    split
    · rename_i p blocks hn
      refine forall_mem_append.2 ⟨h, forall_mem_map.2 fun b hm _ => ?_⟩
      exact ⟨((of_mem_handleNewBlock hn).2 b hm).2, fun a ha => nomatch ha⟩
    · exact h
  | response k hasBlock id part => exact forall_mem_append.2 ⟨h, forall_mem_map.2 fun b _ hr => by cases hr⟩

end Steps

/-! ## Nothing is checked on the way of a request -/

/-- A request for the hash and a response of each kind, with one header and one body. -/
def exchange (k : κ) (id : UInt64) (hash : Hash) (hasBlock : HasBlock) (header : Header) (body : BlockBody) :
    List (Event κ Unit) :=
  [.request k ⟨id, none, none⟩ hash, .response k hasBlock id (.header [header]), .response k hasBlock id (.body [body])]

/-- Whatever header and body a peer answers with, their block is handed on as the
one that was asked for. -/
lemma any_answer_delivered {N : Node} (ht : N.trader = true) (s : Sys κ) (k : κ) (id : UInt64) (hash : Hash)
    (hasBlock : HasBlock) (header : Header) (body : BlockBody)
    (hnew : hasBlock (header.hash N.crypto) header.num = false) :
    ((exchange k id hash hasBlock header body).foldl (Sys.step N) s).log =
      s.log ++ [⟨k, blockOf header body, .requested (some hash)⟩] := by
  let s1 := s.step N (.request k (⟨id, none, none⟩ : Draw Unit) hash)
  let s2 := s1.step N (.response k hasBlock id (.header [header]) : Event κ Unit)
  have h1 : (s1.peers k).receiveBlocks.lookup id = some ⟨[], []⟩ := by
    simp [s1, Sys.step, Draw.tracked, Sys.setPeer, Peer.requestBlocks, Finmap.lookup_insert]
  have ha : s1.asked k id = some hash := by simp [s1, Sys.step, Draw.tracked]
  have hlog1 : s1.log = s.log := by simp [s1, Sys.step, Draw.tracked, Sys.setPeer]
  have hwait : (s1.peers k).handleResponse N hasBlock id (.header [header]) = _ :=
    handleResponse_waits h1 (by simp [Part.write])
  have h2 : (s2.peers k).receiveBlocks.lookup id = some ⟨[header], []⟩ := by
    simp [s2, Sys.step, hwait, Sys.setPeer, Sys.deliver, Part.write, Finmap.lookup_insert]
  have hlog : s2.log = s.log := by simp [s2, Sys.step, hwait, Sys.deliver, Sys.setPeer, hlog1]
  have hdone : ((s2.peers k).handleResponse N hasBlock id (.body [body])).2 = _ :=
    handleResponse_completes h2 rfl ht hnew
  have hasked : s2.asked k id = some hash := ha
  calc (s2.step N (.response k hasBlock id (.body [body]) : Event κ Unit)).log
      = s2.log ++ [⟨k, blockOf header body, .requested (s2.asked k id)⟩] := by
        simp [Sys.step, Sys.setPeer, Sys.deliver, hdone]
    _ = s.log ++ [⟨k, blockOf header body, .requested (some hash)⟩] := by rw [hlog, hasked]

/-! ## Over whole runs -/

/-- In every run, the blocks that are sent whole are consistent; and every block
that came from a peer is, in a run in which that peer is honest. -/
theorem deliveries_consistent (headerOf : Hash → Header) (es : List (Event κ ε)) (s : Sys κ)
    (hrun : Run (Steps N) Sys.init es s) :
    (∀ d ∈ s.log, d.route = .broadcast → Consistent N d) ∧
      ∀ k, Run (HonestStep N headerOf k) Sys.init es s → ∀ d ∈ s.log, d.peer = k → Consistent N d := by
  constructor
  · exact hrun.inv (fun s => ∀ d ∈ s.log, d.route = .broadcast → Consistent N d) (by simp [Sys.init])
      fun s e t h hs => broadcast_step h hs
  · intro k hhonest
    have hinit : Inv N headerOf k (Sys.init : Sys κ) :=
      ⟨fun id info hl => by simp [Sys.init, newPeer] at hl, by simp [Sys.init]⟩
    exact (hhonest.inv (Inv N headerOf k) hinit fun s e t h hs => h.step hs).log

/-- Block 1, with no transactions. -/
def askedHeader : Header := Parlia.smallHeader 0 1 1 [] Parlia.few_none

lemma askedHeader_bodyMatches : BodyMatches smallNode askedHeader ⟨[], []⟩ := ⟨rfl, by decide +kernel⟩

/-- A peer is asked for block 1 and answers with it. -/
theorem asked_block_delivered : ∃ (es : List (Event Nat Unit)) (s : Sys Nat),
    Run (Steps smallNode) Sys.init es s ∧
      s.log = [⟨0, blockOf askedHeader ⟨[], []⟩, .requested (some (askedHeader.hash smallNode.crypto))⟩] ∧
      ∀ d ∈ s.log, d.peer = 0 → Consistent smallNode d := by
  let es := exchange 0 7 (askedHeader.hash smallNode.crypto) (fun _ _ => false) askedHeader ⟨[], []⟩
  have hlog := any_answer_delivered (N := smallNode) rfl Sys.init 0 7 (askedHeader.hash smallNode.crypto)
    (fun _ _ => false) askedHeader ⟨[], []⟩ rfl
  have hrun : Run (Steps smallNode) Sys.init es (es.foldl (Sys.step smallNode) Sys.init) := .of_fun _ _ _
  refine ⟨es, _, hrun, hlog, (deliveries_consistent smallNode (fun _ => askedHeader) es _ hrun).2 0 ?_⟩
  refine .cons ⟨trivial, rfl⟩ (.cons ⟨fun _ asked _ ha => ?_, rfl⟩ (.cons ⟨fun _ asked _ _ => ?_, rfl⟩ (.nil _)))
  · have hasked : asked = askedHeader.hash smallNode.crypto := by simpa [Sys.step, Draw.tracked] using ha.symm
    simp [Part.Answers, hasked]
  · simp [Part.Answers, askedHeader_bodyMatches]

/-- A header that was not asked for, with a root that is not the one of its body. -/
def otherHeader : Header := { Parlia.smallHeader 0 1 2 [] Parlia.few_none with txHash := 1 }

/-- A peer is asked for block 1 and answers with another header, and with a body
of none. The trader gets their block. -/
theorem unasked_block_delivered : ∃ (es : List (Event Nat Unit)) (s : Sys Nat) (d : Delivered Nat),
    Run (Steps smallNode) Sys.init es s ∧ d ∈ s.log ∧ d.route = .requested (some (askedHeader.hash smallNode.crypto)) ∧
      d.block.header.hash smallNode.crypto ≠ askedHeader.hash smallNode.crypto ∧
      ¬ BodyMatches smallNode d.block.header ⟨d.block.transactions, d.block.uncles⟩ := by
  let es := exchange 0 7 (askedHeader.hash smallNode.crypto) (fun _ _ => false) otherHeader ⟨[], []⟩
  have hlog := any_answer_delivered (N := smallNode) rfl Sys.init 0 7 (askedHeader.hash smallNode.crypto)
    (fun _ _ => false) otherHeader ⟨[], []⟩ rfl
  refine ⟨es, _, ⟨0, blockOf otherHeader ⟨[], []⟩, .requested (some (askedHeader.hash smallNode.crypto))⟩,
    .of_fun _ _ _, ?_, rfl, ?_, ?_⟩
  · rw [hlog]
    exact mem_append_right _ (mem_singleton_self _)
  · decide +kernel
  · decide +kernel

end TurboOctopus.Eth
