import TurboOctopus.Lib.Maps
import TurboOctopus.Parlia.Basic
import TurboOctopus.Types.Block
/-!
# Blocks that come from a peer

A peer brings blocks in two ways. It sends a whole block, which `handleNewBlock`
checks and hands to the trader. Or it announces a hash; then the node asks for
the header and for the body under one request id, and `checkBlockComplete` puts
the block together when both have come.

A handler returns the peer as it leaves it, and the blocks it handed to
`FnTraderBlockProcess`, in order.
-/
namespace TurboOctopus.Eth

open Lib TurboOctopus.Types Finmap

structure BlockBody where
  transactions : List Transaction
  uncles : List Header
deriving DecidableEq

/-- What has come for a request so far. -/
structure RecvBlockInfo where
  blockHeader : List Header
  blockBody : List BlockBody
deriving DecidableEq

/-- The part of a peer that the handlers of blocks use. The keys of
`receiveBlocks` are request ids, which the program writes as decimal strings. -/
structure Peer where
  receiveBlocks : GoMap UInt64 RecvBlockInfo
  lastBlockNumber : UInt64
  totalRecvBlock : UInt64

def newPeer : Peer := ⟨∅, 0, 0⟩

/-- The node itself: its hash functions, and whether a trader listens, that is
whether `FnTraderBlockProcess` is set. -/
structure Node where
  crypto : Crypto
  deriveSha : List (List UInt8) → Hash
  trader : Bool

/-- `chain.HasBlock` at some moment. -/
abbrev HasBlock := Hash → UInt64 → Bool

/-! ## Asking for an announced block -/

/-- A message the node sends to the peer. -/
inductive Request
  | getBlockHeaders (id : UInt64) (origin : Hash) (amount skip : UInt64) (reverse : Bool)
  | getBlockBodies (id : UInt64) (hashes : List Hash)
deriving DecidableEq

def requestOneHeaderDirect (id : UInt64) (hash : Hash) : Request := .getBlockHeaders id hash 1 0 false

def requestOneBodyDirect (id : UInt64) (hash : Hash) : Request := .getBlockBodies id [hash]

section Ask
variable {ε : Type}

/-- What chance and the network decide about one `RequestBlocks`: the random id,
and the errors of the two sends. -/
structure Draw (ε : Type) where
  id : UInt64
  err1 : Option ε
  err2 : Option ε

/-- Both requests are sent even when the first send fails. The id is tracked
only after both went out. -/
def Peer.requestBlocks (p : Peer) (d : Draw ε) (blockHash : Hash) : Peer × List Request × Option ε :=
  let sent := [requestOneHeaderDirect d.id blockHash, requestOneBodyDirect d.id blockHash]
  match d.err1, d.err2 with
  | some e, _ => (p, sent, some e)
  | none, some e => (p, sent, some e)
  | none, none => ({ p with receiveBlocks := p.receiveBlocks.insert d.id ⟨[], []⟩ }, sent, none)

end Ask

/-! ## Putting a block together -/

section Handlers
variable (N : Node)

/-- `NewBlockWithHeader(header).WithBody(transactions, uncles)`. -/
def blockOf (header : Header) (body : BlockBody) : Block := ⟨header, body.transactions, body.uncles⟩

/-- One turn of the loop of `CheckBlockComplete`. -/
def Peer.takeBlock (p : Peer) (hasBlock : HasBlock) (id : UInt64) (header : Header) (body : BlockBody) :
    Peer × List Block :=
  let recvBlock := blockOf header body
  ({ p with
      receiveBlocks := p.receiveBlocks.erase id
      lastBlockNumber := header.num
      totalRecvBlock := p.totalRecvBlock + 1 },
    if !hasBlock (recvBlock.header.hash N.crypto) header.num && N.trader then [recvBlock] else [])

def Peer.takeBlocks (p : Peer) (hasBlock : HasBlock) (id : UInt64) : List (Header × BlockBody) → Peer × List Block
  | [] => (p, [])
  | (header, body) :: rest =>
    let (q, block) := p.takeBlock N hasBlock id header body
    let (r, blocks) := q.takeBlocks hasBlock id rest
    (r, block ++ blocks)

/-- The lists of headers and bodies are complete when they are equally long; two
empty lists are, and nothing comes of them. -/
def Peer.checkBlockComplete (p : Peer) (hasBlock : HasBlock) (id : UInt64) : Peer × List Block :=
  match p.receiveBlocks.lookup id with
  | none => (p, [])
  | some info =>
    if info.blockBody.length = info.blockHeader.length then
      p.takeBlocks N hasBlock id (info.blockHeader.zip info.blockBody)
    else (p, [])

/-- What a response carries. -/
inductive Part
  | header (blockHeaders : List Header)
  | body (blockBodies : List BlockBody)
deriving DecidableEq

/-- The field of the tracked entry that the response is written to, over what an
earlier response left there. -/
def Part.write : Part → RecvBlockInfo → RecvBlockInfo
  | .header blockHeaders, info => { info with blockHeader := blockHeaders }
  | .body blockBodies, info => { info with blockBody := blockBodies }

/-- What `ProcessBlockHeader` and `ProcessBlockBody` have in common. -/
def Peer.processPart (p : Peer) (hasBlock : HasBlock) (id : UInt64) (part : Part) : Peer × List Block :=
  match p.receiveBlocks.lookup id with
  | none => (p, [])
  | some info =>
    { p with receiveBlocks := p.receiveBlocks.insert id (part.write info) }.checkBlockComplete N hasBlock id

def Peer.processBlockHeader (p : Peer) (hasBlock : HasBlock) (id : UInt64) (blockHeaders : List Header) :
    Peer × List Block := p.processPart N hasBlock id (.header blockHeaders)

def Peer.processBlockBody (p : Peer) (hasBlock : HasBlock) (id : UInt64) (blockBodies : List BlockBody) :
    Peer × List Block := p.processPart N hasBlock id (.body blockBodies)

/-- A response whose id is not tracked goes to `dispatchResponse`: another part of
the node may wait for it, and if none does it is dropped. Nothing here changes. -/
def Peer.handleBlockHeaders66 (p : Peer) (hasBlock : HasBlock) (requestId : UInt64) (packet : List Header) :
    Peer × List Block :=
  if requestId ∈ p.receiveBlocks then p.processBlockHeader N hasBlock requestId packet else (p, [])

def Peer.handleBlockBodies66 (p : Peer) (hasBlock : HasBlock) (requestId : UInt64) (packet : List BlockBody) :
    Peer × List Block :=
  if requestId ∈ p.receiveBlocks then p.processBlockBody N hasBlock requestId packet else (p, [])

/-- The handler of a response, by what it carries. -/
def Peer.handleResponse (p : Peer) (hasBlock : HasBlock) (requestId : UInt64) : Part → Peer × List Block
  | .header packet => p.handleBlockHeaders66 N hasBlock requestId packet
  | .body packet => p.handleBlockBodies66 N hasBlock requestId packet

/-! ## A whole block -/

structure NewBlockPacket where
  block : Block
  td : Nat

def NewBlockPacket.sanityCheck (request : NewBlockPacket) : Except TooLarge Unit := do
  request.block.header.sanityCheck
  failIf (100 < bitLen request.td) (.td (bitLen request.td))

/-- The body is the one the header was made for. -/
def BodyMatches (header : Header) (body : BlockBody) : Prop :=
  calcUncleHash N.crypto body.uncles = header.uncleHash ∧
    N.deriveSha (body.transactions.map Transaction.encodeIndex) = header.txHash

instance (header : Header) (body : BlockBody) : Decidable (BodyMatches N header body) :=
  inferInstanceAs (Decidable (_ ∧ _))

/-- A block whose roots are wrong is dropped without an error. -/
def Peer.handleNewBlock (p : Peer) (ann : NewBlockPacket) : Except TooLarge (Peer × List Block) := do
  ann.sanityCheck
  if calcUncleHash N.crypto ann.block.uncles ≠ ann.block.header.uncleHash then
    return (p, [])
  else if N.deriveSha (ann.block.transactions.map Transaction.encodeIndex) ≠ ann.block.header.txHash then
    return (p, [])
  else
    return ({ p with lastBlockNumber := ann.block.header.num, totalRecvBlock := p.totalRecvBlock + 1 },
      if N.trader then [ann.block] else [])

end Handlers

/-! ## What the handlers leave and hand on -/

section Facts
variable {N : Node} {p : Peer} {hasBlock : HasBlock} {id : UInt64} {info : RecvBlockInfo} {part : Part}

open Peer

/-- The blocks of the loop are those of the pairs that the chain does not have. -/
lemma takeBlocks_blocks (p : Peer) (pairs : List (Header × BlockBody)) :
    (p.takeBlocks N hasBlock id pairs).2 =
      (pairs.map fun x => blockOf x.1 x.2).filter fun b =>
        !hasBlock (b.header.hash N.crypto) b.header.num && N.trader := by
  induction pairs generalizing p with
  | nil => rfl
  | cons x rest ih =>
    simp only [takeBlocks, ih, List.map_cons, List.filter_cons, takeBlock]
    have hx : (blockOf x.1 x.2).header = x.1 := rfl
    by_cases hk : (!hasBlock (x.1.hash N.crypto) x.1.num && N.trader) = true
    · simp [hx, hk]
    · simp [hx, hk]

/-- The first turn of the loop ends the tracking of the id. -/
lemma lookup_takeBlocks (p : Peer) (pairs : List (Header × BlockBody)) (i : UInt64) :
    (p.takeBlocks N hasBlock id pairs).1.receiveBlocks.lookup i =
      if i = id ∧ pairs ≠ [] then none else p.receiveBlocks.lookup i := by
  induction pairs generalizing p with
  | nil => simp [takeBlocks]
  | cons x rest ih =>
    simp only [takeBlocks, ih, takeBlock]
    by_cases hi : i = id
    · subst hi
      simp [lookup_erase]
    · simp [hi, lookup_erase_ne hi]

lemma handleResponse_untracked (h : p.receiveBlocks.lookup id = none) (part : Part) :
    p.handleResponse N hasBlock id part = (p, []) := by
  have hm : id ∉ p.receiveBlocks := lookup_eq_none.1 h
  cases part <;> simp [handleResponse, handleBlockHeaders66, handleBlockBodies66, hm]

/-- A response with a tracked id is written down, and then the entry is checked. -/
lemma handleResponse_tracked (h : p.receiveBlocks.lookup id = some info) (part : Part) :
    p.handleResponse N hasBlock id part =
      let q : Peer := { p with receiveBlocks := p.receiveBlocks.insert id (part.write info) }
      if (part.write info).blockBody.length = (part.write info).blockHeader.length then
        q.takeBlocks N hasBlock id ((part.write info).blockHeader.zip (part.write info).blockBody)
      else (q, []) := by
  have hm : id ∈ p.receiveBlocks := mem_iff.2 ⟨info, h⟩
  cases part <;>
    simp [handleResponse, handleBlockHeaders66, handleBlockBodies66, processBlockHeader,
      processBlockBody, hm, processPart, h, checkBlockComplete, lookup_insert]

/-- A response that leaves the entry without one of its parts waits there. -/
lemma handleResponse_waits (h : p.receiveBlocks.lookup id = some info)
    (hl : (part.write info).blockBody.length ≠ (part.write info).blockHeader.length) :
    p.handleResponse N hasBlock id part =
      ({ p with receiveBlocks := p.receiveBlocks.insert id (part.write info) }, []) := by
  simp only [handleResponse_tracked h, if_neg hl]

lemma handleResponse_completes {header : Header} {body : BlockBody} (h : p.receiveBlocks.lookup id = some info)
    (hw : part.write info = ⟨[header], [body]⟩) (ht : N.trader = true)
    (hnew : hasBlock (header.hash N.crypto) header.num = false) :
    (p.handleResponse N hasBlock id part).2 = [blockOf header body] := by
  simp [handleResponse_tracked h, hw, takeBlocks_blocks, blockOf, hnew, ht]

/-- Every block that a response hands on is made of a header and a body of the
entry it was written to. -/
lemma of_mem_handleResponse {block : Block} (h : block ∈ (p.handleResponse N hasBlock id part).2) :
    ∃ info, p.receiveBlocks.lookup id = some info ∧
      ∃ header ∈ (part.write info).blockHeader, ∃ body ∈ (part.write info).blockBody, block = blockOf header body := by
  cases hl : p.receiveBlocks.lookup id with
  | none =>
    rw [handleResponse_untracked hl] at h
    cases h
  | some info =>
    rw [handleResponse_tracked hl] at h
    split at h
    · rw [takeBlocks_blocks, List.mem_filter, List.mem_map] at h
      obtain ⟨⟨⟨header, body⟩, hx, rfl⟩, -⟩ := h
      obtain ⟨hh, hb⟩ := List.of_mem_zip hx
      exact ⟨info, rfl, header, hh, body, hb, rfl⟩
    · cases h

/-- What is tracked after a response was tracked before, or is the entry the
response was written to. -/
lemma of_lookup_handleResponse {i : UInt64} {left : RecvBlockInfo}
    (h : (p.handleResponse N hasBlock id part).1.receiveBlocks.lookup i = some left) : p.receiveBlocks.lookup i =
      some left ∨ ∃ info, i = id ∧ p.receiveBlocks.lookup id = some info ∧ left = part.write info := by
  cases hl : p.receiveBlocks.lookup id with
  | none =>
    rw [handleResponse_untracked hl] at h
    exact .inl h
  | some info =>
    have hins : ∀ {j}, (p.receiveBlocks.insert id (part.write info)).lookup j = some left →
        p.receiveBlocks.lookup j = some left ∨
          ∃ info', j = id ∧ some info = some info' ∧ left = part.write info' := by
      intro j hj
      rcases lookup_insert_iff.1 hj with ⟨hji, hv⟩ | ⟨-, hv⟩
      · exact .inr ⟨info, hji, rfl, hv⟩
      · exact .inl hv
    rw [handleResponse_tracked hl] at h
    split at h
    · rw [lookup_takeBlocks] at h
      split at h
      · cases h
      · exact hins h
    · exact hins h

lemma of_mem_handleNewBlock {ann : NewBlockPacket} {q : Peer} {blocks : List Block}
    (h : p.handleNewBlock N ann = .ok (q, blocks)) : q.receiveBlocks = p.receiveBlocks ∧ ∀ block ∈ blocks, block =
      ann.block ∧ BodyMatches N block.header ⟨block.transactions, block.uncles⟩ := by
  unfold handleNewBlock at h
  obtain ⟨-, -, hbody⟩ := bind_ok_iff.1 h
  split at hbody
  · cases hbody
    exact ⟨rfl, by simp⟩
  · split at hbody
    · cases hbody
      exact ⟨rfl, by simp⟩
    · rename_i hu ht
      cases hbody
      refine ⟨rfl, fun block hb => ?_⟩
      split at hb
      · rw [List.mem_singleton] at hb
        subst hb
        exact ⟨rfl, not_not.1 hu, not_not.1 ht⟩
      · cases hb

end Facts

/-- A node with a trader and hashes that can be evaluated. -/
def smallNode : Node where
  crypto := Parlia.smallCrypto
  deriveSha items := Parlia.smallCrypto.keccak256 items.flatten
  trader := true

end TurboOctopus.Eth
