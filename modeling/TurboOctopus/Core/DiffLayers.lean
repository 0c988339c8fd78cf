import TurboOctopus.Core.VerifyManager
import TurboOctopus.Rlp.Stream
import TurboOctopus.Types.Header
/-!
# Served diff layers

A diff layer is hashed without the storage roots of its accounts, and `CalculateDiffHash`
takes them out of the layer itself. What chain and stores say may change from call to call.
-/
namespace TurboOctopus.Core

open Lib Lib.Rlp Rlp TurboOctopus.Types List

def maxDiffForkDist : UInt64 := 11

def diffLayerCacheLimit : Nat := 1024

structure DiffAccount where
  account : Address
  blob : List UInt8

/-- What is only encoded is an item. -/
structure DiffLayer where
  blockHash : Hash
  number : UInt64
  receipts : Item
  codes : Item
  destructs : Item
  accounts : List DiffAccount
  storages : Item
  diffHash : Option Hash

def DiffLayer.encode (d : DiffLayer) : List UInt8 :=
  Item.encode (.list [.str d.blockHash.bytes, .nat d.number.toNat, d.receipts, d.codes, d.destructs,
    .list (d.accounts.map fun a => .list [.str a.account.bytes, .str a.blob]), d.storages])

structure DiffHeader where
  hash : Hash
  parentHash : Hash
  number : UInt64
  root : Hash
  txHash : Hash

/-- What a call finds. No bytes in the store are no layer. -/
structure DiffChain where
  keccak : List UInt8 → Hash
  emptyRoot : Hash
  emptyCode : Hash
  currentNumber : UInt64
  getHeaderByHash : Hash → Option DiffHeader
  getUnTrustedDiffLayer : Hash → Option DiffLayer
  readDiffLayerRLP : Hash → List UInt8
  /-- `rlp.Decode` of a layer. -/
  decode : List UInt8 → Option DiffLayer

namespace DiffChain

variable (bc : DiffChain)

def fullAccount (data : List UInt8) : Except DecodeError (UInt64 × Nat × List UInt8 × List UInt8) := do
  let (nonce, balance, root, codeHash, ()) ← decodeBytes
    (fun _ => decodeStruct (field (uint 64) <| field decodeBigInt <| field bytes <| field bytes <| noFields)) data
  return (nonce, balance, if root = [] then bc.emptyRoot.bytes else root,
    if codeHash = [] then bc.emptyCode.bytes else codeHash)

def slimAccountRLP (nonce : UInt64) (balance : Nat) (root : Hash) (codeHash : List UInt8) : List UInt8 :=
  Item.encode (.list [.nat nonce.toNat, .nat balance, .str (if root = bc.emptyRoot then [] else root.bytes),
    .str (if codeHash = bc.emptyCode.bytes then [] else codeHash)])

/-- The loop of `CalculateDiffHash`, with what it has written when it fails. -/
def zeroRoots : List DiffAccount → List DiffAccount × Option DecodeError
  | [] => ([], none)
  | a :: accounts =>
    match bc.fullAccount a.blob with
    | .error e => (a :: accounts, some e)
    | .ok (nonce, balance, _, codeHash) =>
      let (accounts, e) := zeroRoots accounts
      (⟨a.account, bc.slimAccountRLP nonce balance 0 codeHash⟩ :: accounts, e)

/-- Also the layer afterwards: the loop writes to the slice of its accounts. -/
def calculateDiffHash (d : DiffLayer) : Except DecodeError Hash × DiffLayer :=
  let (accounts, e) := bc.zeroRoots d.accounts
  let d := { d with accounts := accounts }
  (e.elim (.ok (bc.keccak { d with receipts := .list [] }.encode)) .error, d)

def readDiffLayer (hash : Hash) : Option DiffLayer :=
  if bc.readDiffLayerRLP hash = [] then none else bc.decode (bc.readDiffLayerRLP hash)

/-- The headers that `NewBlockVerifyTask` comes to, before the genesis block. -/
def ancestry : Nat → Option DiffHeader → List DiffHeader
  | n + 1, some header => if header.number = 0 then [] else header :: ancestry n (bc.getHeaderByHash header.parentHash)
  | _, _ => []

end DiffChain

/-! ## Calls -/

/-- `diffLayerCache` and `diffLayerRLPCache`. -/
structure DiffCaches where
  layers : Lru Hash DiffLayer diffLayerCacheLimit
  rlps : Lru Hash (List UInt8) 256

inductive DiffCall
  | getVerifyResult (number : UInt64) (hash diffHash : Hash)
  /-- Skipped are blocks that are verified or empty, have a task or have no channel. -/
  | newBlockVerifyTask (skips : Hash → Bool) (header : DiffHeader)
  | getTrustedDiffLayer (hash : Hash)
  | getDiffAccounts (hash : Hash)
  | getDiffLayerRLP (hash : Hash)

namespace DiffCaches

/-- The layer has been sorted. -/
def cacheDiffLayer (s : DiffCaches) (d : DiffLayer) : DiffCaches :=
  let layers := if diffLayerCacheLimit ≤ s.layers.entries.length then s.layers.removeOldest else s.layers
  { s with layers := layers.add d.blockHash d }

variable (bc : DiffChain) (hash : Hash) (s : DiffCaches)

/-- What is done with a trusted layer, or without one. A cached layer is changed where it is,
and was used last; one from the store is a copy. -/
def withLayer {α : Type} (f : DiffLayer → α × DiffLayer) (a : α) : α × DiffCaches :=
  match s.layers.peek hash with
  | some d => ((f d).1, { s with layers := s.layers.add hash (f d).2 })
  | none => ((bc.readDiffLayer hash).elim a fun d => (f d).1, s)

def getTrustedDiffLayer : Option DiffLayer × DiffCaches := s.withLayer bc hash (fun d => (some d, d)) none

def getDiffAccounts : Except String (List Address) × DiffCaches :=
  match bc.getHeaderByHash hash with
  | none => (.error "no block found", s)
  | some header =>
    s.withLayer bc hash (fun d =>
      (if header.txHash ≠ bc.emptyRoot ∧ d.accounts = [] then .error "no diff account in block, maybe bad diff layer"
        else .ok (d.accounts.map (·.account)), d))
      (if header.txHash ≠ bc.emptyRoot then .error "diff layer not found" else .ok [])

def getVerifyResult (number : UInt64) (diffHash : Hash) : VerifyResult Hash × DiffCaches :=
  let res (status : VerifyStatus) (root : Hash) : VerifyResult Hash := ⟨status, number, hash, root⟩
  if number > bc.currentNumber + maxDiffForkDist then (res .blockTooNew 0, s)
  else if number > bc.currentNumber then (res .blockNewer 0, s)
  else
    match bc.getHeaderByHash hash with
    | none => (res (if number > bc.currentNumber - maxDiffForkDist then .possibleFork else .impossibleFork) 0, s)
    | some header =>
      s.withLayer bc hash (fun d =>
        match d.diffHash.elim (bc.calculateDiffHash d) fun h => (.ok h, d) with
        | (.error _, d) => (res .unexpectedError 0, d)
        | (.ok h, d) =>
          (if diffHash ≠ h then res .diffHashMismatch 0 else res .fullVerified header.root, { d with diffHash := some h }))
        (res .partiallyVerified header.root)

/-- A turn of `NewBlockVerifyTask`. -/
def verifyTask (skips : Hash → Bool) (s : DiffCaches) (header : DiffHeader) : DiffCaches :=
  if skips header.hash then s else (s.withLayer bc header.hash (fun d => ((), (bc.calculateDiffHash d).2)) ()).2

def getDiffLayerRLP : List UInt8 × DiffCaches :=
  match s.rlps.peek hash, s.layers.peek hash with
  | some raw, _ => (raw, { s with rlps := s.rlps.add hash raw })
  | none, some d => (d.encode, ⟨s.layers.add hash d, s.rlps.add hash d.encode⟩)
  | none, none =>
    match bc.getUnTrustedDiffLayer hash, bc.readDiffLayerRLP hash with
    | some d, _ => (d.encode, s)
    | none, [] => ([], s)
    | none, raw => (raw, { s with rlps := s.rlps.add hash raw })

def call (s : DiffCaches) : DiffChain × DiffCall → DiffCaches
  | (bc, .getVerifyResult number hash diffHash) => (s.getVerifyResult bc hash number diffHash).2
  | (bc, .newBlockVerifyTask skips header) =>
    (bc.ancestry (maxForkHeight + 1) (some header)).foldl (verifyTask bc skips) s
  | (bc, .getTrustedDiffLayer hash) => (s.getTrustedDiffLayer bc hash).2
  | (bc, .getDiffAccounts hash) => (s.getDiffAccounts bc hash).2
  | (bc, .getDiffLayerRLP hash) => (s.getDiffLayerRLP bc hash).2

/-! ## What is served -/

/-- What the caches have for the block gives these bytes. -/
structure Serves (hash : Hash) (raw : List UInt8) (s : DiffCaches) : Prop where
  layers : s.layers.All fun k d => k = hash → d.encode = raw
  rlps : s.rlps.All fun k r => k = hash → r = raw

end DiffCaches

/-- No hash of the block's layer is computed, and the store has nothing else for the block. -/
def DiffCall.Spares (hash : Hash) (raw : List UInt8) : DiffChain × DiffCall → Prop
  | (_, .getVerifyResult _ k _) => k ≠ hash
  | (bc, .newBlockVerifyTask skips header) =>
    ∀ x ∈ bc.ancestry (maxForkHeight + 1) (some header), x.hash = hash → skips x.hash = true
  | (bc, .getDiffLayerRLP _) => bc.readDiffLayerRLP hash = [] ∨ bc.readDiffLayerRLP hash = raw
  | _ => True

namespace DiffCaches.Serves

variable {hash k : Hash} {raw : List UInt8} {s : DiffCaches} {bc : DiffChain}

lemma withLayer {α : Type} {f : DiffLayer → α × DiffLayer} {a : α} (h : s.Serves hash raw)
    (hf : k = hash → ∀ d, (f d).2.encode = d.encode) : (s.withLayer bc k f a).2.Serves hash raw := by
  unfold DiffCaches.withLayer
  split
  next heq => exact ⟨h.layers.add fun hk => (hf hk _).trans (h.layers k _ heq hk), h.rlps⟩
  · exact h

lemma call (h : s.Serves hash raw) {c : DiffChain × DiffCall} (hc : DiffCall.Spares hash raw c) :
    (s.call c).Serves hash raw := by
  obtain ⟨bc, ⟨number, k, diffHash⟩ | ⟨skips, header⟩ | k | k | k⟩ := c
  · simp only [DiffCaches.call, getVerifyResult]
    iterate 3
      split
      · exact h
    exact h.withLayer fun hk => absurd hk hc
  · refine foldlRecOn _ _ h fun s hs x hx => ?_
    unfold verifyTask
    split
    · exact hs
    next hnot => exact hs.withLayer fun hk => absurd (hc x hx hk) hnot
  · exact h.withLayer fun _ _ => rfl
  · simp only [DiffCaches.call, getDiffAccounts]
    split
    · exact h
    · exact h.withLayer fun _ _ => rfl
  · simp only [DiffCaches.call, getDiffLayerRLP]
    split
    next heq => exact ⟨h.layers, h.rlps.add (h.rlps k _ heq)⟩
    next heq => exact ⟨h.layers.add (h.layers k _ heq), h.rlps.add (h.layers k _ heq)⟩
    split
    · exact h
    · exact h
    next hne =>
      refine ⟨h.layers, h.rlps.add ?_⟩
      rintro rfl
      exact hc.resolve_left hne

lemma answer (h : s.Serves hash raw) (hin : s.rlps.contains hash = true ∨ s.layers.contains hash = true) :
    (s.getDiffLayerRLP bc hash).1 = raw := by
  unfold getDiffLayerRLP
  split
  next heq => exact h.rlps _ _ heq rfl
  next heq => exact h.layers _ _ heq rfl
  next hraw hlayer => simp [Lru.contains, hraw, hlayer] at hin

lemma cacheDiffLayer {d : DiffLayer} (h : ∀ r, s.rlps.peek d.blockHash = some r → r = d.encode) :
    (s.cacheDiffLayer d).Serves d.blockHash d.encode := by
  refine ⟨fun k x hx hk => ?_, fun k r hr hk => h r (hk ▸ hr)⟩
  rcases Lru.of_peek_add hx with ⟨-, rfl⟩ | ⟨hne, -⟩
  · rfl
  · exact absurd hk hne

end DiffCaches.Serves

/-- As long as no hash of it was computed, a layer is served as it was cached. -/
theorem served_as_cached {s : DiffCaches} {d : DiffLayer} {calls : List (DiffChain × DiffCall)}
    (hnew : ∀ r, s.rlps.peek d.blockHash = some r → r = d.encode)
    (hcalls : ∀ c ∈ calls, DiffCall.Spares d.blockHash d.encode c) {t : DiffCaches}
    (ht : calls.foldl DiffCaches.call (s.cacheDiffLayer d) = t)
    (hin : t.rlps.contains d.blockHash = true ∨ t.layers.contains d.blockHash = true) (bc : DiffChain) :
    (t.getDiffLayerRLP bc d.blockHash).1 = d.encode := by
  have hserves := foldlRecOn calls DiffCaches.call (DiffCaches.Serves.cacheDiffLayer hnew) fun _ hs c hc => hs.call (hcalls c hc)
  rw [ht] at hserves
  exact hserves.answer hin

/-- One known block. -/
def plainChain : DiffChain := ⟨fun _ => 0, 2, 3, 1, fun _ => some ⟨7, 0, 1, 5, 6⟩, fun _ => none, fun _ => [], fun _ => none⟩

/-- Its layer, with an account whose storage root is 1. -/
def plainLayer : DiffLayer :=
  ⟨7, 1, .list [], .list [], .list [], [⟨9, plainChain.slimAccountRLP 0 0 1 []⟩], .list [], none⟩

theorem served_as_cached_plain :
    ((((DiffCaches.cacheDiffLayer ⟨.empty, .empty⟩ plainLayer).call (plainChain, .getDiffAccounts 7)).call
      (plainChain, .getVerifyResult 1 8 0)).getDiffLayerRLP plainChain 7).1 = plainLayer.encode :=
  @served_as_cached ⟨.empty, .empty⟩ plainLayer [(plainChain, .getDiffAccounts 7), (plainChain, .getVerifyResult 1 8 0)]
    (by rintro r ⟨⟩) (by simp [DiffCall.Spares, plainLayer]) _ rfl (.inr (by decide +kernel)) plainChain

/-- The hash is computed for a request, and then the layer goes out without the root. -/
theorem hashed_layer_is_served :
    (((DiffCaches.cacheDiffLayer ⟨.empty, .empty⟩ plainLayer).call (plainChain, .getVerifyResult 1 7 0)).getDiffLayerRLP
      plainChain 7).1 ≠ plainLayer.encode := by
  decide +kernel

end TurboOctopus.Core
