import TurboOctopus.Core.ForkId
import TurboOctopus.Parlia.Snapshot
/-!
# The engine's operations on headers

How the engine finds the snapshot of a block, what it checks of a header, and
how it makes one of its own. The snapshots it has at hand are a state that
every operation may extend, also one that fails later on.
-/
namespace TurboOctopus.Parlia

open Lib TurboOctopus.Types Params

/-- The snapshots kept in memory and on disk. -/
structure Caches where
  recentSnaps : Hash → Option Snapshot
  db : Hash → Option Snapshot

abbrev EngineM := EStateM Err Caches

def Caches.empty : Caches := ⟨fun _ => none, fun _ => none⟩

def Caches.add (c : Caches) (s : Snapshot) : Caches :=
  { c with recentSnaps := Function.update c.recentSnaps s.hash (some s) }

def Caches.store (c : Caches) (s : Snapshot) : Caches :=
  { c with db := Function.update c.db s.hash (some s) }

lemma add_recentSnaps (c : Caches) (s : Snapshot) (b : Hash) :
    (c.add s).recentSnaps b = if b = s.hash then some s else c.recentSnaps b :=
  Function.update_apply c.recentSnaps s.hash (some s) b

lemma store_db (c : Caches) (s : Snapshot) (b : Hash) : (c.store s).db b = if b = s.hash then some s else c.db b :=
  Function.update_apply c.db s.hash (some s) b

/-- Keep a snapshot that was reached over `headers`: in memory, and on disk if
it is a new one at a checkpoint. -/
def Caches.keep (c : Caches) (s : Snapshot) (headers : List Header) : Caches :=
  if s.number % UInt64.ofNat checkpointInterval = 0 ∧ headers ≠ [] then (c.add s).store s else c.add s

/-- The disk is asked only at every `checkpointInterval`-th block. -/
def Caches.loadSnapshot (c : Caches) (number : UInt64) (hash : Hash) : Option Snapshot :=
  if number % UInt64.ofNat checkpointInterval = 0 then c.db hash else none

/-! ## Snapshots -/

/-- A snapshot to start from: in memory, on disk, or that of the genesis. -/
def Engine.findBase (e : Engine) (chain : ChainReader) (number : UInt64) (hash : Hash) :
    EngineM (Option Snapshot) := fun c =>
  match c.recentSnaps hash with
  | some s => .ok (some s) c
  | none =>
    match c.loadSnapshot number hash with
    | some s => .ok (some s) c
    | none =>
      if number = 0 then
        match chain.getHeaderByNumber number with
        | some checkpoint =>
          match extraValidators checkpoint with
          | .ok validators =>
            let snap := newSnapshot number (e.hashOf checkpoint) validators
            .ok (some snap) (c.store snap)
          | .error err => .error err c
        | none => .ok none c
      else .ok none c

/-- The header of a block, from the end of the explicit parents if there are
any, else from the chain; and the parents left. -/
def Engine.takeHeader (e : Engine) (chain : ChainReader) (number : UInt64) (hash : Hash) (parents : List Header) :
    Except Err (Header × List Header) :=
  match parents.getLast? with
  | some header => do
    failIf (e.hashOf header ≠ hash ∨ header.num ≠ number) .errUnknownAncestor
    .ok (header, parents.dropLast)
  | none =>
    match chain.getHeader hash number with
    | some header => .ok (header, [])
    | none => .error .errUnknownAncestor

/-- The loop of `snapshot`: walk back to a block with a snapshot. Returns it, the
headers above it in ascending order, and the parents left. Block 0 ends the
walk, so `fuel` beyond `number` is never used up. -/
def Engine.gather (e : Engine) (chain : ChainReader) :
    Nat → UInt64 → Hash → List Header → List Header → EngineM (Snapshot × List Header × List Header)
  | 0, _, _, _, _ => throw .errUnknownAncestor
  | fuel + 1, number, hash, parents, headers => do
    match ← e.findBase chain number hash with
    | some snap => pure (snap, headers, parents)
    | none =>
      let (header, parents) ← lift (e.takeHeader chain number hash parents)
      e.gather chain fuel (number - 1) header.parentHash parents (header :: headers)

def Engine.snapshot (e : Engine) (chain : ChainReader) (number : UInt64) (hash : Hash) (parents : List Header) :
    EngineM Snapshot := do
  let (base, headers, parents) ← e.gather chain (number.toNat + 1) number hash parents []
  let snap ← lift (e.apply base headers chain parents)
  modify fun c => c.keep snap headers
  pure snap

/-- A snapshot in memory is the answer. -/
lemma snapshot_of_recent (e : Engine) (chain : ChainReader) (number : UInt64) {hash : Hash}
    (parents : List Header) {c : Caches} {s : Snapshot} (hc : c.recentSnaps hash = some s) :
    e.snapshot chain number hash parents c = .ok s (c.add s) := by
  have hbase : e.findBase chain number hash c = .ok (some s) c := by
    unfold Engine.findBase
    rw [hc]
  have hgather : e.gather chain (number.toNat + 1) number hash parents [] c = .ok (s, [], parents) c := by
    rw [Engine.gather, run_bind_of_ok hbase]
    rfl
  unfold Engine.snapshot
  rw [run_bind_of_ok hgather]
  have hkeep : c.keep s [] = c.add s := by simp [Caches.keep]
  rw [← hkeep]
  rfl

/-! ## Verification -/

/-- `misc.VerifyForkHashes`, of a block that is no uncle. -/
def Engine.verifyForkHashes (e : Engine) (config : ChainConfig) (header : Header) : Except Err Unit :=
  failIf (config.eip150Block.isSome ∧ config.eip150Block = header.number ∧
    config.eip150Hash ≠ 0 ∧ config.eip150Hash ≠ e.hashOf header) .gasRepriceForkHash

/-- The checks of `verifyHeader` that need no other header. `now` is the clock. -/
def Engine.verifyStandalone (e : Engine) (config : ChainConfig) (now : UInt64) (header : Header) :
    Except Err Unit := do
  failIf (header.number = none) .errUnknownBlock
  failIf (now < header.time) .errFutureBlock
  failIf (header.extra.length < extraVanity) .errMissingVanity
  failIf (header.extra.length < extraVanity + extraSeal) .errMissingSignature
  let isEpoch := header.num % e.config.epoch = 0
  let signersBytes := header.extra.length - extraVanity - extraSeal
  failIf (¬ isEpoch ∧ signersBytes ≠ 0) .errExtraValidators
  failIf (isEpoch ∧ signersBytes % validatorBytesLength ≠ 0) .errInvalidSpanValidators
  failIf (header.mixDigest ≠ 0) .errInvalidMixDigest
  failIf (header.uncleHash ≠ calcUncleHash e.crypto []) .errInvalidUncleHash
  failIf (0 < header.num ∧ header.difficulty = none) .errInvalidDifficulty
  e.verifyForkHashes config header

/-- The parent of a header: the last of the explicit parents, else the chain's. -/
def Engine.parentOf (e : Engine) (chain : ChainReader) (header : Header) (parents : List Header) :
    Except Err Header :=
  match (parents.getLast?).or (chain.getHeader header.parentHash (header.num - 1)) with
  | some parent => do
    failIf (parent.num ≠ header.num - 1 ∨ e.hashOf parent ≠ header.parentHash) .errUnknownAncestor
    .ok parent
  | none => .error .errUnknownAncestor

def Engine.blockTimeForRamanujanFork (e : Engine) (snap : Snapshot) (header parent : Header) :
    Except Err UInt64 :=
  let blockTime := parent.time + e.config.period
  if e.chainConfig.isRamanujan header.number then do
    let delay ← e.backOffTime snap e.val
    .ok (blockTime + delay)
  else .ok blockTime

def Engine.blockTimeVerifyForRamanujanFork (e : Engine) (snap : Snapshot) (header parent : Header) :
    Except Err Unit :=
  if e.chainConfig.isRamanujan header.number then do
    let delay ← e.backOffTime snap header.coinbase
    failIf (header.time < parent.time + e.config.period + delay) .errFutureBlock
  else .ok ()

/-- The distance of two gas limits, computed in signed arithmetic. -/
def gasLimitDiff (parentGasLimit gasLimit : UInt64) : UInt64 :=
  let diff := parentGasLimit.toInt64 - gasLimit.toInt64
  (if diff < 0 then diff * (-1) else diff).toUInt64

def verifyGas (header parent : Header) : Except Err Unit := do
  failIf (0x7fffffffffffffff < header.gasLimit) (.gasLimitAboveCapacity header.gasLimit)
  failIf (header.gasLimit < header.gasUsed) (.gasUsedAboveLimit header.gasUsed header.gasLimit)
  let limit := parent.gasLimit / gasLimitBoundDivisor
  failIf (limit ≤ gasLimitDiff parent.gasLimit header.gasLimit ∨ header.gasLimit < minGasLimit)
    (.invalidGasLimit header.gasLimit parent.gasLimit limit)

/-- The part of `verifySeal` that asks whether `signer` may sign block `number`. -/
def Snapshot.verifySigner (snap : Snapshot) (signer : Address) (number : UInt64) : Except Err Unit := do
  failIf (signer ∉ snap.validators) .errUnauthorizedValidator
  failIf (∃ seen ∈ snap.recents.keys, snap.recents.lookup seen = some signer ∧
    number - UInt64.ofNat snap.limit < seen) .errRecentlySigned

/-- The difficulty has to tell whether it is the signer's turn. -/
def Snapshot.verifyDifficulty (snap : Snapshot) (signer : Address) (header : Header) : Except Err Unit := do
  let inturn ← snap.inturn signer
  match header.difficulty with
  | none => .error .panic
  | some difficulty => do
    failIf (inturn ∧ difficulty ≠ diffInTurn) .errWrongDifficulty
    failIf (¬ inturn ∧ difficulty ≠ diffNoTurn) .errWrongDifficulty

/-- What `verifySeal` checks once it has the snapshot of the parent. -/
def Engine.verifySealWith (e : Engine) (snap : Snapshot) (header : Header) : Except Err Unit := do
  let signer ← e.ecrecover header
  failIf (signer ≠ header.coinbase) .errCoinBaseMisMatch
  snap.verifySigner signer header.num
  if e.fakeDiff then .ok () else snap.verifyDifficulty signer header

def Engine.verifySeal (e : Engine) (chain : ChainReader) (header : Header) (parents : List Header) :
    EngineM Unit := do
  lift (failIf (header.num = 0) .errUnknownBlock)
  let snap ← e.snapshot chain (header.num - 1) header.parentHash parents
  lift (e.verifySealWith snap header)

def Engine.verifyCascadingFields (e : Engine) (chain : ChainReader) (header : Header) (parents : List Header) :
    EngineM Unit := do
  if header.num = 0 then pure ()
  else
    let parent ← lift (e.parentOf chain header parents)
    let snap ← e.snapshot chain (header.num - 1) header.parentHash parents
    lift (e.blockTimeVerifyForRamanujanFork snap header parent)
    lift (verifyGas header parent)
    e.verifySeal chain header parents

def Engine.verifyHeader (e : Engine) (chain : ChainReader) (now : UInt64) (header : Header)
    (parents : List Header) : EngineM Unit := do
  lift (e.verifyStandalone chain.config now header)
  e.verifyCascadingFields chain header parents

/-! ## Block production -/

/-- Whether a signer on record keeps the engine's own account from signing block
`number`. -/
def Snapshot.RecentlySigned (snap : Snapshot) (val : Address) (number : UInt64) : Prop :=
  ∃ seen ∈ snap.recents.keys, snap.recents.lookup seen = some val ∧
    (number < UInt64.ofNat snap.limit ∨ number - UInt64.ofNat snap.limit < seen)

instance (snap : Snapshot) (val : Address) (number : UInt64) : Decidable (snap.RecentlySigned val number) :=
  inferInstanceAs (Decidable (∃ seen ∈ snap.recents.keys, _))

def Engine.signRecently (e : Engine) (chain : ChainReader) (parent : Header) : EngineM Bool := do
  let snap ← e.snapshot chain parent.num (e.hashOf parent) []
  lift (failIf (e.val ∉ snap.validators) .errUnauthorizedValidator)
  pure (decide (snap.RecentlySigned e.val (parent.num + 1)))

/-- A header with other extra-data, which has to fit in memory. -/
def Header.withExtra (h : Header) (extra : List UInt8) : Except Err Header :=
  if hl : extra.length < 2 ^ 63 then .ok { h with extra := extra, extra_len := hl } else .error .panic

/-- `sort.Sort(validatorsAscending(newValidators))`. -/
def sortValidators (vals : List Address) : List Address :=
  vals.insertionSort fun a b => a.toNat ≤ b.toNat

/-- The validators a header of an epoch block announces. -/
def Engine.epochValidators (e : Engine) (header : Header) : Except Err (List Address) :=
  if header.num % e.config.epoch = 0 then do
    let newValidators ← e.getCurrentValidators header.parentHash (header.number.getD 0 - 1)
    .ok (sortValidators newValidators)
  else .ok []

/-- The vanity, cut or filled up to its length without the fork hash. -/
def vanity (extra : List UInt8) : List UInt8 :=
  (extra ++ List.replicate (extraVanity - nextForkHashSize - extra.length) 0).take (extraVanity - nextForkHashSize)

/-- The parent of a header, from the chain. -/
def ChainReader.storedParent (chain : ChainReader) (header : Header) : Except Err Header :=
  match chain.getHeader header.parentHash (header.num - 1) with
  | some parent => .ok parent
  | none => .error .errUnknownAncestor

/-- `Prepare`; `now` and `now'` are the two readings of the clock. The fields that
nothing in between reads are set at the end. -/
def Engine.prepare (e : Engine) (chain : ChainReader) (now now' : UInt64) (header : Header) : EngineM Header := do
  let snap ← e.snapshot chain (header.num - 1) header.parentHash []
  let difficulty ← lift (Engine.calcDifficulty snap e.val)
  let vals ← lift (e.epochValidators header)
  let header ← lift (Header.withExtra header
    (vanity header.extra ++ ForkId.nextForkHash e.chainConfig e.genesisHash header.num ++
      vals.flatMap Address.bytes ++ List.replicate extraSeal 0))
  let parent ← lift (chain.storedParent header)
  let time ← lift (e.blockTimeForRamanujanFork snap header parent)
  pure { header with
    coinbase := e.val
    nonce := 0
    difficulty := some difficulty
    mixDigest := 0
    time := if time < now then now' else time }

/-- `copy(header.Extra[len(header.Extra)-extraSeal:], sig)`. -/
def copySeal (extra sig : List UInt8) : List UInt8 :=
  let start := extra.length - extraSeal
  extra.take start ++ sig.take extraSeal ++ (extra.drop start).drop sig.length

/-- `Seal`, up to the wait for the block's time: the sealed header, or `none`
where the engine keeps silent. `txs` is the number of transactions. -/
def Engine.seal (e : Engine) (chain : ChainReader) (header : Header) (txs : Nat) : EngineM (Option Header) := do
  lift (failIf (header.num = 0) .errUnknownBlock)
  if e.config.period = 0 ∧ txs = 0 then pure none
  else
    let snap ← e.snapshot chain (header.num - 1) header.parentHash []
    lift (failIf (e.val ∉ snap.validators) .errUnauthorizedValidator)
    if snap.RecentlySigned e.val header.num then pure none
    else
      let sig ← lift (e.signFn e.val (e.parliaRLP header))
      lift (failIf (header.extra.length < extraSeal) .panic)
      let header ← lift (Header.withExtra header (copySeal header.extra sig))
      pure (some header)

/-- `core.CalcGasLimit`. -/
def calcGasLimit (parentGasLimit desiredLimit : UInt64) : UInt64 :=
  let delta := parentGasLimit / gasLimitBoundDivisor - 1
  let desiredLimit := if desiredLimit < minGasLimit then minGasLimit else desiredLimit
  if parentGasLimit < desiredLimit then
    let limit := parentGasLimit + delta
    if desiredLimit < limit then desiredLimit else limit
  else if desiredLimit < parentGasLimit then
    let limit := parentGasLimit - delta
    if limit < desiredLimit then desiredLimit else limit
  else parentGasLimit

end TurboOctopus.Parlia
