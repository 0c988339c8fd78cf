import TurboOctopus.Types.Header
/-!
# Chain parameters
-/
namespace TurboOctopus.Params

open TurboOctopus.Types

def gasLimitBoundDivisor : UInt64 := 256
def minGasLimit : UInt64 := 5000

/-- The engine's own parameters. `parlia.New` replaces a zero epoch by the
default, so no engine runs with one. -/
structure ParliaConfig where
  period : UInt64
  epoch : UInt64
  epoch_pos : epoch ≠ 0

/-- The forks of a chain; `none` where a fork is not scheduled. -/
structure ChainConfig where
  chainID : Nat
  homesteadBlock : Option Nat
  daoForkBlock : Option Nat
  daoForkSupport : Bool
  eip150Block : Option Nat
  eip150Hash : Hash
  eip155Block : Option Nat
  eip158Block : Option Nat
  byzantiumBlock : Option Nat
  constantinopleBlock : Option Nat
  petersburgBlock : Option Nat
  istanbulBlock : Option Nat
  muirGlacierBlock : Option Nat
  berlinBlock : Option Nat
  yoloV3Block : Option Nat
  catalystBlock : Option Nat
  londonBlock : Option Nat
  arrowGlacierBlock : Option Nat
  mergeForkBlock : Option Nat
  ramanujanBlock : Option Nat
  nielsBlock : Option Nat
  mirrorSyncBlock : Option Nat
  brunoBlock : Option Nat
  eulerBlock : Option Nat
  gibbsBlock : Option Nat
  nanoBlock : Option Nat
  moranBlock : Option Nat

/-- A chain without forks. -/
def noForks (chainID : Nat) : ChainConfig :=
  ⟨chainID, none, none, false, none, 0, none, none, none, none, none, none, none, none, none, none, none, none,
    none, none, none, none, none, none, none, none, none⟩

/-- A fork is active from its block on; never where either number is nil. -/
def isForked (s head : Option Nat) : Bool :=
  match s, head with
  | some s, some head => decide (s ≤ head)
  | _, _ => false

def ChainConfig.isEIP158 (c : ChainConfig) (num : Option Nat) : Bool := isForked c.eip158Block num
def ChainConfig.isByzantium (c : ChainConfig) (num : Option Nat) : Bool := isForked c.byzantiumBlock num
def ChainConfig.isRamanujan (c : ChainConfig) (num : Option Nat) : Bool := isForked c.ramanujanBlock num

end TurboOctopus.Params
