import FlexBraid.Lib.GoNum

/-!
# Parameters of the erasure codec

The parameters an encoder and a decoder are built from.

## Main definitions

* `Params`, `AdaptiveParams` — the configuration of a codec.
* `Params.withDefaults` — the defaults both constructors fill in.
-/

namespace FlexBraid

/-- The number of data frames in a block when none is configured. -/
def defaultDataShards : ℤ := 10

/-- The block timeout when none is configured. -/
def defaultBlockTimeout : Duration := 8 * millisecond

/-- The tuning of the live-adaptive mode. -/
structure AdaptiveParams (F : Type) where
  /-- Coding starts when the measured loss reaches this percentage. -/
  onLossPct : F
  /-- Coding stops when the loss drops below this percentage. -/
  offLossPct : F
  /-- Coding stays on at least this long. -/
  hold : Duration
  /-- The redundancy ceiling, as a loss percentage. -/
  maxLossPct : F
  /-- The multiplier over the theoretical redundancy. -/
  safety : F
deriving DecidableEq

/-- The parameters of a codec.  No parity shards means no coding; no adaptive
parameters means that coding is always on. -/
structure Params (F : Type) where
  dataShards : ℤ
  parityShards : ℤ
  blockTimeout : Duration
  adaptive : Option (AdaptiveParams F) := none
  /-- Blocks span all paths instead of one. -/
  crossPath : Bool := false
  /-- The least number of parity shards in cross-path mode. -/
  crossPathMinParity : ℤ := 0
deriving DecidableEq

namespace Params

variable {F : Type}

/-- Whether coding is configured. -/
def enabled (p : Params F) : Bool := decide (0 < p.parityShards)

/-- The parameters with the defaults both constructors fill in. -/
def withDefaults (p : Params F) : Params F :=
  { p with
    dataShards := if p.dataShards ≤ 0 then defaultDataShards else p.dataShards
    blockTimeout := if p.blockTimeout ≤ 0 then defaultBlockTimeout else p.blockTimeout }

theorem withDefaults_dataShards_pos (p : Params F) : 0 < p.withDefaults.dataShards := by
  unfold withDefaults
  dsimp only
  split
  · decide
  · omega

@[simp] theorem withDefaults_enabled (p : Params F) : p.withDefaults.enabled = p.enabled := rfl

@[simp] theorem withDefaults_crossPath (p : Params F) :
    p.withDefaults.crossPath = p.crossPath := rfl

end Params

end FlexBraid
