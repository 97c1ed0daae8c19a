import Benzene.External.Numeric

/-!
# Sharding configurations

`NewInstance` (internal/configs/sharding/instance.go:40-86) checks the parameters of a sharding
configuration.  An `Instance` carries what the check says about the vote shares: the share of the
internal nodes is between zero and one, and the share of the external ones is the rest.
-/

namespace Benzene

/-- The errors of `NewInstance`. -/
inductive InstanceError
  | noShard (numShards : UInt32)
  | noNode (numNodesPerShard : ℤ)
  | negativeHarmonyNodes (numHarmonyOperatedNodesPerShard : ℤ)
  | tooManyHarmonyNodes (numHarmonyOperatedNodesPerShard numNodesPerShard : ℤ)
  | votePercentOutOfRange
deriving DecidableEq

/-- The text of an error. -/
def InstanceError.text : InstanceError → String
  | .noShard n => "sharding config must have at least one shard have " ++ toString n
  | .noNode n => "each shard must have at least one node " ++ toString n
  | .negativeHarmonyNodes n => "Harmony-operated nodes cannot be negative " ++ toString n
  | .tooManyHarmonyNodes n m =>
    "number of Harmony-operated nodes cannot exceed overall number of nodes per shard " ++
      toString n ++ " " ++ toString m
  | .votePercentOutOfRange => "total voting power of harmony nodes should be within [0, 1]"

/-- `instance` (internal/configs/sharding/instance.go:26-36), for a type of accounts. -/
structure Instance (N : Numeric) (Account : Type) where
  numShards : UInt32
  numNodesPerShard : ℤ
  numHarmonyOperatedNodesPerShard : ℤ
  harmonyVotePercent : Dec
  externalVotePercent : Dec
  hmyAccounts : List Account
  fnAccounts : List Account
  reshardingEpoch : List ℤ
  blocksPerEpoch : UInt64
  harmony_nonneg : 0 ≤ harmonyVotePercent.raw
  harmony_le_one : harmonyVotePercent.raw ≤ Dec.one
  external_eq : N.sub Dec.oneDec harmonyVotePercent = .ok externalVotePercent

variable {N : Numeric} {Account : Type}

/-- `NewInstance` (internal/configs/sharding/instance.go:40-86). -/
def newInstance (N : Numeric) (numShards : UInt32)
    (numNodesPerShard numHarmonyOperatedNodesPerShard : ℤ) (harmonyVotePercent : Dec)
    (hmyAccounts fnAccounts : List Account) (reshardingEpoch : List ℤ) (blocksE : UInt64) :
    Except Dec.Panic (Except InstanceError (Instance N Account)) :=
  if numShards < 1 then .ok (.error (.noShard numShards))
  else if numNodesPerShard < 1 then .ok (.error (.noNode numNodesPerShard))
  else if numHarmonyOperatedNodesPerShard < 0 then
    .ok (.error (.negativeHarmonyNodes numHarmonyOperatedNodesPerShard))
  else if numHarmonyOperatedNodesPerShard > numNodesPerShard then
    .ok (.error (.tooManyHarmonyNodes numHarmonyOperatedNodesPerShard numNodesPerShard))
  else if hpercent : harmonyVotePercent.raw < 0 ∨ harmonyVotePercent.raw > Dec.one then
    .ok (.error .votePercentOutOfRange)
  else
    match hsub : N.sub Dec.oneDec harmonyVotePercent with
    | .error panic => .error panic
    | .ok externalVotePercent => .ok (.ok {
        numShards, numNodesPerShard, numHarmonyOperatedNodesPerShard, harmonyVotePercent,
        externalVotePercent, hmyAccounts, fnAccounts, reshardingEpoch
        blocksPerEpoch := blocksE
        harmony_nonneg := by omega
        harmony_le_one := by omega
        external_eq := hsub })

namespace Instance

variable (i : Instance N Account)

theorem external_raw : i.externalVotePercent.raw = Dec.one - i.harmonyVotePercent.raw :=
  Numeric.raw_of_sub i.external_eq

theorem external_nonneg : 0 ≤ i.externalVotePercent.raw := by
  have hle := i.harmony_le_one
  rw [external_raw]
  omega

theorem external_le_one : i.externalVotePercent.raw ≤ Dec.one := by
  have hnonneg := i.harmony_nonneg
  rw [external_raw]
  omega

end Instance

end Benzene
