import Benzene.Common.Bytes
import Benzene.Common.GoMap
import Benzene.Common.Run
import Benzene.Configs.Instance

/-!
# Rosters

`Compute` (consensus/votepower/roster.go:161-249) gives every slot of a committee a share of the
voting power.  An internal slot has an equal part of the share of the internal nodes, a staked slot
a part of the external share in proportion to its stake.  The shares are rounded, and what is
missing to one goes to the last staked slot.  The voters are a map, so of the slots with the same
key only the first has a vote in it.

`Voters` maps keys to pointers.  The votes are allocated one for each slot, and `lastStakedVoter`
points to one of them as well: a pointer is the index of the slot.

`shard.Committee` and the schedule of the sharding configurations belong to other modules, the
decimals are the parameter `N`.
-/

namespace Benzene

/-- `NetworkType` (internal/configs/node/config.go:46-59). -/
inductive NetworkType
  | mainnet
  | testnet
  | pangaea
  | partner
  | stressnet
  | devnet
  | localnet
deriving DecidableEq

/-- A slot of a committee; an internal one has no stake. -/
structure Slot where
  ecdsaAddress : Address
  blsPublicKey : SerializedPublicKey
  effectiveStake : Option Dec
deriving DecidableEq

namespace Slot

/-- The slot is staked. -/
def isStaked (slot : Slot) : Bool := slot.effectiveStake.isSome

/-- The units of the stake, zero for an internal slot. -/
def stake (slot : Slot) : ℤ := (slot.effectiveStake.map Dec.raw).getD 0

end Slot

/-- `shard.Committee`. -/
structure ShardCommittee where
  shardID : UInt32
  slots : List Slot
  /-- The length of a slice is an `int`. -/
  length_lt : slots.length < 2 ^ 63

/-- `AccommodateHarmonyVote` with its `PureStakedVote`
    (consensus/votepower/roster.go:73-87). -/
structure Voter where
  earningAccount : Address
  identity : SerializedPublicKey
  groupPercent : Dec
  effectiveStake : Dec
  rawStake : Dec
  isHarmonyNode : Bool
  overallPercent : Dec
deriving DecidableEq

/-- `Roster` (consensus/votepower/roster.go:95-107), with the votes its map points to. -/
structure Roster where
  /-- The votes that were allocated. -/
  members : List Voter
  voters : GoMap SerializedPublicKey ℕ
  ourVotingPowerTotalPercentage : Dec
  theirVotingPowerTotalPercentage : Dec
  totalEffectiveStake : Dec
  hmySlotCount : ℤ
  shardID : UInt32

/-- The errors of `Compute`. -/
inductive RosterError
  | nilEpoch
  | votingPowerNotEqualOne
deriving DecidableEq

/-- The text of an error. -/
def RosterError.text : RosterError → String
  | .nilEpoch => "nil epoch for roster compute"
  | .votingPowerNotEqualOne => "voting power not equal to one"

namespace Votepower

variable (N : Numeric)

/-- One slot of the loop over the stakes. -/
def tallyStake (acc : Dec × ℤ) (slot : Slot) : Except Dec.Panic (Dec × ℤ) :=
  match slot.effectiveStake with
  | some e => (N.add acc.1 e).map (·, acc.2)
  | none => .ok (acc.1, acc.2 + 1)

/-- The stake of all slots and the number of the internal ones
    (consensus/votepower/roster.go:168-174). -/
def tallyStakes (staked : List Slot) : Except Dec.Panic (Dec × ℤ) :=
  staked.foldlM (tallyStake N) (Dec.zeroDec, 0)

/-- What the shares of a slot are computed from. -/
structure Shares (N : Numeric) where
  totalEffectiveStake : Dec
  asDecHMYSlotCount : Dec
  harmonyPercent : Dec
  externalPercent : Dec

variable {N}

/-- The vote of a slot (consensus/votepower/roster.go:194-218). -/
def Shares.vote (p : Shares N) (slot : Slot) : Except Dec.Panic Voter := do
  let member : Voter := {
    earningAccount := slot.ecdsaAddress
    identity := slot.blsPublicKey
    groupPercent := Dec.zeroDec
    effectiveStake := Dec.zeroDec
    rawStake := Dec.zeroDec
    isHarmonyNode := false
    overallPercent := Dec.zeroDec }
  match slot.effectiveStake with
  | some e => do
    let effectiveStake ← N.add member.effectiveStake e
    let groupPercent ← N.quo e p.totalEffectiveStake
    let overallPercent ← N.mul groupPercent p.externalPercent
    return { member with effectiveStake, groupPercent, overallPercent }
  | none => do
    let overallPercent ← N.quo p.harmonyPercent p.asDecHMYSlotCount
    let groupPercent ← N.quo overallPercent p.harmonyPercent
    return { member with isHarmonyNode := true, overallPercent, groupPercent }

/-- The variables of the loop over the slots. -/
structure Tally where
  members : List Voter
  voters : GoMap SerializedPublicKey ℕ
  lastStakedVoter : Option ℕ
  ourPercentage : Dec
  theirPercentage : Dec

def Tally.start : Tally := ⟨[], ∅, none, Dec.zeroDec, Dec.zeroDec⟩

/-- One slot of the loop (consensus/votepower/roster.go:193-225). -/
def Shares.enter (p : Shares N) (t : Tally) (slot : Slot) : Except Dec.Panic Tally := do
  let member ← p.vote slot
  let members := t.members ++ [member]
  let voters :=
    if (t.voters.lookup slot.blsPublicKey).isSome then t.voters
    else t.voters.insert slot.blsPublicKey t.members.length
  match slot.effectiveStake with
  | some _ => do
    let theirPercentage ← N.add t.theirPercentage member.overallPercent
    return { t with members, voters, theirPercentage, lastStakedVoter := some t.members.length }
  | none => do
    let ourPercentage ← N.add t.ourPercentage member.overallPercent
    return { t with members, voters, ourPercentage }

variable (N)

/-- What is missing to one is given to the last staked slot
    (consensus/votepower/roster.go:230-238). -/
def Tally.giveDiff (t : Tally) : Except Dec.Panic Tally := do
  let sum ← N.add t.ourPercentage t.theirPercentage
  let diff ← N.sub Dec.oneDec sum
  match t.lastStakedVoter with
  | none => return t
  | some i =>
    if diff = Dec.zeroDec then return t
    else match t.members[i]? with
      | none => return t
      | some last => do
        let overallPercent ← N.add last.overallPercent diff
        let theirPercentage ← N.add t.theirPercentage diff
        return { t with members := t.members.set i { last with overallPercent }, theirPercentage }

/-- The check that the power adds up (consensus/votepower/roster.go:230-243). -/
def Tally.settle (t : Tally) : Except Dec.Panic (Except RosterError Tally) := do
  let t ← t.giveDiff N
  match t.lastStakedVoter with
  | none => return .ok t
  | some _ => do
    let sum ← N.add t.ourPercentage t.theirPercentage
    if sum = Dec.oneDec then return .ok t else return .error .votingPowerNotEqualOne

/-- The end of `Compute` (consensus/votepower/roster.go:227-244). -/
def Tally.finish (t : Tally) (recovery : Bool) : Except Dec.Panic (Except RosterError Tally) :=
  if recovery then .ok (.ok t) else t.settle N

/-- The epochs of the recovery of the test network
    (consensus/votepower/roster.go:185-188). -/
def inRecovery (network : NetworkType) (epoch : ℤ) : Bool :=
  network = .testnet && 73305 ≤ epoch && epoch ≤ 74330

/-- The roster of the votes. -/
def Tally.roster (shardID : UInt32) (stakes : Dec × ℤ) (t : Tally) : Roster where
  members := t.members
  voters := t.voters
  ourVotingPowerTotalPercentage := t.ourPercentage
  theirVotingPowerTotalPercentage := t.theirPercentage
  totalEffectiveStake := stakes.1
  hmySlotCount := stakes.2
  shardID := shardID

variable {N} {Account : Type}

/-- The shares of the two groups in an epoch (consensus/votepower/roster.go:182-191). -/
def percentages (schedule : ℤ → Instance N Account) (network : NetworkType) (epoch : ℤ) :
    Dec × Dec :=
  if inRecovery network epoch then (⟨700000000000000000⟩, ⟨400000000000000000⟩)
  else ((schedule epoch).harmonyVotePercent, (schedule epoch).externalVotePercent)

/-- `Compute` (consensus/votepower/roster.go:161-249). -/
def compute (schedule : ℤ → Instance N Account) (network : NetworkType) (subComm : ShardCommittee)
    (epoch : Option ℤ) : Except Dec.Panic (Except RosterError Roster) :=
  match epoch with
  | none => .ok (.error .nilEpoch)
  | some epoch => do
    let stakes ← tallyStakes N subComm.slots
    let percents := percentages schedule network epoch
    let shares : Shares N := ⟨stakes.1, Dec.newDec stakes.2, percents.1, percents.2⟩
    let t ← subComm.slots.foldlM shares.enter Tally.start
    let settled ← t.finish N (inRecovery network epoch)
    return settled.map (Tally.roster subComm.shardID stakes)

end Votepower

/-! ## The shares of a slot -/

/-- What a vote says about voting power, in units. -/
structure Share where
  identity : SerializedPublicKey
  isHarmonyNode : Bool
  group : ℤ
  power : ℤ
deriving DecidableEq

def Voter.share (v : Voter) : Share :=
  ⟨v.identity, v.isHarmonyNode, v.groupPercent.raw, v.overallPercent.raw⟩

namespace Votepower.Shares

variable {N : Numeric} {p : Shares N} {slot : Slot} {v : Voter}

/-- The units of the part of its group that a slot has. -/
def group (p : Shares N) (slot : Slot) : ℤ :=
  match slot.effectiveStake with
  | some e => N.quoRaw e.raw p.totalEffectiveStake.raw
  | none => N.quoRaw (N.quoRaw p.harmonyPercent.raw p.asDecHMYSlotCount.raw) p.harmonyPercent.raw

/-- The units of the voting power of a slot, before the last one gets the rest. -/
def power (p : Shares N) (slot : Slot) : ℤ :=
  match slot.effectiveStake with
  | some e => N.mulRaw (N.quoRaw e.raw p.totalEffectiveStake.raw) p.externalPercent.raw
  | none => N.quoRaw p.harmonyPercent.raw p.asDecHMYSlotCount.raw

def share (p : Shares N) (slot : Slot) : Share :=
  ⟨slot.blsPublicKey, !slot.isStaked, p.group slot, p.power slot⟩

/-- The vote of a slot, if nothing panics. -/
theorem share_of_vote (h : p.vote slot = .ok v) : v.share = p.share slot := by
  unfold vote at h
  dsimp only at h
  cases hstake : slot.effectiveStake with
  | some e =>
    rw [hstake] at h
    obtain ⟨effectiveStake, -, h⟩ := Run.ok_of_bind h
    obtain ⟨groupPercent, hgroup, h⟩ := Run.ok_of_bind h
    obtain ⟨overallPercent, hoverall, h⟩ := Run.ok_of_bind h
    obtain rfl := Except.ok.inj h
    have hquo := Numeric.raw_of_quo hgroup
    have hmul := Numeric.raw_of_mul hoverall
    rw [hquo] at hmul
    simp only [Voter.share, share, group, power, Slot.isStaked, hstake, hquo, hmul]
    rfl
  | none =>
    rw [hstake] at h
    obtain ⟨overallPercent, hoverall, h⟩ := Run.ok_of_bind h
    obtain ⟨groupPercent, hgroup, h⟩ := Run.ok_of_bind h
    obtain rfl := Except.ok.inj h
    have hquo := Numeric.raw_of_quo hoverall
    have hpart := Numeric.raw_of_quo hgroup
    rw [hquo] at hpart
    simp only [Voter.share, share, group, power, Slot.isStaked, hstake, hquo, hpart]
    rfl

end Votepower.Shares

end Benzene
