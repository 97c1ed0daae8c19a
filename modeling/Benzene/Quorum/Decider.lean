import Benzene.Common.GoMap
import Benzene.External.Bls
import Benzene.Utils.CountOneBits

/-!
# The quorum decider

`cIdentities` and `uniformVoteWeight` (consensus/quorum/quorum.go,
consensus/quorum/one-node-one-vote.go): the committee, one ballot box per phase, and the
quorum tests over ballots and over masks.

The order in which `range` visits a ballot box matters to `AggregateVotes` only; it is a
parameter there.
-/

namespace Benzene

/-- `Phase` (consensus/quorum/quorum.go:19-28). -/
inductive Phase
  | prepare
  | commit
  | viewChange
deriving DecidableEq

/-- `Ballot` (consensus/votepower/roster.go:29-35). -/
structure Ballot where
  signerPubKeys : List SerializedPublicKey
  blockHeaderHash : Hash
  signature : Bytes
  height : UInt64
  viewID : UInt64
deriving DecidableEq

/-- The map of `votepower.Round`. -/
abbrev BallotBox := GoMap SerializedPublicKey Ballot

/-- `cIdentities` (consensus/quorum/quorum.go:156-165). `keyIndexMap` is computed from
    `publicKeys`, the two are only set together. -/
structure Decider (B : Bls) where
  publicKeys : List (PublicKeyWrapper B)
  prepare : BallotBox
  commit : BallotBox
  viewChange : BallotBox

/-- The errors of `submitVote`. -/
inductive VoteError
  | duplicateKey (pubKey : SerializedPublicKey)
  | alreadySubmitted (pubKey : SerializedPublicKey)
deriving DecidableEq

namespace Decider

variable {B : Bls}

/-- `newBallotsBackedSignatureReader` (consensus/quorum/quorum.go:377-385). -/
def newBallotsBackedSignatureReader : Decider B := ⟨[], ∅, ∅, ∅⟩

variable (d : Decider B)

/-- The ballot box of a phase. -/
def ballotBox : Phase → BallotBox
  | .prepare => d.prepare
  | .commit => d.commit
  | .viewChange => d.viewChange

/-- Replace the ballot box of a phase. -/
def setBallotBox (box : BallotBox) : Phase → Decider B
  | .prepare => { d with prepare := box }
  | .commit => { d with commit := box }
  | .viewChange => { d with viewChange := box }

/-- `keyIndexMap` as `UpdateParticipants` builds it: a repeated key has its last index. -/
def keyIndexMap : GoMap SerializedPublicKey ℕ :=
  d.publicKeys.zipIdx.foldl (fun m p => m.insert p.1.bytes p.2) ∅

/-- `IndexOf` (consensus/quorum/quorum.go:205-210). -/
def indexOf (pubKey : SerializedPublicKey) : ℤ :=
  match d.keyIndexMap.lookup pubKey with
  | some index => index
  | none => -1

/-- `Participants` (consensus/quorum/quorum.go:251-253). -/
def participants : List (PublicKeyWrapper B) := d.publicKeys

/-- `UpdateParticipants` (consensus/quorum/quorum.go:255-262). -/
def updateParticipants (pubKeys : List (PublicKeyWrapper B)) : Decider B :=
  { d with publicKeys := pubKeys }

/-- `ParticipantsCount` (consensus/quorum/quorum.go:264-266). -/
def participantsCount : ℕ := d.publicKeys.length

/-- `SignersCount` (consensus/quorum/quorum.go:268-280). -/
def signersCount (p : Phase) : ℕ := GoMap.size (d.ballotBox p)

/-- `TwoThirdsSignersCount` (consensus/quorum/quorum.go:337-339). -/
def twoThirdsSignersCount : ℕ := d.participantsCount * 2 / 3 + 1

/-- `ReadBallot` (consensus/quorum/quorum.go:341-358). -/
def readBallot (p : Phase) (pubkey : SerializedPublicKey) : Option Ballot :=
  (d.ballotBox p).lookup pubkey

/-- `ReadAllBallots` (consensus/quorum/quorum.go:360-375), in the order `order` of the
    map iteration. -/
def readAllBallots (order : List Ballot → List Ballot) (p : Phase) : List Ballot :=
  order (GoMap.values (d.ballotBox p))

/-- The loop of `submitVote` that looks for a key met twice or a vote already cast. -/
def voteError (d : Decider B) (p : Phase) (seenKeys : List SerializedPublicKey) :
    List SerializedPublicKey → Option VoteError
  | [] => none
  | pubKey :: pubkeys =>
    if pubKey ∈ seenKeys then some (.duplicateKey pubKey)
    else if (d.readBallot p pubKey).isSome then some (.alreadySubmitted pubKey)
    else voteError d p (pubKey :: seenKeys) pubkeys

/-- `submitVote` (consensus/quorum/quorum.go:282-322): the decider after the call, and what it
    returns. The same ballot is stored under each of the keys. -/
def submitVote (p : Phase) (pubkeys : List SerializedPublicKey) (sig : B.Sign) (headerHash : Hash)
    (height viewID : UInt64) : Decider B × Except VoteError Ballot :=
  match d.voteError p [] pubkeys with
  | some err => (d, .error err)
  | none =>
    let ballot : Ballot := ⟨pubkeys, headerHash, B.serialize sig, height, viewID⟩
    (d.setBallotBox (GoMap.insertAll (d.ballotBox p) pubkeys ballot) p, .ok ballot)

theorem submitVote_of_error {p : Phase} {pubkeys : List SerializedPublicKey} {sig : B.Sign}
    {headerHash : Hash} {height viewID : UInt64} {err : VoteError}
    (h : (d.submitVote p pubkeys sig headerHash height viewID).2 = .error err) :
    (d.submitVote p pubkeys sig headerHash height viewID).1 = d := by
  unfold submitVote at h ⊢
  split at h
  · rfl
  · cases h

/-- `AddNewVote` (consensus/quorum/one-node-one-vote.go:30-39). An error leaves the decider as it
    is (`submitVote_of_error`). -/
def addNewVote (p : Phase) (pubKeys : List (PublicKeyWrapper B)) (sig : B.Sign)
    (headerHash : Hash) (height viewID : UInt64) : Except VoteError (Decider B × Ballot) :=
  let r := d.submitVote p (pubKeys.map (·.bytes)) sig headerHash height viewID
  r.2.map (r.1, ·)

/-- One ballot of the loop of `AggregateVotes`: skipped when one of its signers is
    already collected. A signature that does not deserialize counts as zero. -/
def collectBallot (acc : List SerializedPublicKey × List B.Sign) (ballot : Ballot) :
    List SerializedPublicKey × List B.Sign :=
  if ballot.signerPubKeys.any (· ∈ acc.1) then acc
  else (acc.1 ++ ballot.signerPubKeys, acc.2 ++ [(B.deserialize ballot.signature).getD 0])

/-- `AggregateVotes` (consensus/quorum/quorum.go:171-203). -/
def aggregateVotes (order : List Ballot → List Ballot) (p : Phase) : B.Sign :=
  ((d.readAllBallots order p).foldl collectBallot ([], [])).2.sum

/-- `IsQuorumAchieved` (consensus/quorum/one-node-one-vote.go:42-47). -/
def isQuorumAchieved (p : Phase) : Bool :=
  decide (d.twoThirdsSignersCount ≤ d.signersCount p)

/-- `IsQuorumAchievedByMask` (consensus/quorum/one-node-one-vote.go:50-64). -/
def isQuorumAchievedByMask {M : MaskLib B} (mask : Option M.Mask) : Bool :=
  match mask with
  | none => false
  | some mask =>
    if countOneBits (M.bitmap mask) < d.twoThirdsSignersCount then false else true

/-- `IsAllSigsCollected` (consensus/quorum/one-node-one-vote.go:72-74). -/
def isAllSigsCollected : Bool :=
  decide (d.signersCount .commit = d.participantsCount)

/-- `ResetPrepareAndCommitVotes` (consensus/quorum/one-node-one-vote.go:120-122). -/
def resetPrepareAndCommitVotes : Decider B :=
  { d with prepare := ∅, commit := ∅ }

/-- `reset` (consensus/quorum/quorum.go:324-335). -/
def reset (ps : List Phase) : Decider B :=
  ps.foldl (fun d p => d.setBallotBox ∅ p) d

/-- `ResetViewChangeVotes` (consensus/quorum/one-node-one-vote.go:124-126). -/
def resetViewChangeVotes : Decider B := d.reset [.viewChange]

end Decider

end Benzene
