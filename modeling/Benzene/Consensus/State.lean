import Benzene.Consensus.FBFTLog
import Benzene.Quorum.Decider

/-!
# The consensus state

`Consensus` (consensus/consensus.go:64-170) and the functions that only change its fields.

* A goroutine that consensus starts and that comes back to the state later is a `Task` of
  the state; the scheduler picks which task runs next.
* What the node does to the outside, and the calls the theorems speak about, are recorded in
  `trace`, newest first.  Each entry keeps the block number and the decider of the moment of
  the call.  No function reads the trace.
* Timers, metrics, logging, mutexes and the random-number (VRF/VDF) channels are left out:
  no modelled function reads them.
-/

namespace Benzene

/-- `Mode` (consensus/enums.go:6-17). -/
inductive Mode
  | normal
  | viewChanging
  | syncing
  | listening
deriving DecidableEq

/-- `FBFTPhase` (consensus/enums.go:20-27). -/
inductive FBFTPhase
  | announce
  | prepare
  | commit
deriving DecidableEq

/-- `ProposalType` (consensus/consensus.go:46-51). -/
inductive ProposalType
  | syncProposal
  | asyncProposal
deriving DecidableEq

/-- `NetworkMessage` (consensus/construct.go:21-26): `message` is what `Bytes` encodes. The
    aggregate signature is never set. -/
structure NetworkMessage (E : Env) where
  messageType : MessageType
  message : Message
  bytes : Bytes
  fbftMsg : FBFTMessage E

/-- `slash.Vote`. -/
structure SlashVote where
  signerPubKeys : List SerializedPublicKey
  blockHeaderHash : Hash
  signature : Bytes
deriving DecidableEq

/-- `slash.Record`: evidence of two conflicting votes. -/
structure SlashRecord where
  firstVote : SlashVote
  secondVote : SlashVote
  epoch : ℕ
  shardID : UInt64
  height : UInt64
  viewID : UInt64
  offender : Address
  reporter : Address
deriving DecidableEq

/-- A step visible outside the state. -/
inductive Action (E : Env)
  /-- `AddVerifiedMessage` or `AddNotVerifiedMessage`. -/
  | logged (msg : FBFTMessage E)
  /-- A signature with an own key for a phase of a block. -/
  | signed (p : Phase) (pubKey : SerializedPublicKey) (blockHash : Hash)
  /-- `construct` of a PREPARED or COMMITTED message. -/
  | constructed (msg : FBFTMessage E)
  /-- `SendMessageToGroups`, at once or only by the retry loop. -/
  | sent (msg : NetworkMessage E)
  | queued (msg : NetworkMessage E)
  /-- `BlockVerifier` returned no error. -/
  | blockVerified (blk : Block)
  | commitBlock (blk : Block)
  /-- `InsertChain` by `commitBlock`. -/
  | insertChain (blk : Block)
  /-- `InsertChain` by the goroutine of `preCommitAndPropose`. -/
  | preCommit (blk : Block)
  /-- `WriteCommitSig`. -/
  | writeCommitSig (blk : Block) (payload : Bytes)
  | postConsensusJob (blk : Block)
  | verifiedNewBlock (blk : Block)
  | readySignal (t : ProposalType)
  | commitSig (payload : Bytes)
  | slash (record : SlashRecord)
  /-- `LastMileBlockIter.Next` returned a block. -/
  | nextBlock (blk : Block)

/-- An action with the block number and the decider it was done under. -/
structure Entry (E : Env) where
  action : Action E
  blockNum : UInt64
  decider : Decider E.bls

/-- A started goroutine. -/
inductive Task (E : Env)
  /-- The goroutine of `preCommitAndPropose`. -/
  | preCommit (network : NetworkMessage E) (blk : Block)
  /-- The grace period of `onCommit`, started under a view. -/
  | gracePeriod (viewID : UInt64)
  /-- The follow-up of `onPrepared`, before it has read anything. -/
  | followUpStart (blk : Block)
  /-- The follow-up of `onPrepared` inside its loop. -/
  | followUp (curBlockNum : UInt64) (committedMsgs : List (FBFTMessage E))

/-- `Consensus`. `prepareBitmap`, `commitBitmap` and `multiSigBitmap` are set by
    `UpdatePublicKeys` before the first message is handled. -/
structure Consensus (E : Env) where
  decider : Decider E.bls
  fbftLog : FBFTLog E
  phase : FBFTPhase
  mode : Mode
  blockViewID : UInt64
  aggregatedPrepareSig : Option E.Sign
  aggregatedCommitSig : Option E.Sign
  prepareBitmap : E.Mask
  commitBitmap : E.Mask
  multiSigBitmap : E.Mask
  blockchain : E.Chain
  priKey : List E.PriKey
  leaderPubKey : E.PubKey
  /-- The number of the block the node is going to agree on. -/
  blockNum : UInt64
  blockHash : Hash
  block : Bytes
  shardID : UInt64
  ignoreViewIDCheck : Bool
  /-- `BlockVerifier != nil`. -/
  blockVerifierSet : Bool
  /-- `BlockNumLowChan` holds its one signal. -/
  blockNumLow : Bool
  aggregateSig : Bool
  tasks : List (Task E)
  trace : List (Entry E)
  /-- The process has died of a nil dereference. -/
  crashed : Bool

/-- The orders in which the loops over maps of one step visit the entries; the loop over the
    messages of one block number has an order of its own. -/
structure MapOrder (E : Env) where
  messages : UInt64 → List (FBFTMessage E) → List (FBFTMessage E)
  ballots : List Ballot → List Ballot
  blocks : List Block → List Block
  messages_perm : ∀ n l, (messages n l).Perm l
  ballots_perm : ∀ l, (ballots l).Perm l
  blocks_perm : ∀ l, (blocks l).Perm l

namespace Consensus

variable {E : Env} (s : Consensus E)

/-- Record an action. -/
def emit (a : Action E) : Consensus E :=
  { s with trace := ⟨a, s.blockNum, s.decider⟩ :: s.trace }

/-- Start a goroutine. -/
def spawn (t : Task E) : Consensus E := { s with tasks := s.tasks ++ [t] }

/-- A nil dereference. -/
def crash : Consensus E := { s with crashed := true }

/-- `AddVerifiedMessage` on the log of the node. -/
def addVerifiedMessage (msg : FBFTMessage E) : Consensus E :=
  { s with fbftLog := s.fbftLog.addVerifiedMessage msg }.emit
    (.logged { msg with verified := true })

/-- `AddNotVerifiedMessage` on the log of the node. -/
def addNotVerifiedMessage (msg : FBFTMessage E) : Consensus E :=
  { s with fbftLog := s.fbftLog.addNotVerifiedMessage msg }.emit
    (.logged { msg with verified := false })

/-- `BlockVerifier` returned no error and the block is marked. -/
def markBlockVerified (blk : Block) : Consensus E :=
  { s with fbftLog := s.fbftLog.markBlockVerified blk }.emit (.blockVerified blk)

/-- `IsLeader` (consensus/consensus_service.go:467-474). -/
def isLeader : Bool :=
  s.priKey.any fun key => key.pub.object == s.leaderPubKey.object

/-- `GetConsensusLeaderPrivateKey` (consensus/consensus.go:204-206). -/
def getConsensusLeaderPrivateKey : Option E.PriKey :=
  s.priKey.find? fun key => key.pub.object == s.leaderPubKey.object

/-- `IsValidatorInCommittee` (consensus/consensus_service.go:166-168). -/
def isValidatorInCommittee (pubKey : SerializedPublicKey) : Bool :=
  s.decider.indexOf pubKey != -1

/-- `getPriKeysInCommittee` (consensus/validator.go:345-354). -/
def getPriKeysInCommittee : List E.PriKey :=
  s.priKey.filter fun key => s.isValidatorInCommittee key.pub.bytes

/-- `spinUpStateSync` (consensus/validator.go:405-414): a send that does not block. -/
def spinUpStateSync : Consensus E :=
  if s.blockNumLow then s else { s with blockNumLow := true, mode := .syncing }

/-- `ResetState` (consensus/consensus_service.go:149-163). -/
def resetState : Consensus E :=
  { s with
    phase := .announce
    blockHash := zeroBytes 32
    block := []
    decider := s.decider.resetPrepareAndCommitVotes
    prepareBitmap := E.masks.clear s.prepareBitmap
    commitBitmap := E.masks.clear s.commitBitmap
    aggregatedPrepareSig := none
    aggregatedCommitSig := none }

/-- `UpdateBitmaps` (consensus/consensus_service.go:133-146). -/
def updateBitmaps : Consensus E :=
  let members := s.decider.participants
  { s with
    prepareBitmap := E.masks.newMask members
    commitBitmap := E.masks.newMask members
    multiSigBitmap := E.masks.newMask members }

/-- `UpdatePublicKeys` (consensus/consensus_service.go:75-104). -/
def updatePublicKeys (pubKeys : List E.PubKey) : Consensus E :=
  let s := { s with decider := s.decider.updateParticipants pubKeys }
  let s := match s.decider.participants with
    | [] => s
    | leader :: _ => { s with leaderPubKey := leader }
  s.updateBitmaps.resetState

/-- The epoch after the current header: its successor, or the epoch number of the shard state
    where the header carries one (consensus/consensus_service.go:291-309). -/
def nextEpoch : Option ℕ :=
  let curHeader := E.currentHeader s.blockchain
  let succEpoch := E.epoch curHeader + 1
  if E.isLastBlockInEpoch curHeader then
    (E.getShardState curHeader).map fun epoch => epoch.getD succEpoch
  else some succEpoch

/-- The committee that `UpdateConsensusInformation` sets, `none` where it returns
    `Syncing` for an error (consensus/consensus_service.go:291-389). The genesis block has a
    shard state but ends no epoch. -/
def committeeToSet : Option E.Committee :=
  let curHeader := E.currentHeader s.blockchain
  match s.nextEpoch, E.readFromDB (E.epoch curHeader) s.blockchain with
  | some nextEpoch, some curShardState =>
    if E.isLastBlockInEpoch curHeader && decide (0 < curHeader.number) then
      match E.readFromDB nextEpoch s.blockchain with
      | none => none
      | some nextShardState => E.findCommitteeByID nextShardState curHeader.shardID
    else E.findCommitteeByID curShardState curHeader.shardID
  | _, _ => none

/-- `UpdateConsensusInformation` (consensus/consensus_service.go:290-463): the new state
    and the mode it returns. -/
def updateConsensusInformation : Consensus E × Mode :=
  match s.committeeToSet with
  | none => (s, .syncing)
  | some committeeToSet =>
    let hasError := E.slots committeeToSet == 0
    let oldLeader := s.leaderPubKey
    let pubKeys := E.blsPublicKeys committeeToSet
    let s := s.updatePublicKeys pubKeys
    if pubKeys.any fun key => s.priKey.any fun own => own.pub.object == key.object then
      if hasError then (s, .syncing)
      else if s.leaderPubKey.object != oldLeader.object && s.isLeader then
        (s.emit (.readySignal .syncProposal), .normal)
      else (s, .normal)
    else (s, .listening)

end Consensus

end Benzene
