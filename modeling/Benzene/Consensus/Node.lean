import Benzene.Consensus.Leader
import Benzene.Consensus.Validator

/-!
# The node

`HandleMessageUpdate` (consensus/consensus.go:768-838), the cases of the main loop `Start`
(consensus/consensus.go:841-1024) that touch the consensus state, and the goroutines: a
node is a state machine over `NodeEvent`.

Every handler runs under the mutex of the node and is one step.  `announce` and the
goroutine of `preCommitAndPropose` hold it for parts only; they too are one step here.
-/

namespace Benzene

variable {E : Env}

/-- The errors of `HandleMessageUpdate`. -/
inductive HandleError
  | senderPubKeyNotLeader
  | verifyMessageSignature
  | parse (err : ParseError)
deriving DecidableEq

namespace Consensus

/-- A message that only a leader sends to the validators. -/
def fromLeader (t : MessageType) : Bool := t == .announce || t == .prepared || t == .committed

variable (s : Consensus E)

/-- The checks of `HandleMessageUpdate` before the message is parsed
    (consensus/consensus.go:779-793). The sender of PREPARE and COMMIT is not checked. -/
def messageChecks (msg : Message) (senderKey : SerializedPublicKey) : Option HandleError :=
  if fromLeader msg.type && senderKey != s.leaderPubKey.bytes && s.mode == .normal &&
      !s.ignoreViewIDCheck then
    some .senderPubKeyNotLeader
  else if msg.type != .prepare && msg.type != .commit &&
      !senderKeySanityChecks (E := E) msg senderKey then
    some .verifyMessageSignature
  else none

variable (order : MapOrder E)

/-- The routing of `HandleMessageUpdate` (consensus/consensus.go:815-830). -/
def route (msg : Message) (fbftMsg : FBFTMessage E) : Consensus E :=
  match msg.type, s.isLeader with
  | .announce, false => s.onAnnounce order msg
  | .prepared, false => s.onPrepared fbftMsg
  | .committed, false => s.onCommitted order fbftMsg
  | .prepare, true => s.onPrepare order fbftMsg
  | .commit, true => s.onCommit order fbftMsg
  | _, _ => s

/-- `HandleMessageUpdate` (consensus/consensus.go:768-838): the new state and the error. -/
def handleMessageUpdate (msg : Message) (senderKey : SerializedPublicKey) :
    Consensus E × Option HandleError :=
  match s.messageChecks msg senderKey with
  | some err => (s, some err)
  | none =>
    match s.parseFBFTMessage msg with
    | .error .nilRequest => (s.crash, none)
    | .error err => (s, some (.parse err))
    | .ok fbftMsg => (s.route order msg fbftMsg, none)

/-- A block proposed on `blockChannel` (consensus/consensus.go:916-1016). -/
def proposeBlock (newBlock : Block) : Consensus E :=
  if newBlock.numberU64 < s.blockNum then s else s.announce order newBlock

/-- `syncReadyChan` (consensus/consensus.go:895-907). -/
def syncReady : Consensus E :=
  let next := (E.currentHeader s.blockchain).numberU64 + 1
  if s.blockNum < next then
    let r := { s with blockNum := next }.updateConsensusInformation
    { r.1 with mode := r.2 }
  else s

/-- `syncNotReadyChan` (consensus/consensus.go:909-914). -/
def syncNotReady : Consensus E :=
  { s with blockNum := (E.currentHeader s.blockchain).numberU64 + 1, mode := .syncing }

/-- Run a goroutine to its next pause. -/
def runTask : Task E → Consensus E
  | .preCommit network blk => s.runPreCommit network blk
  | .gracePeriod viewID => s.runGracePeriod order viewID
  | .followUpStart blk => s.runFollowUpStart order blk
  | .followUp curBlockNum committedMsgs => s.runFollowUp order curBlockNum committedMsgs

/-- The scheduler runs the `i`-th goroutine. -/
def schedule (i : ℕ) : Consensus E :=
  match s.tasks[i]? with
  | none => s
  | some task => { s with tasks := s.tasks.eraseIdx i }.runTask order task

end Consensus

/-- What can happen to a node. -/
inductive NodeEvent (E : Env)
  /-- `HandleMessageUpdate` is called. -/
  | message (order : MapOrder E) (msg : Message) (senderKey : SerializedPublicKey)
  /-- A block arrives on `blockChannel`. -/
  | propose (order : MapOrder E) (newBlock : Block)
  /-- A goroutine runs. -/
  | task (order : MapOrder E) (i : ℕ)
  | syncReady
  | syncNotReady
  /-- The receiver of `BlockNumLowChan` takes the signal. -/
  | takeBlockNumLow
  /-- The chain grows by other means than consensus (state sync). -/
  | chainChanged (blockchain : E.Chain)

/-- One step of a node. -/
def Consensus.step (s : Consensus E) (e : NodeEvent E) : Consensus E :=
  if s.crashed then s
  else
    match e with
    | .message order msg senderKey => (s.handleMessageUpdate order msg senderKey).1
    | .propose order newBlock => s.proposeBlock order newBlock
    | .task order i => s.schedule order i
    | .syncReady => s.syncReady
    | .syncNotReady => s.syncNotReady
    | .takeBlockNumLow => { s with blockNumLow := false }
    | .chainChanged blockchain => { s with blockchain := blockchain }

end Benzene
