import Benzene.Consensus.Construct

/-!
# Committing blocks

`commitBlock`, `SetupForNewConsensus`, `finalCommit`, `preCommitAndPropose`, `tryCatchup` and
the last-mile iterator (consensus/consensus.go:214-559).
-/

namespace Benzene

variable {E : Env}

namespace Consensus

variable (s : Consensus E)

/-- `SetupForNewConsensus` (consensus/consensus.go:360-370), with the single sender of the
    committed message. -/
def setupForNewConsensus (blk : Block) (sender : E.PubKey) : Consensus E :=
  let s := { s with blockNum := blk.numberU64 + 1, leaderPubKey := sender }
  let s :=
    if E.isLastBlockInEpoch blk.header then
      let r := s.updateConsensusInformation
      { r.1 with mode := r.2 }
    else s
  { s with fbftLog := s.fbftLog.pruneCacheBeforeBlock blk.numberU64 }.resetState

/-- `InsertChain` of one block: the new state, and whether there was no error. -/
def insertChain (blk : Block) : Consensus E × Bool :=
  let r := E.insertChain s.blockchain blk
  ({ s with blockchain := r.1 }.emit (.insertChain blk), r.2)

/-- The insertion of `commitBlock`: skipped when the chain already has that height. -/
def insertIfNew (blk : Block) : Consensus E × Bool :=
  if (E.currentBlock s.blockchain).numberU64 < blk.numberU64 then s.insertChain blk
  else (s, true)

/-- `commitBlock` (consensus/consensus.go:339-357): the new state, and whether there was no
    error. -/
def commitBlock (blk : Block) (committedMsg : FBFTMessage E) : Consensus E × Bool :=
  let r := (s.emit (.commitBlock blk)).insertIfNew blk
  if !r.2 then (r.1, false)
  else
    match committedMsg.senderPubkeys with
    | [sender] => ((r.1.emit (.postConsensusJob blk)).setupForNewConsensus blk sender, true)
    | _ => (r.1, false)

/-- `WriteCommitSig`. -/
def writeCommitSig (blk : Block) (payload : Bytes) : Consensus E :=
  { s with blockchain := E.writeCommitSig s.blockchain blk.numberU64 payload }.emit
    (.writeCommitSig blk payload)

/-- The end of `finalCommit` (consensus/consensus.go:261-336): the committed message is sent,
    or left to the retry loop, and the next proposal is released. -/
def afterFinalCommit (block : Block) (network : NetworkMessage E) : Consensus E :=
  let lastInEpoch := E.isLastBlockInEpoch block.header
  let s :=
    if !s.isLeader || lastInEpoch then s.emit (.sent network)
    else s.emit (.queued network)
  if s.isLeader then
    if lastInEpoch then s.emit (.readySignal .syncProposal)
    else s.emit (.commitSig network.fbftMsg.payload)
  else s

/-- `finalCommit` (consensus/consensus.go:214-337). -/
def finalCommit (order : MapOrder E) : Consensus E :=
  match s.getConsensusLeaderPrivateKey with
  | none => s
  | some leaderPriKey =>
    match s.construct order .committed [] [leaderPriKey] with
    | .error _ => s
    | .ok none => s.crash
    | .ok (some network) =>
      let s := (s.emit (.constructed network.fbftMsg)).addVerifiedMessage network.fbftMsg
      match s.fbftLog.getBlockByHash s.blockHash with
      | none => s
      | some block =>
        let s := s.writeCommitSig block network.fbftMsg.payload
        (s.commitBlock block network.fbftMsg).1.afterFinalCommit block network

/-- `preCommitAndPropose` (consensus/consensus.go:374-431) up to the goroutine. -/
def preCommitAndPropose (order : MapOrder E) (blk : Block) : Consensus E :=
  match s.getConsensusLeaderPrivateKey with
  | none => s
  | some leaderPriKey =>
    match s.construct order .committed [] [leaderPriKey] with
    | .error _ => s
    | .ok none => s.crash
    | .ok (some network) =>
      (s.emit (.constructed network.fbftMsg)).spawn (.preCommit network blk)

/-- The goroutine of `preCommitAndPropose` (consensus/consensus.go:393-428). -/
def runPreCommit (network : NetworkMessage E) (blk : Block) : Consensus E :=
  let s := s.addVerifiedMessage network.fbftMsg
  let r := E.insertChain s.blockchain blk
  let s := { s with blockchain := r.1 }.emit (.preCommit blk)
  if !r.2 then s
  else (s.emit (.sent network)).emit (.readySignal .asyncProposal)

/-! ## Catching up -/

/-- The loop of `getLastMileBlocksAndMsg` (consensus/consensus.go:492-509). Each round needs
    a message of its own block number, so `fuel` above the number of messages is never used
    up unless the block numbers wrap around. -/
def lastMileFrom (log : FBFTLog E) (order : MapOrder E) : ℕ → UInt64 →
    List (Block × FBFTMessage E)
  | 0, _ => []
  | fuel + 1, blockNum =>
    match log.getCommittedBlockAndMsgsFromNumber (order.messages blockNum) blockNum with
    | none => []
    | some p => p :: lastMileFrom log order fuel (blockNum + 1)

/-- `getLastMileBlocksAndMsg` (consensus/consensus.go:492-509). -/
def getLastMileBlocksAndMsg (order : MapOrder E) (bnStart : UInt64) :
    List (Block × FBFTMessage E) :=
  lastMileFrom s.fbftLog order (GoMap.size s.fbftLog.messages + 1) bnStart

/-- A block is verified unless its header hash is marked already: the new state, and whether
    the block may be used (consensus/consensus.go:453-459 and 552-558). -/
def verifyUnlessMarked (blk : Block) : Consensus E × Bool :=
  if s.fbftLog.isBlockVerified blk then (s, true)
  else if E.blockVerifier s.blockchain blk then (s.markBlockVerified blk, true)
  else (s, false)

variable {s}

/-- The loop of `tryCatchup` (consensus/consensus.go:446-473). -/
def catchupLoop : Consensus E → List (Block × FBFTMessage E) → Consensus E
  | s, [] => s
  | s, (blk, msg) :: rest =>
    let r := s.verifyUnlessMarked blk
    if !r.2 then r.1
    else
      let c := r.1.commitBlock blk msg
      if !c.2 then c.1
      else catchupLoop (c.1.emit (.verifiedNewBlock blk)) rest

/-- `postCatchup` (consensus/consensus.go:477-490). -/
def postCatchup (s : Consensus E) (initBN : UInt64) : Consensus E :=
  if initBN < s.blockNum then { s with phase := .announce } else s

/-- `tryCatchup` (consensus/consensus.go:434-475). -/
def tryCatchup (s : Consensus E) (order : MapOrder E) : Consensus E :=
  if !s.blockVerifierSet then s
  else
    let initBN := s.blockNum
    (catchupLoop s (s.getLastMileBlocksAndMsg order initBN)).postCatchup initBN

end Consensus

/-- `LastMileBlockIter` (consensus/consensus.go:514-520): the candidates not yet visited. -/
structure LastMileBlockIter where
  blockCandidates : List Block

namespace Consensus

/-- `GetLastMileBlockIter` (consensus/consensus.go:523-541). -/
def getLastMileBlockIter (s : Consensus E) (order : MapOrder E) (bnStart : UInt64) :
    Option LastMileBlockIter :=
  if !s.blockVerifierSet then none
  else some ⟨(s.getLastMileBlocksAndMsg order bnStart).map Prod.fst⟩

/-- `Next` (consensus/consensus.go:544-559): the iterator shares the log with the node. -/
def next (s : Consensus E) (iter : LastMileBlockIter) : Consensus E × LastMileBlockIter :=
  match iter.blockCandidates with
  | [] => (s, iter)
  | block :: rest =>
    let r := s.verifyUnlessMarked block
    if !r.2 then (r.1, ⟨rest⟩)
    else (r.1.emit (.nextBlock block), ⟨rest⟩)

end Consensus

end Benzene
