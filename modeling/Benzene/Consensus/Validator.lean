import Benzene.Consensus.Commit

/-!
# The validator

`onAnnounce`, `onPrepared` and `onCommitted` (consensus/validator.go).  The call that would
answer a PREPARED message with a COMMIT is commented out in the source
(consensus/validator.go:210-218), so no function here builds a COMMIT message.
-/

namespace Benzene

variable {E : Env}

namespace Consensus

/-- `constructP2pMessages` (consensus/validator.go:356-386): one message with all keys when
    signatures are aggregated, else one for each key. A construction that fails is only
    logged; `none` in the result is a nil message. -/
def constructP2pMessages (s : Consensus E) (order : MapOrder E) (msgType : MessageType)
    (payloadForSign : Bytes) (priKeys : List E.PriKey) : List (Option (NetworkMessage E)) :=
  if s.aggregateSig then
    match s.construct order msgType payloadForSign priKeys with
    | .error _ => []
    | .ok networkMessage => [networkMessage]
  else
    priKeys.filterMap fun key =>
      match s.construct order msgType payloadForSign [key] with
      | .error _ => none
      | .ok networkMessage => some networkMessage

/-- `broadcastConsensusP2pMessages` (consensus/validator.go:388-403): a node that is
    listening sends nothing; a nil message is dereferenced. -/
def broadcastConsensusP2pMessages : Consensus E → List (Option (NetworkMessage E)) → Consensus E
  | s, [] => s
  | s, p2pMsg :: p2pMsgs =>
    if s.mode == .listening then broadcastConsensusP2pMessages s p2pMsgs
    else
      match p2pMsg with
      | none => s.crash
      | some p2pMsg => broadcastConsensusP2pMessages (s.emit (.sent p2pMsg)) p2pMsgs

variable (s : Consensus E)

/-- The prepare signatures of the own keys in the committee. -/
def signPrepare (s : Consensus E) : List E.PriKey → Consensus E
  | [] => s
  | key :: keys => (s.emit (.signed .prepare key.pub.bytes s.blockHash)).signPrepare keys

/-- `prepare` (consensus/validator.go:61-75). -/
def prepare (order : MapOrder E) : Consensus E :=
  let priKeys := s.getPriKeysInCommittee
  let p2pMsgs := s.constructP2pMessages order .prepare [] priKeys
  { (s.signPrepare priKeys).broadcastConsensusP2pMessages p2pMsgs with phase := .prepare }

/-- `onAnnounce` (consensus/validator.go:18-59). -/
def onAnnounce (order : MapOrder E) (msg : Message) : Consensus E :=
  match s.parseFBFTMessage msg with
  | .error _ => s.crash
  | .ok recvMsg =>
    if !s.onAnnounceSanityChecks order recvMsg then s
    else { s.addVerifiedMessage recvMsg with blockHash := recvMsg.blockHash }.prepare order

/-- A message for a later block starts the state sync (consensus/validator.go:113-121 and
    251-259). -/
def spinUpIfLow (blockNum : UInt64) : Consensus E :=
  if blockNum > s.blockNum then s.spinUpStateSync else s

/-! ## PREPARED -/

/-- The checks of `onPrepared` before anything is logged (consensus/validator.go:123-156):
    the certificate and the block when all pass. -/
def preparedChecks (recvMsg : FBFTMessage E) : Option (E.Sign × E.Mask × Block) :=
  match s.readSignatureBitmapPayload recvMsg.payload with
  | none => none
  | some (aggSig, mask) =>
    if !s.decider.isQuorumAchievedByMask (some mask) then none
    else if !E.bls.verifyHash aggSig (E.masks.aggregatePublic mask)
        recvMsg.blockHash.toList then none
    else
      match E.decodeBlock recvMsg.block with
      | none => none
      | some blockObj =>
        if !s.onPreparedSanityChecks blockObj recvMsg then none
        else some (aggSig, mask, blockObj)

/-- The block and the message of an accepted PREPARED go to the log
    (consensus/validator.go:158-164). -/
def logPrepared (recvMsg : FBFTMessage E) (blockObj : Block) : Consensus E :=
  { s with fbftLog := s.fbftLog.addBlock blockObj, block := recvMsg.block }.addVerifiedMessage
    { recvMsg with block := [] }

/-- `onPrepared` after the block is logged (consensus/validator.go:171-231). -/
def afterLogPrepared (recvMsg : FBFTMessage E) (aggSig : E.Sign) (mask : E.Mask)
    (blockObj : Block) : Consensus E :=
  if !s.blockVerifierSet then s
  else if !E.blockVerifier s.blockchain blockObj then s
  else
    let s := s.markBlockVerified blockObj
    if recvMsg.blockNum > s.blockNum then s
    else
      { s with
        aggregatedPrepareSig := some aggSig
        prepareBitmap := mask
        blockHash := recvMsg.blockHash }.spawn (.followUpStart blockObj)

/-- `onPrepared` (consensus/validator.go:99-232). -/
def onPrepared (recvMsg : FBFTMessage E) : Consensus E :=
  if recvMsg.blockNum < s.blockNum then s
  else
    let s := s.spinUpIfLow recvMsg.blockNum
    match s.preparedChecks recvMsg with
    | none => s
    | some (aggSig, mask, blockObj) =>
      (s.logPrepared recvMsg blockObj).afterLogPrepared recvMsg aggSig mask blockObj

/-! ## COMMITTED -/

/-- The checks of `onCommitted` after the message is logged as not verified
    (consensus/validator.go:264-291): the certificate and the block when all pass. The
    number of the block is not compared with the block number of the message. -/
def committedChecks (recvMsg : FBFTMessage E) : Option (E.Sign × E.Mask × Block) :=
  match s.readSignatureBitmapPayload recvMsg.payload with
  | none => none
  | some (aggSig, mask) =>
    if !s.decider.isQuorumAchievedByMask (some mask) then none
    else
      match s.fbftLog.getBlockByHash recvMsg.blockHash with
      | none => none
      | some blockObj =>
        if !E.bls.verifyHash aggSig (E.masks.aggregatePublic mask) (E.commitPayload blockObj) then
          none
        else some (aggSig, mask, blockObj)

/-- A certificate with more signatures replaces the stored one of a block that is in the
    chain (consensus/validator.go:300-312). `mask` is the commit bitmap of the node, so
    reading the stored bitmap into it changes the state. -/
def overrideCommitSig (recvMsg : FBFTMessage E) (mask : E.Mask) (blockObj : Block) : Consensus E :=
  match E.readCommitSig s.blockchain blockObj.numberU64,
      E.getBlockByHash s.blockchain (E.blockHash blockObj) with
  | some commitSigBitmap, some _ =>
    if commitSigBitmap.length == recvMsg.payload.length then
      let new := E.masks.countEnabled mask
      let mask := (E.masks.setMask mask (commitSigBitmap.drop blsSignatureSizeInBytes)).getD mask
      let cur := E.masks.countEnabled mask
      let s := { s with commitBitmap := mask }
      if new > cur then s.writeCommitSig blockObj recvMsg.payload else s
    else s
  | _, _ => s

/-- `onCommitted` (consensus/validator.go:234-341). -/
def onCommitted (order : MapOrder E) (recvMsg : FBFTMessage E) : Consensus E :=
  if recvMsg.blockNum < s.blockNum - 1 then s
  else
    let s := (s.spinUpIfLow recvMsg.blockNum).addNotVerifiedMessage recvMsg
    match s.committedChecks recvMsg with
    | none => s
    | some (aggSig, mask, blockObj) =>
      let s := s.addVerifiedMessage recvMsg
      let s := { s with aggregatedCommitSig := some aggSig, commitBitmap := mask }
      (s.overrideCommitSig recvMsg mask blockObj).tryCatchup order

/-- The follow-up of `onPrepared` reads the block number and the waiting messages
    (consensus/validator.go:221-222). -/
def runFollowUpStart (order : MapOrder E) (blockObj : Block) : Consensus E :=
  s.spawn (.followUp s.blockNum (order.messages blockObj.numberU64
    (s.fbftLog.getNotVerifiedCommittedMessages blockObj.numberU64 0 (E.blockHash blockObj))))

/-- One round of the loop of the follow-up (consensus/validator.go:222-230): it ends when the
    block number has grown. -/
def runFollowUp (order : MapOrder E) (curBlockNum : UInt64) :
    List (FBFTMessage E) → Consensus E
  | [] => s
  | committedMsg :: rest =>
    let s := s.onCommitted order committedMsg
    if curBlockNum < s.blockNum then s else s.spawn (.followUp curBlockNum rest)

end Consensus

end Benzene
