import Benzene.Consensus.Commit

/-!
# The leader

`announce`, `onPrepare`, `onCommit` (consensus/leader.go), `didReachPrepareQuorum`
(consensus/threshold.go) and `checkDoubleSign` (consensus/double_sign.go).
-/

namespace Benzene

variable {E : Env}

namespace Consensus

/-- The bitmap of the prepare or the commit phase. -/
def bitmap (s : Consensus E) : Phase → E.Mask
  | .prepare => s.prepareBitmap
  | .commit => s.commitBitmap
  | .viewChange => s.multiSigBitmap

/-- Replace the bitmap of the prepare or the commit phase. -/
def setBitmap (s : Consensus E) (mask : E.Mask) : Phase → Consensus E
  | .prepare => { s with prepareBitmap := mask }
  | .commit => { s with commitBitmap := mask }
  | .viewChange => s

/-- The leader's own votes, one for each of its keys: the loop of `announce`
    (consensus/leader.go:59-78) and of `didReachPrepareQuorum` (consensus/threshold.go:51-69).
    A key outside the bitmap is skipped; a vote that is refused stops the loop, and with it
    the caller (`false`). -/
def voteWithOwnKeys (p : Phase) (payload : Bytes) (headerHash : Hash) (height : UInt64) :
    Consensus E → List E.PriKey → Consensus E × Bool
  | s, [] => (s, true)
  | s, key :: keys =>
    match E.masks.setKey (s.bitmap p) key.pub.bytes true with
    | none => voteWithOwnKeys p payload headerHash height s keys
    | some mask =>
      let s := (s.setBitmap mask p).emit (.signed p key.pub.bytes headerHash)
      match s.decider.addNewVote p [key.pub] (E.bls.signHash key.pri payload) headerHash
          height 0 with
      | .error _ => (s, false)
      | .ok (decider, _) =>
        voteWithOwnKeys p payload headerHash height { s with decider := decider } keys

variable (s : Consensus E)

/-- `announce` (consensus/leader.go:19-97). -/
def announce (order : MapOrder E) (block : Block) : Consensus E :=
  match E.encodeBlock block with
  | none => s
  | some encodedBlock =>
    let s := { s with blockHash := E.blockHash block, block := encodedBlock }
    match s.getConsensusLeaderPrivateKey with
    | none => s
    | some key =>
      match s.construct order .announce [] [key] with
      | .error _ => s
      | .ok none => s.crash
      | .ok (some networkMessage) =>
        let s := s.addVerifiedMessage networkMessage.fbftMsg
        let s := { s with fbftLog := s.fbftLog.addBlock block }
        let r := voteWithOwnKeys .prepare s.blockHash.toList (E.blockHash block) block.numberU64 s
          s.priKey
        if !r.2 then r.1
        else { r.1.emit (.sent networkMessage) with phase := .prepare }

/-- `didReachPrepareQuorum` (consensus/threshold.go:15-94): the new state, and whether there
    was no error. -/
def didReachPrepareQuorum (order : MapOrder E) : Consensus E × Bool :=
  match s.getConsensusLeaderPrivateKey with
  | none => (s, false)
  | some leaderPriKey =>
    match s.construct order .prepared [] [leaderPriKey] with
    | .error _ => (s, false)
    | .ok none => (s.crash, false)
    | .ok (some networkMessage) =>
      let s := { s.emit (.constructed networkMessage.fbftMsg) with aggregatedPrepareSig := none }
      let s := s.addVerifiedMessage networkMessage.fbftMsg
      match E.decodeBlock s.block with
      | none => (s, false)
      | some blockObj =>
        let r := voteWithOwnKeys .commit (E.commitPayload blockObj) (E.blockHash blockObj)
          blockObj.numberU64 s s.priKey
        if !r.2 then r
        else (r.1.emit (.sent networkMessage), true)

/-- The checks of `onPrepare` before anything is written (consensus/leader.go:99-161): the
    deserialized signature when all pass. A message without a matching announcement is only
    logged, and neither the block number nor the view is compared. -/
def prepareChecks (recvMsg : FBFTMessage E) : Option E.Sign :=
  if recvMsg.senderPubkeys.any fun signer =>
      (s.decider.readBallot .prepare signer.bytes).isSome then
    none
  else if s.decider.isQuorumAchieved .prepare then none
  else
    match E.bls.deserialize recvMsg.payload with
    | none => none
    | some sign =>
      if !E.bls.verifyHash sign (signerPubKey recvMsg) s.blockHash.toList then none
      else some sign

/-- `onPrepare` (consensus/leader.go:99-193). -/
def onPrepare (order : MapOrder E) (recvMsg : FBFTMessage E) : Consensus E :=
  match s.prepareChecks recvMsg with
  | none => s
  | some sign =>
    match s.decider.addNewVote .prepare recvMsg.senderPubkeys sign recvMsg.blockHash
        recvMsg.blockNum recvMsg.viewID with
    | .error _ => s
    | .ok (decider, _) =>
      let s := { s with decider := decider }
      match E.masks.setKeysAtomic s.prepareBitmap recvMsg.senderPubkeys true with
      | none => s
      | some mask =>
        let s := { s with prepareBitmap := mask }
        if s.decider.isQuorumAchieved .prepare then
          let r := s.didReachPrepareQuorum order
          if !r.2 then r.1 else { r.1 with phase := .commit }
        else s

/-! ## Double signing -/

/-- `couldThisBeADoubleSigner` (consensus/double_sign.go:136-150). -/
def couldThisBeADoubleSigner (recvMsg : FBFTMessage E) : Bool :=
  !s.fbftLog.hasMatchingAnnounce s.blockNum recvMsg.blockHash ||
    !s.fbftLog.hasMatchingPrepared s.blockNum recvMsg.blockHash

/-- `bytes.Compare(a, b) <= 0`. -/
def bytesLe (a b : SerializedPublicKey) : Prop := a.toList ≤ b.toList

instance : DecidableRel bytesLe := fun a b => inferInstanceAs (Decidable (a.toList ≤ b.toList))

variable (s : Consensus E)

/-- The record that `checkDoubleSign` sends for one key with a ballot already cast
    (consensus/double_sign.go:35-123). `none` is the early `return true`; `some none` goes on
    without a record, because the address was reported before. -/
def slashRecord (recvMsg : FBFTMessage E) (pubKey2 : SerializedPublicKey)
    (alreadyCastBallot : Ballot) (addrSet : List Address) : Option (Option SlashRecord) := do
  let doubleSign ← E.bls.deserialize recvMsg.payload
  let curEpoch := E.epoch (E.currentHeader s.blockchain)
  let committee ← E.readShardState s.blockchain curEpoch
  let subComm ← E.findCommitteeByID committee s.shardID
  let addr ← E.addressForBLSKey subComm pubKey2
  if addr ∈ addrSet then return none
  let leaderAddr ← E.addressForBLSKey subComm s.leaderPubKey.bytes
  return some {
    firstVote := ⟨alreadyCastBallot.signerPubKeys.insertionSort bytesLe,
      alreadyCastBallot.blockHeaderHash, alreadyCastBallot.signature⟩
    secondVote := ⟨(recvMsg.senderPubkeys.map (·.bytes)).insertionSort bytesLe,
      recvMsg.blockHash, E.bls.serialize doubleSign⟩
    epoch := curEpoch
    shardID := s.shardID
    height := recvMsg.blockNum
    viewID := recvMsg.viewID
    offender := addr
    reporter := leaderAddr }

/-- The loops of `checkDoubleSign` (consensus/double_sign.go:18-129): for each key with a
    ballot that it signed itself, the first logged block of that height with another hash is
    evidence. -/
def slashLoop (s : Consensus E) (order : MapOrder E) (recvMsg : FBFTMessage E) :
    List SerializedPublicKey → List Address → List SlashRecord → List SlashRecord
  | [], _, records => records
  | pubKey2 :: rest, addrSet, records =>
    match s.decider.readBallot .commit pubKey2 with
    | none => slashLoop s order recvMsg rest addrSet records
    | some ballot =>
      let conflicting := (s.fbftLog.getBlocksByNumber order.blocks recvMsg.blockNum).any
        fun blk => E.headerHash blk.header != recvMsg.blockHash
      if pubKey2 ∈ ballot.signerPubKeys ∧ conflicting then
        match s.slashRecord recvMsg pubKey2 ballot addrSet with
        | none => records
        | some none => slashLoop s order recvMsg rest addrSet records
        | some (some record) =>
          slashLoop s order recvMsg rest (record.offender :: addrSet) (record :: records)
      else slashLoop s order recvMsg rest addrSet records

/-- `checkDoubleSign` (consensus/double_sign.go:16-134): the new state, and whether the
    message is suspicious. -/
def checkDoubleSign (order : MapOrder E) (recvMsg : FBFTMessage E) : Consensus E × Bool :=
  if s.couldThisBeADoubleSigner recvMsg then
    let records := s.slashLoop order recvMsg (recvMsg.senderPubkeys.map (·.bytes)) [] []
    (records.foldr (fun record s => s.emit (.slash record)) s, true)
  else (s, false)

/-! ## Commit votes -/

/-- The checks of `onCommit` before anything is written (consensus/leader.go:195-261): the
    deserialized signature and the block when all pass. -/
def commitChecks (recvMsg : FBFTMessage E) : Option (E.Sign × Block) :=
  if !s.isRightBlockNumAndViewID recvMsg then none
  else if recvMsg.senderPubkeys.any fun signer =>
      (s.decider.readBallot .commit signer.bytes).isSome then
    none
  else
    match E.bls.deserialize recvMsg.payload with
    | none => none
    | some sign =>
      match s.fbftLog.getBlockByHash recvMsg.blockHash with
      | none => none
      | some blockObj =>
        if !E.bls.verifyHash sign (signerPubKey recvMsg) (E.commitPayload blockObj) then none
        else some (sign, blockObj)

/-- What `onCommit` does after the vote is recorded (consensus/leader.go:283-324). -/
def afterCommitVote (order : MapOrder E) (quorumWasMet : Bool) (blockObj : Block) : Consensus E :=
  if s.decider.isAllSigsCollected then s.finalCommit order
  else if !quorumWasMet && s.decider.isQuorumAchieved .commit then
    let viewID := s.blockViewID
    let s :=
      if !E.isLastBlockInEpoch blockObj.header then s.preCommitAndPropose order blockObj
      else s
    s.spawn (.gracePeriod viewID)
  else s

/-- `onCommit` (consensus/leader.go:195-324). -/
def onCommit (order : MapOrder E) (recvMsg : FBFTMessage E) : Consensus E :=
  match s.commitChecks recvMsg with
  | none => s
  | some (sign, blockObj) =>
    let quorumWasMet := s.decider.isQuorumAchieved .commit
    let r := s.checkDoubleSign order recvMsg
    if r.2 then r.1
    else
      let s := r.1
      match s.decider.addNewVote .commit recvMsg.senderPubkeys sign recvMsg.blockHash
          recvMsg.blockNum 0 with
      | .error _ => s
      | .ok (decider, _) =>
        let s := { s with decider := decider }
        match E.masks.setKeysAtomic s.commitBitmap recvMsg.senderPubkeys true with
        | none => s
        | some mask => { s with commitBitmap := mask }.afterCommitVote order quorumWasMet blockObj

/-- The end of the grace period (consensus/leader.go:312-317). The view never changes, so the
    comparison does not tell rounds apart. -/
def runGracePeriod (order : MapOrder E) (viewID : UInt64) : Consensus E :=
  if viewID == s.blockViewID then s.finalCommit order else s

end Consensus

end Benzene
