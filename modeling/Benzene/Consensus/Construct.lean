import Benzene.Consensus.State

/-!
# Parsing, building and checking messages

`ParseFBFTMessage` (consensus/fbft_log.go:338-373), `construct` (consensus/construct.go),
the signature check of an incoming message and the sanity checks (consensus/checks.go), and
the certificate reader (internal/chain/sig.go).

Results: `construct_single`, a message built with one key either fails in the encoder or
carries that key as its single sender; the path on which `construct` returns neither a
message nor an error is dead for it.
-/

namespace Benzene

/-- Why `ParseFBFTMessage` returns no message; on a missing request it dereferences nil. -/
inductive ParseError
  | nilRequest
  | senderPubkey
  | senderPubkeyBitmap
deriving DecidableEq

/-- Why `construct` returns an error. -/
inductive ConstructError
  | noPrivateKeys
  | marshal
deriving DecidableEq

/-- `MaxBlockNumDiff` (consensus/checks.go:14). -/
def maxBlockNumDiff : UInt64 := 100

variable {E : Env}

/-- `ReadSignatureBitmapByPublicKeys` (internal/chain/sig.go:13-41). A bitmap that `SetMask`
    refuses leaves the mask empty. -/
def readSignatureBitmapByPublicKeys (recvPayload : Bytes) (publicKeys : List E.PubKey) :
    Option (E.Sign × E.Mask) :=
  if recvPayload.length < blsSignatureSizeInBytes then none
  else
    let multiSig := recvPayload.take blsSignatureSizeInBytes
    let bitmap := recvPayload.drop blsSignatureSizeInBytes
    match E.bls.deserialize multiSig with
    | none => none
    | some aggSig =>
      let mask := E.masks.newMask publicKeys
      some (aggSig, (E.masks.setMask mask bitmap).getD mask)

/-- `verifyMessageSig` (consensus/checks.go:18-37): the signature field is cleared for the
    encoding and put back on success. -/
def verifyMessageSig (signerPubKey : E.bls.PublicKey) (message : Message) : Bool :=
  match E.marshal { message with signature := [] } with
  | none => false
  | some messageBytes =>
    match E.bls.deserialize message.signature with
    | none => false
    | some msgSig => E.bls.verifyHash msgSig signerPubKey (E.keccak256 messageBytes).toList

/-- `senderKeySanityChecks` (consensus/checks.go:39-54). -/
def senderKeySanityChecks (msg : Message) (senderKey : SerializedPublicKey) : Bool :=
  match E.bls.bytesToBLSPublicKey senderKey.toList with
  | none => false
  | some pubkey => verifyMessageSig (E := E) pubkey msg

/-- The sum of the keys of the senders, under which a vote is verified; the single key
    itself when there is one. -/
def signerPubKey (recvMsg : FBFTMessage E) : E.bls.PublicKey :=
  (recvMsg.senderPubkeys.map (·.object)).sum

namespace Consensus

variable (s : Consensus E)

/-- `ReadSignatureBitmapPayload` (consensus/consensus_service.go:222-235), with the offset
    zero of every call. -/
def readSignatureBitmapPayload (recvPayload : Bytes) : Option (E.Sign × E.Mask) :=
  if recvPayload.length < blsSignatureSizeInBytes then none
  else readSignatureBitmapByPublicKeys recvPayload s.decider.participants

/-- A signature with a bitmap behind it is read back; a bitmap that does not fit leaves the mask
    empty. -/
theorem readSignatureBitmapPayload_append (sig : E.Sign) (bitmap : Bytes) :
    s.readSignatureBitmapPayload (E.bls.serialize sig ++ bitmap) =
      some (sig, (E.masks.setMask (E.masks.newMask s.decider.participants) bitmap).getD
        (E.masks.newMask s.decider.participants)) := by
  have hlen : (E.bls.serialize sig).length = blsSignatureSizeInBytes := E.bls.serialize_length sig
  have hlong : ¬ (E.bls.serialize sig ++ bitmap).length < blsSignatureSizeInBytes := by
    simp [hlen]
  simp only [readSignatureBitmapPayload, readSignatureBitmapByPublicKeys, if_neg hlong,
    List.take_left' hlen, List.drop_left' hlen, E.bls.deserialize_serialize]

/-! ## Parsing -/

/-- The senders that a request names: the single key when it is populated, else the keys of
    the bitmap. -/
def parseSenders (consensusMsg : ConsensusRequest) : Except ParseError (List E.PubKey) :=
  if consensusMsg.senderPubkey.length != 0 then
    match h : E.bls.bytesToBLSPublicKey consensusMsg.senderPubkey with
    | none => .error .senderPubkey
    | some pubKey =>
      .ok [⟨copyBytes 48 consensusMsg.senderPubkey, pubKey,
        E.bls.bytesToBLSPublicKey_copyBytes _ _ h⟩]
  else
    match E.masks.getSignedPubKeysFromBitmap s.multiSigBitmap consensusMsg.senderPubkeyBitmap with
    | none => .error .senderPubkeyBitmap
    | some pubKeys => .ok pubKeys

/-- `ParseFBFTMessage` (consensus/fbft_log.go:338-373). -/
def parseFBFTMessage (msg : Message) : Except ParseError (FBFTMessage E) :=
  match msg.consensus with
  | none => .error .nilRequest
  | some consensusMsg =>
    match s.parseSenders consensusMsg with
    | .error err => .error err
    | .ok senderPubkeys => .ok {
        messageType := msg.type
        viewID := consensusMsg.viewId
        blockNum := consensusMsg.blockNum
        blockHash := copyBytes 32 consensusMsg.blockHash
        block := consensusMsg.block
        senderPubkeys := senderPubkeys
        senderPubkeyBitmap := consensusMsg.senderPubkeyBitmap
        payload := consensusMsg.payload
        verified := false }

theorem parseFBFTMessage_eq_ok {s : Consensus E} {msg : Message} {m : FBFTMessage E}
    (h : s.parseFBFTMessage msg = .ok m) :
    ∃ req, msg.consensus = some req ∧ s.parseSenders req = .ok m.senderPubkeys ∧
      m.messageType = msg.type ∧ m.blockNum = req.blockNum ∧
      m.blockHash = copyBytes 32 req.blockHash := by
  unfold parseFBFTMessage at h
  split at h
  · cases h
  · rename_i req hreq
    split at h
    · cases h
    · rename_i senders hsenders
      cases h
      exact ⟨req, hreq, hsenders, rfl, rfl, rfl⟩

/-! ## Sanity checks -/

/-- `isRightBlockNumAndViewID` (consensus/checks.go:56-66). -/
def isRightBlockNumAndViewID (recvMsg : FBFTMessage E) : Bool :=
  !(recvMsg.viewID != s.blockViewID || recvMsg.blockNum != s.blockNum)

/-- `isRightBlockNumCheck` (consensus/checks.go:103-117). -/
def isRightBlockNumCheck (recvMsg : FBFTMessage E) : Bool :=
  if recvMsg.blockNum < s.blockNum then false
  else if recvMsg.blockNum - s.blockNum > maxBlockNumDiff then false
  else true

variable (order : MapOrder E)

/-- `onAnnounceSanityChecks` (consensus/checks.go:68-101). A second announcement of the
    leader for another block is only written to the debug log. -/
def onAnnounceSanityChecks (recvMsg : FBFTMessage E) : Bool :=
  let logMsgs := order.messages recvMsg.blockNum
    (s.fbftLog.getMessagesByTypeSeqView .announce recvMsg.blockNum recvMsg.viewID)
  match logMsgs with
  | [] => s.isRightBlockNumCheck recvMsg
  | logMsg :: _ =>
    if !logMsg.hasSingleSender || !recvMsg.hasSingleSender then false
    else s.isRightBlockNumCheck recvMsg

/-- `onPreparedSanityChecks` (consensus/checks.go:119-139). -/
def onPreparedSanityChecks (blockObj : Block) (recvMsg : FBFTMessage E) : Bool :=
  if blockObj.numberU64 != recvMsg.blockNum || decide (recvMsg.blockNum < s.blockNum) then false
  else if E.headerHash blockObj.header != recvMsg.blockHash then false
  else true

/-! ## Building -/

/-- `populateMessageFields` (consensus/construct.go:29-38). -/
def populateMessageFields (request : ConsensusRequest) (blockHash : Bytes) : ConsensusRequest :=
  { request with
    viewId := s.blockViewID
    blockNum := s.blockNum
    shardId := s.shardID
    blockHash := blockHash }

/-- `constructQuorumSigAndBitmap` (consensus/construct.go:160-175). -/
def constructQuorumSigAndBitmap (p : Phase) : Bytes :=
  let aggSig := s.decider.aggregateVotes order.ballots p
  match p with
  | .prepare => E.bls.serialize aggSig ++ E.masks.bitmap s.prepareBitmap
  | .commit => E.bls.serialize aggSig ++ E.masks.bitmap s.commitBitmap
  | .viewChange => []

variable (p : MessageType) (payloadForSign : Bytes)

/-- The request that `construct` fills in before signing the message. -/
def constructRequest (priKeys : List E.PriKey) : ConsensusRequest :=
  let request := s.populateMessageFields {} s.blockHash.toList
  let request := match priKeys with
    | [key] => { request with senderPubkey := key.pub.bytes.toList }
    | _ =>
      let mask := priKeys.foldl (fun mask key => (E.masks.setKey mask key.pub.bytes true).getD mask)
        (E.masks.newMask s.decider.participants)
      { request with senderPubkeyBitmap := E.masks.bitmap mask }
  match p with
  | .announce => { request with payload := s.blockHash.toList }
  | .prepare => { request with
      payload := E.bls.serialize
        (priKeys.map fun key => E.bls.signHash key.pri request.blockHash).sum }
  | .commit => { request with
      payload := E.bls.serialize
        (priKeys.map fun key => E.bls.signHash key.pri payloadForSign).sum }
  | .prepared => { request with
      block := s.block
      payload := s.constructQuorumSigAndBitmap order .prepare }
  | .committed => { request with payload := s.constructQuorumSigAndBitmap order .commit }
  | .viewchange => request
  | .newview => request

/-- `signConsensusMessage` (consensus/consensus_service.go:119-130). -/
def signConsensusMessage (message : Message) (priKey : E.bls.SecretKey) : Option Message :=
  (E.marshal { message with signature := [] }).map fun marshaledMessage =>
    { message with
      signature := E.bls.serialize
        (E.bls.signHash priKey (E.keccak256 marshaledMessage).toList) }

/-- PREPARE and COMMIT are not signed as messages, all others with the first key. -/
def signIfNeeded (message : Message) (priKey : E.bls.SecretKey) : Option Message :=
  match p with
  | .prepare => some message
  | .commit => some message
  | _ => signConsensusMessage (E := E) message priKey

/-- The end of `construct` (consensus/construct.go:128-155): the message is encoded and parsed
    back. A message that does not parse is returned as nil without an error. -/
def marshalAndParse (message : Message) : Except ConstructError (Option (NetworkMessage E)) :=
  match E.marshal message with
  | none => .error .marshal
  | some bytes =>
    match s.parseFBFTMessage message with
    | .error _ => .ok none
    | .ok fbftMsg => .ok (some ⟨p, message, bytes, fbftMsg⟩)

/-- `construct` (consensus/construct.go:61-156). -/
def construct (priKeys : List E.PriKey) : Except ConstructError (Option (NetworkMessage E)) :=
  match priKeys with
  | [] => .error .noPrivateKeys
  | key :: _ =>
    let message : Message :=
      ⟨.consensus, p, [], some (s.constructRequest order p payloadForSign priKeys)⟩
    match signIfNeeded (E := E) p message key.pri with
    | none => .error .marshal
    | some message => s.marshalAndParse p message

/-! ## A message built with one key -/

/-- What `construct` logs when it is called with one key. -/
def ownMessage (key : E.PriKey) :
    FBFTMessage E where
  messageType := p
  viewID := s.blockViewID
  blockNum := s.blockNum
  blockHash := s.blockHash
  block := (s.constructRequest order p payloadForSign [key]).block
  senderPubkeys := [key.pub]
  senderPubkeyBitmap := []
  payload := (s.constructRequest order p payloadForSign [key]).payload
  verified := false

theorem parseSenders_of_key (request : ConsensusRequest) (k : E.PubKey)
    (h : request.senderPubkey = k.bytes.toList) : s.parseSenders request = .ok [k] := by
  obtain ⟨viewId, blockNum, shardId, blockHash, block, senderPubkey, payload, bitmap⟩ := request
  obtain rfl : senderPubkey = k.bytes.toList := h
  unfold parseSenders
  rw [if_pos (by simp)]
  split
  · rename_i hnone
    rw [k.wf] at hnone
    cases hnone
  · rename_i pubKey _
    congr 2
    apply PublicKeyWrapper.eq_of_bytes
    exact copyBytes_toList k.bytes

theorem constructRequest_single (key : E.PriKey) :
    let r := s.constructRequest order p payloadForSign [key]
    r.viewId = s.blockViewID ∧ r.blockNum = s.blockNum ∧ r.blockHash = s.blockHash.toList ∧
      r.senderPubkey = key.pub.bytes.toList ∧ r.senderPubkeyBitmap = [] := by
  cases p <;> exact ⟨rfl, rfl, rfl, rfl, rfl⟩

theorem parseFBFTMessage_own (key : E.PriKey) (service : ServiceType) (signature : Bytes) :
    s.parseFBFTMessage
      ⟨service, p, signature, some (s.constructRequest order p payloadForSign [key])⟩ =
      .ok (s.ownMessage order p payloadForSign key) := by
  obtain ⟨hview, hnum, hhash, hkey, hbits⟩ := constructRequest_single s order p payloadForSign key
  simp only [parseFBFTMessage, parseSenders_of_key s _ _ hkey, hview, hnum, hhash, hbits,
    copyBytes_toList, ownMessage]

theorem signIfNeeded_eq_some {p : MessageType} {message message' : Message}
    {priKey : E.bls.SecretKey} (h : signIfNeeded (E := E) p message priKey = some message') :
    ∃ signature, message' = { message with signature := signature } := by
  unfold signIfNeeded at h
  split at h
  · exact ⟨_, (Option.some.inj h).symm⟩
  · exact ⟨_, (Option.some.inj h).symm⟩
  · simp only [signConsensusMessage, Option.map_eq_some_iff] at h
    obtain ⟨bytes, -, rfl⟩ := h
    exact ⟨_, rfl⟩

theorem marshalAndParse_own (key : E.PriKey) (signature : Bytes) :
    let r := s.marshalAndParse p ⟨.consensus, p, signature,
      some (s.constructRequest order p payloadForSign [key])⟩
    (∃ err, r = .error err) ∨ ∃ network, r = .ok (some network) ∧ network.message.type = p ∧
      network.fbftMsg = s.ownMessage order p payloadForSign key := by
  unfold marshalAndParse
  rw [parseFBFTMessage_own]
  cases E.marshal _ with
  | none => exact Or.inl ⟨_, rfl⟩
  | some bytes => exact Or.inr ⟨_, rfl, rfl, rfl⟩

/-- With one key, `construct` fails in the encoder or returns the message of that key; it
    never returns nil without an error. -/
theorem construct_single (key : E.PriKey) :
    (∃ err, s.construct order p payloadForSign [key] = .error err) ∨
    ∃ network, s.construct order p payloadForSign [key] = .ok (some network) ∧
      network.message.type = p ∧ network.fbftMsg = s.ownMessage order p payloadForSign key := by
  simp only [construct]
  cases hsigned : signIfNeeded (E := E) p _ key.pri with
  | none => exact Or.inl ⟨_, rfl⟩
  | some message =>
    obtain ⟨signature, rfl⟩ := signIfNeeded_eq_some hsigned
    exact marshalAndParse_own s order p payloadForSign key signature

end Consensus

end Benzene
