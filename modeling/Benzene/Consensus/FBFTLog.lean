import Benzene.Common.GoMap
import Benzene.External.Env

/-!
# The FBFT log

`FBFTLog` (consensus/fbft_log.go): the blocks and messages a node keeps while it agrees on
a block.  Blocks are stored under their header hash, messages under `fbftMsgID`.

The functions that return the messages or blocks a `range` over a map finds take the order
of the iteration as an argument.
-/

namespace Benzene

variable {E : Env}

/-- `FBFTMessage` (consensus/fbft_log.go:20-37). The fields for view changes are never
    set. -/
structure FBFTMessage (E : Env) where
  messageType : MessageType
  viewID : UInt64
  blockNum : UInt64
  blockHash : Hash
  block : Bytes
  senderPubkeys : List E.PubKey
  senderPubkeyBitmap : Bytes
  payload : Bytes
  verified : Bool

/-- `HasSingleSender` (consensus/fbft_log.go:65-67). -/
def FBFTMessage.hasSingleSender (m : FBFTMessage E) : Bool := m.senderPubkeys.length == 1

/-- `fbftMsgID` (consensus/fbft_log.go:69-81): the four parts that the byte array
    concatenates. -/
structure FBFTMsgID where
  messageType : MessageType
  viewID : UInt64
  blockHash : Hash
  sender : ByteArr 48
deriving DecidableEq

/-- `id` (consensus/fbft_log.go:85-99). -/
def FBFTMessage.id (m : FBFTMessage E) : FBFTMsgID where
  messageType := m.messageType
  viewID := m.viewID
  blockHash := m.blockHash
  sender :=
    match m.senderPubkeys with
    | [k] => k.bytes
    | _ => copyBytes 48 m.senderPubkeyBitmap

/-- `FBFTLog` (consensus/fbft_log.go:102-109). -/
structure FBFTLog (E : Env) where
  blocks : GoMap Hash Block
  verifiedBlocks : GoMap Hash Unit
  messages : GoMap FBFTMsgID (FBFTMessage E)

namespace FBFTLog

/-- `NewFBFTLog` (consensus/fbft_log.go:112-119). -/
def newFBFTLog : FBFTLog E := ⟨∅, ∅, ∅⟩

/-! ## Blocks -/

variable (log : FBFTLog E)

/-- `AddBlock` (consensus/fbft_log.go:122-127). -/
def addBlock (block : Block) : FBFTLog E :=
  { log with blocks := log.blocks.insert (E.blockHash block) block }

/-- `MarkBlockVerified` (consensus/fbft_log.go:130-135). -/
def markBlockVerified (block : Block) : FBFTLog E :=
  { log with verifiedBlocks := log.verifiedBlocks.insert (E.blockHash block) () }

/-- `IsBlockVerified` (consensus/fbft_log.go:138-144). -/
def isBlockVerified (block : Block) : Bool :=
  (log.verifiedBlocks.lookup (E.blockHash block)).isSome

/-- `GetBlockByHash` (consensus/fbft_log.go:147-152). -/
def getBlockByHash (hash : Hash) : Option Block := log.blocks.lookup hash

/-- `GetBlocksByNumber` (consensus/fbft_log.go:155-166). -/
def getBlocksByNumber (order : List Block → List Block) (number : UInt64) : List Block :=
  order ((GoMap.values log.blocks).filter fun block => block.numberU64 == number)

/-- `DeleteBlocksLessThan` (consensus/fbft_log.go:169-179). -/
def deleteBlocksLessThan (number : UInt64) : FBFTLog E :=
  { log with
    blocks := GoMap.filter (fun _ block => !decide (block.numberU64 < number)) log.blocks
    verifiedBlocks := GoMap.filter
      (fun h _ => !(log.blocks.lookup h).any fun block => decide (block.numberU64 < number))
      log.verifiedBlocks }

/-! ## Messages -/

/-- `DeleteMessagesLessThan` (consensus/fbft_log.go:195-204). -/
def deleteMessagesLessThan (number : UInt64) : FBFTLog E :=
  { log with
    messages := GoMap.filter (fun _ msg => !decide (msg.blockNum < number)) log.messages }

/-- `AddVerifiedMessage` (consensus/fbft_log.go:207-214). -/
def addVerifiedMessage (msg : FBFTMessage E) : FBFTLog E :=
  { log with messages := log.messages.insert msg.id { msg with verified := true } }

/-- `AddNotVerifiedMessage` (consensus/fbft_log.go:217-224). -/
def addNotVerifiedMessage (msg : FBFTMessage E) : FBFTLog E :=
  { log with messages := log.messages.insert msg.id { msg with verified := false } }

/-- The messages that a `range` over the log collects. -/
def findMessages (p : FBFTMessage E → Bool) : List (FBFTMessage E) :=
  (GoMap.values log.messages).filter p

/-- `GetNotVerifiedCommittedMessages` (consensus/fbft_log.go:227-238). -/
def getNotVerifiedCommittedMessages (blockNum viewID : UInt64) (blockHash : Hash) :
    List (FBFTMessage E) :=
  log.findMessages fun msg => msg.messageType == .committed && msg.blockNum == blockNum &&
    msg.viewID == viewID && msg.blockHash == blockHash && !msg.verified

/-- `GetMessagesByTypeSeqViewHash` (consensus/fbft_log.go:241-252). -/
def getMessagesByTypeSeqViewHash (typ : MessageType) (blockNum viewID : UInt64) (blockHash : Hash) :
    List (FBFTMessage E) :=
  log.findMessages fun msg => msg.messageType == typ && msg.blockNum == blockNum &&
    msg.viewID == viewID && msg.blockHash == blockHash && msg.verified

/-- `GetMessagesByTypeSeq` (consensus/fbft_log.go:255-266). -/
def getMessagesByTypeSeq (typ : MessageType) (blockNum : UInt64) : List (FBFTMessage E) :=
  log.findMessages fun msg => msg.messageType == typ && msg.blockNum == blockNum && msg.verified

/-- `GetMessagesByTypeSeqHash` (consensus/fbft_log.go:269-280). -/
def getMessagesByTypeSeqHash (typ : MessageType) (blockNum : UInt64) (blockHash : Hash) :
    List (FBFTMessage E) :=
  log.findMessages fun msg => msg.messageType == typ && msg.blockNum == blockNum &&
    msg.blockHash == blockHash && msg.verified

/-- `HasMatchingAnnounce` (consensus/fbft_log.go:283-286). -/
def hasMatchingAnnounce (blockNum : UInt64) (blockHash : Hash) : Bool :=
  decide (1 ≤ (log.getMessagesByTypeSeqHash .announce blockNum blockHash).length)

/-- `HasMatchingViewAnnounce` (consensus/fbft_log.go:289-292). -/
def hasMatchingViewAnnounce (blockNum viewID : UInt64) (blockHash : Hash) : Bool :=
  decide (1 ≤ (log.getMessagesByTypeSeqViewHash .announce blockNum viewID blockHash).length)

/-- `HasMatchingPrepared` (consensus/fbft_log.go:295-298). -/
def hasMatchingPrepared (blockNum : UInt64) (blockHash : Hash) : Bool :=
  decide (1 ≤ (log.getMessagesByTypeSeqHash .prepared blockNum blockHash).length)

/-- `GetMessagesByTypeSeqView` (consensus/fbft_log.go:307-319). The condition skips a
    message of another view only when it is verified. -/
def getMessagesByTypeSeqView (typ : MessageType) (blockNum viewID : UInt64) :
    List (FBFTMessage E) :=
  log.findMessages fun msg => !(msg.messageType != typ || msg.blockNum != blockNum ||
    msg.viewID != viewID && msg.verified)

/-- `GetCommittedBlockAndMsgsFromNumber` (consensus/fbft_log.go:378-401): the first message,
    in the order of the iteration, whose block is in the log. -/
def getCommittedBlockAndMsgsFromNumber (order : List (FBFTMessage E) → List (FBFTMessage E))
    (bn : UInt64) : Option (Block × FBFTMessage E) :=
  (order (log.getMessagesByTypeSeq .committed bn)).findSome? fun msg =>
    (log.getBlockByHash msg.blockHash).map fun block => (block, msg)

/-- `PruneCacheBeforeBlock` (consensus/fbft_log.go:404-407). `bn - 1` wraps at zero. -/
def pruneCacheBeforeBlock (bn : UInt64) : FBFTLog E :=
  (log.deleteBlocksLessThan (bn - 1)).deleteMessagesLessThan (bn - 1)

end FBFTLog

end Benzene
