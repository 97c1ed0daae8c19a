import Benzene.Common.Bytes

/-!
# Wire messages

The protobuf messages of api/proto/message/message.proto that consensus exchanges.  The
`ViewChangeRequest` alternative of the request is never built or read (the view change
code is commented out), so a message either carries a consensus request or none.
-/

namespace Benzene

/-- `ServiceType` (api/proto/message/message.proto:11-14). -/
inductive ServiceType
  | consensus
  | clientSupport
deriving DecidableEq

/-- `MessageType` (api/proto/message/message.proto:17-25). -/
inductive MessageType
  | announce
  | prepare
  | prepared
  | commit
  | committed
  | viewchange
  | newview
deriving DecidableEq

/-- `ConsensusRequest` (api/proto/message/message.proto:47-56). -/
structure ConsensusRequest where
  viewId : UInt64 := 0
  blockNum : UInt64 := 0
  shardId : UInt64 := 0
  blockHash : Bytes := []
  block : Bytes := []
  senderPubkey : Bytes := []
  payload : Bytes := []
  senderPubkeyBitmap : Bytes := []
deriving DecidableEq

/-- `Message` (api/proto/message/message.proto:32-40). -/
structure Message where
  serviceType : ServiceType
  type : MessageType
  signature : Bytes
  /-- `GetConsensus()`, nil when the request is of another kind. -/
  consensus : Option ConsensusRequest
deriving DecidableEq

end Benzene
