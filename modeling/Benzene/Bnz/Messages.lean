import Benzene.Consensus.Concrete

/-!
# Messages from the network

The validator that `startMessageHandle` registers for a topic (bnz/backend.go:405-481),
`HandleNodeMessage` (bnz/handler.go:27-64), and the consensus handler up to the parsed message.

An index or slice outside a byte string and a nil dereference end the process: the functions
return `none` then.  Protobuf and RLP decoding are parameters.

`receive_safe_iff` says for which byte strings the node survives: not for one of exactly five
bytes, since the length check lets it through to an empty slice, and not for a consensus message
that passes the checks without a consensus request, since `ParseFBFTMessage` reads the fields of
one.
-/

namespace Benzene

/-! ## Byte strings -/

/-- `bs[i]`. -/
def index (bs : Bytes) (i : ℕ) : Option UInt8 := bs[i]?

/-- `bs[n:]`. -/
def sliceFrom (bs : Bytes) (n : ℕ) : Option Bytes :=
  if n ≤ bs.length then some (bs.drop n) else none

theorem index_isSome {bs : Bytes} {i : ℕ} : (index bs i).isSome ↔ i < bs.length := by
  simp [index]

theorem sliceFrom_of_le {bs : Bytes} {n : ℕ} (h : n ≤ bs.length) :
    sliceFrom bs n = some (bs.drop n) := if_pos h

/-- `p2pMsgPrefixSize` (bnz/handler.go:18). -/
def p2pMsgPrefixSize : ℕ := 5

/-- `MessageCategoryBytes` (api/proto/common.go:37). -/
def messageCategoryBytes : ℕ := 1

/-- `MessageTypeBytes` (api/proto/common.go:39). -/
def messageTypeBytes : ℕ := 1

/-- `p2pNodeMsgPrefixSize` (bnz/handler.go:19). -/
def p2pNodeMsgPrefixSize : ℕ := messageTypeBytes + messageCategoryBytes

/-- `MessageCategory` (api/proto/common.go:27-33). -/
inductive MessageCategory
  | consensus
  | node
  | unknown (b : UInt8)
deriving DecidableEq

def MessageCategory.ofByte (b : UInt8) : MessageCategory :=
  if b = 0 then .consensus else if b = 1 then .node else .unknown b

/-- `MessageType` of a node message (api/proto/node/node.go:12-18). -/
inductive NodeMessageType
  | transaction
  | block
  | unknown (b : UInt8)
deriving DecidableEq

def NodeMessageType.ofByte (b : UInt8) : NodeMessageType :=
  if b = 0 then .transaction else if b = 1 then .block else .unknown b

/-- The decoders: `protobuf.Unmarshal`, and `rlp.Decode` of transactions and of blocks. -/
structure Decoders where
  unmarshal : Bytes → Option Message
  decodeTransactions : Bytes → Option (List Transaction)
  decodeBlocks : Bytes → Option (List Block)

/-! ## The topic validator -/

/-- `validated` (bnz/backend.go:379-387): the handler of a message and its arguments. -/
inductive Validated
  | consensus (handleCArg : Message) (senderPubKey : SerializedPublicKey)
  | node (handleEArg : Bytes) (actionType : NodeMessageType)

/-- What the validator puts on `errChan`. -/
inductive ValidateError
  | consensusMessageOnUnexpectedTopic
  | unmarshal
  | invalidNodeMsg
deriving DecidableEq

/-- `ValidationResult`, with the validator data of an accepted message and the reported error of a
    rejected one. -/
inductive ValidationResult
  | accept (data : Validated)
  | reject (err : Option ValidateError)

/-- `validateShardBoundMessage` (bnz/backend.go:600-615). The sender key is always the zero key,
    and `ignore` is only set together with an error. -/
def validateShardBoundMessage (D : Decoders) (payload : Bytes) :
    Except ValidateError (Message × SerializedPublicKey) :=
  match D.unmarshal payload with
  | none => .error .unmarshal
  | some m => .ok (m, zeroBytes 48)

/-- `validateNodeMessage` (bnz/backend.go:619-633). -/
def validateNodeMessage (payload : Bytes) :
    Option (Except ValidateError (Bytes × NodeMessageType)) := do
  let b ← index payload messageCategoryBytes
  match NodeMessageType.ofByte b with
  | .unknown _ => return .error .invalidNodeMsg
  | msgType =>
    let rest ← sliceFrom payload p2pNodeMsgPrefixSize
    return .ok (rest, msgType)

/-- The switch over the category of a message (bnz/backend.go:416-479). -/
def validateOpenBox (D : Decoders) (isConsensusBound : Bool) (openBox : Bytes) :
    Option ValidationResult := do
  let category ← index openBox (messageCategoryBytes - 1)
  match MessageCategory.ofByte category with
  | .consensus =>
    if !isConsensusBound then return .reject (some .consensusMessageOnUnexpectedTopic)
    else
      let payload ← sliceFrom openBox messageCategoryBytes
      match validateShardBoundMessage D payload with
      | .error err => return .reject (some err)
      | .ok (validMsg, senderPubKey) => return .accept (.consensus validMsg senderPubKey)
  | .node =>
    if openBox.length ≤ p2pNodeMsgPrefixSize then return .reject none
    else
      match ← validateNodeMessage openBox with
      | .error err => return .reject (some err)
      | .ok (validMsg, actionType) => return .accept (.node validMsg actionType)
  | .unknown _ => return .reject none

/-- The validator of a topic (bnz/backend.go:405-481). -/
def validateTopicMessage (D : Decoders) (isConsensusBound : Bool) (bnzMsg : Bytes) :
    Option ValidationResult :=
  if bnzMsg.length < p2pMsgPrefixSize then some (.reject none)
  else do
    let openBox ← sliceFrom bnzMsg p2pMsgPrefixSize
    validateOpenBox D isConsensusBound openBox

/-! ## The handlers -/

/-- What a node message asks for. -/
inductive NodeRequest
  | addPendingTransactions (txs : List Transaction)
  | sync (blocks : List Block)
  /-- The message is logged or dropped. -/
  | nothing

/-- `transactionMessageHandler` (bnz/handler.go:51-64). -/
def transactionMessageHandler (D : Decoders) (msgPayload : Bytes) : Option NodeRequest := do
  let txMessageType ← index msgPayload 0
  if txMessageType = 0 then
    let rest ← sliceFrom msgPayload 1
    match D.decodeTransactions rest with
    | none => return .nothing
    | some txs => return .addPendingTransactions txs
  else return .nothing

/-- `HandleNodeMessage` (bnz/handler.go:27-49). -/
def handleNodeMessage (D : Decoders) (msgPayload : Bytes) : NodeMessageType → Option NodeRequest
  | .transaction => transactionMessageHandler D msgPayload
  | .block => do
    let blockMsgType ← index msgPayload 0
    if blockMsgType = 0 then
      let rest ← sliceFrom msgPayload 1
      match D.decodeBlocks rest with
      | none => return .nothing
      | some blocks => return .sync blocks
    else return .nothing
  | .unknown _ => some .nothing

variable {E : Env}

/-- `HandleMessageUpdate` up to the parsed message (consensus/consensus.go:768-810). -/
def Consensus.parseUpdate (s : Consensus E) (msg : Message) (senderKey : SerializedPublicKey) :
    Option (Except HandleError (FBFTMessage E)) :=
  match s.messageChecks msg senderKey with
  | some err => some (.error err)
  | none =>
    match s.parseFBFTMessage msg with
    | .error .nilRequest => none
    | .error err => some (.error (.parse err))
    | .ok fbftMsg => some (.ok fbftMsg)

/-- The handler of consensus messages ends the process, returns an error, or routes the parsed
    message. -/
theorem Consensus.handleMessageUpdate_eq (s : Consensus E) (order : MapOrder E) (msg : Message)
    (senderKey : SerializedPublicKey) :
    s.handleMessageUpdate order msg senderKey =
      match s.parseUpdate msg senderKey with
      | none => (s.crash, none)
      | some (.error err) => (s, some err)
      | some (.ok fbftMsg) => (s.route order msg fbftMsg, none) := by
  unfold handleMessageUpdate parseUpdate
  cases s.messageChecks msg senderKey with
  | some err => rfl
  | none =>
    cases s.parseFBFTMessage msg with
    | ok m => rfl
    | error err => cases err <;> rfl

/-- What becomes of a message. -/
inductive Received (E : Env)
  | rejected (err : Option ValidateError)
  | consensus (result : Except HandleError (FBFTMessage E))
  | node (request : NodeRequest)

/-- A byte string from a subscribed topic: it is validated and, when it is accepted, handled. -/
def receive (D : Decoders) (s : Consensus E) (isConsensusBound : Bool) (bnzMsg : Bytes) :
    Option (Received E) := do
  match ← validateTopicMessage D isConsensusBound bnzMsg with
  | .reject err => return .rejected err
  | .accept (.consensus msg senderKey) => return .consensus (← s.parseUpdate msg senderKey)
  | .accept (.node payload actionType) => return .node (← handleNodeMessage D payload actionType)

/-! ## Which byte strings are safe -/

/-- The byte string carries the consensus message `m` on a topic for consensus. -/
structure CarriesConsensus (D : Decoders) (isConsensusBound : Bool) (bnzMsg : Bytes) (m : Message) :
    Prop where
  bound : isConsensusBound = true
  category : bnzMsg[5]? = some 0
  unmarshal : D.unmarshal (bnzMsg.drop 6) = some m

/-- A node message that passes the length check has a type and a payload of at least a byte. -/
theorem validateNodeMessage_spec {openBox : Bytes} (h : 2 < openBox.length) :
    (∃ err, validateNodeMessage openBox = some (.error err)) ∨
    ∃ payload actionType, payload ≠ [] ∧
      validateNodeMessage openBox = some (.ok (payload, actionType)) := by
  obtain ⟨b, hb⟩ := Option.isSome_iff_exists.1 (index_isSome.2 (by omega : 1 < openBox.length))
  have hpayload : openBox.drop 2 ≠ [] := List.ne_nil_of_length_pos (by simpa using h)
  have hslice : sliceFrom openBox 2 = some (openBox.drop 2) := sliceFrom_of_le h.le
  simp only [validateNodeMessage, messageCategoryBytes, p2pNodeMsgPrefixSize, messageTypeBytes, hb,
    hslice, Option.bind_eq_bind, Option.bind_some]
  split
  · exact Or.inl ⟨_, rfl⟩
  · exact Or.inr ⟨_, _, hpayload, rfl⟩

/-- An open box with a category byte is rejected, or it is accepted as a consensus message or as a
    node message. -/
theorem validateOpenBox_cons (D : Decoders) (isConsensusBound : Bool) (c : UInt8) (rest : Bytes) :
    (∃ m, isConsensusBound = true ∧ c = 0 ∧ D.unmarshal rest = some m ∧
      validateOpenBox D isConsensusBound (c :: rest) =
        some (.accept (.consensus m (zeroBytes 48)))) ∨
    (∀ m, isConsensusBound = true → c = 0 → D.unmarshal rest ≠ some m) ∧
      ((∃ err, validateOpenBox D isConsensusBound (c :: rest) = some (.reject err)) ∨
      ∃ payload actionType, payload ≠ [] ∧ validateOpenBox D isConsensusBound (c :: rest) =
        some (.accept (.node payload actionType))) := by
  have hindex : index (c :: rest) (messageCategoryBytes - 1) = some c := rfl
  have hslice : sliceFrom (c :: rest) messageCategoryBytes = some rest :=
    sliceFrom_of_le (by simp [messageCategoryBytes])
  simp only [validateOpenBox, hindex, hslice, Option.bind_eq_bind, Option.bind_some]
  unfold MessageCategory.ofByte
  by_cases hc : c = 0
  · rw [if_pos hc]
    cases isConsensusBound with
    | false => exact Or.inr ⟨fun m h => Bool.noConfusion h, Or.inl ⟨_, rfl⟩⟩
    | true =>
      unfold validateShardBoundMessage
      cases hm : D.unmarshal rest with
      | none => exact Or.inr ⟨fun m _ _ => Option.some_ne_none m |>.symm, Or.inl ⟨_, rfl⟩⟩
      | some m => exact Or.inl ⟨m, rfl, hc, rfl, rfl⟩
  · refine Or.inr ⟨fun m _ h => absurd h hc, ?_⟩
    rw [if_neg hc]
    by_cases hnode : c = 1
    · rw [if_pos hnode]
      dsimp only
      split_ifs with hshort
      · exact Or.inl ⟨_, rfl⟩
      · rcases validateNodeMessage_spec (not_le.1 hshort) with ⟨err, herr⟩ | ⟨payload, actionType,
          hne, hok⟩
        · rw [herr]
          exact Or.inl ⟨_, rfl⟩
        · rw [hok]
          exact Or.inr ⟨payload, actionType, hne, rfl⟩
    · rw [if_neg hnode]
      exact Or.inl ⟨_, rfl⟩

/-- The validator ends the process, rejects, or accepts a consensus message or a node message. -/
theorem validateTopicMessage_cases (D : Decoders) (isConsensusBound : Bool) (bnzMsg : Bytes) :
    bnzMsg.length = 5 ∧ validateTopicMessage D isConsensusBound bnzMsg = none ∨
    bnzMsg.length ≠ 5 ∧
      ((∃ m, CarriesConsensus D isConsensusBound bnzMsg m ∧
        validateTopicMessage D isConsensusBound bnzMsg =
          some (.accept (.consensus m (zeroBytes 48)))) ∨
      (∀ m, ¬CarriesConsensus D isConsensusBound bnzMsg m) ∧
        ((∃ err, validateTopicMessage D isConsensusBound bnzMsg = some (.reject err)) ∨
        ∃ payload actionType, payload ≠ [] ∧
          validateTopicMessage D isConsensusBound bnzMsg =
            some (.accept (.node payload actionType)))) := by
  rcases lt_trichotomy bnzMsg.length 5 with hlt | heq | hgt
  · refine Or.inr ⟨hlt.ne, Or.inr ⟨fun m hm => ?_, Or.inl ⟨none, if_pos hlt⟩⟩⟩
    have hnone : bnzMsg[5]? = none := List.getElem?_eq_none hlt.le
    rw [hm.category] at hnone
    cases hnone
  · -- the check lets five bytes through, and the open box is empty
    have hempty : bnzMsg.drop 5 = [] := List.drop_eq_nil_of_le heq.le
    refine Or.inl ⟨heq, ?_⟩
    simp [validateTopicMessage, p2pMsgPrefixSize, heq, sliceFrom, hempty, validateOpenBox, index]
  · have hbox : bnzMsg.drop 5 = bnzMsg[5] :: bnzMsg.drop 6 := List.drop_eq_getElem_cons hgt
    have hget : bnzMsg[5]? = some bnzMsg[5] := List.getElem?_eq_getElem hgt
    have hvalidate : validateTopicMessage D isConsensusBound bnzMsg =
        validateOpenBox D isConsensusBound (bnzMsg[5] :: bnzMsg.drop 6) := by
      unfold validateTopicMessage p2pMsgPrefixSize
      rw [if_neg hgt.not_gt, sliceFrom_of_le hgt.le, hbox]
      rfl
    rw [hvalidate]
    refine Or.inr ⟨hgt.ne', ?_⟩
    rcases validateOpenBox_cons D isConsensusBound bnzMsg[5] (bnzMsg.drop 6) with
      ⟨m, hbound, hzero, hm, heq⟩ | ⟨hnone, hrest⟩
    · exact Or.inl ⟨m, ⟨hbound, hget.trans (congrArg some hzero), hm⟩, heq⟩
    · refine Or.inr ⟨fun m hm => hnone m hm.bound ?_ hm.unmarshal, hrest⟩
      exact Option.some.inj (hget.symm.trans hm.category)

theorem handleNodeMessage_isSome (D : Decoders) {payload : Bytes} (h : payload ≠ [])
    (actionType : NodeMessageType) : (handleNodeMessage D payload actionType).isSome := by
  obtain ⟨b, rest, rfl⟩ := List.exists_cons_of_ne_nil h
  have hindex : index (b :: rest) 0 = some b := rfl
  have hslice : sliceFrom (b :: rest) 1 = some rest := sliceFrom_of_le (by simp)
  cases actionType with
  | transaction =>
    simp only [handleNodeMessage, transactionMessageHandler, hindex, hslice, Option.bind_eq_bind,
      Option.bind_some]
    split_ifs
    · cases D.decodeTransactions rest <;> rfl
    · rfl
  | block =>
    simp only [handleNodeMessage, hindex, hslice, Option.bind_eq_bind, Option.bind_some]
    split_ifs
    · cases D.decodeBlocks rest <;> rfl
    · rfl
  | unknown b => rfl

theorem parseSenders_ne_nilRequest (s : Consensus E) (req : ConsensusRequest) :
    s.parseSenders req ≠ .error .nilRequest := by
  unfold Consensus.parseSenders
  split_ifs
  · split <;> simp
  · split <;> simp

/-- The parser dereferences nil exactly when a message that passes the checks has no consensus
    request. -/
theorem parseUpdate_eq_none_iff (s : Consensus E) (msg : Message)
    (senderKey : SerializedPublicKey) : s.parseUpdate msg senderKey = none ↔
      s.messageChecks msg senderKey = none ∧ msg.consensus = none := by
  unfold Consensus.parseUpdate
  cases s.messageChecks msg senderKey with
  | some err => simp
  | none =>
    cases hreq : msg.consensus with
    | none => simp [Consensus.parseFBFTMessage, hreq]
    | some req =>
      simp only [Consensus.parseFBFTMessage, hreq]
      cases hsenders : s.parseSenders req with
      | ok keys => simp
      | error err =>
        have hne : err ≠ .nilRequest := fun h => parseSenders_ne_nilRequest s req (h ▸ hsenders)
        cases err <;> simp at hne ⊢

/-- **Messages from the network.**  For every byte string on a subscribed topic and every state of
    consensus, the node validates and handles it, up to the parsed message, without an index
    outside the string and without a nil dereference, exactly when the string does not have five
    bytes and does not carry a consensus message that passes the checks and has no consensus
    request. -/
theorem receive_safe_iff (D : Decoders) (s : Consensus E) (isConsensusBound : Bool)
    (bnzMsg : Bytes) :
    (receive D s isConsensusBound bnzMsg).isSome ↔
      bnzMsg.length ≠ 5 ∧ ¬∃ m, CarriesConsensus D isConsensusBound bnzMsg m ∧
        s.messageChecks m (zeroBytes 48) = none ∧ m.consensus = none := by
  unfold receive
  rcases validateTopicMessage_cases D isConsensusBound bnzMsg with ⟨hlen, heq⟩ | ⟨hlen,
    ⟨m, hm, heq⟩ | ⟨hnone, ⟨err, heq⟩ | ⟨payload, actionType, hne, heq⟩⟩⟩
  all_goals rw [heq]
  · exact iff_of_false (by simp) fun h => h.1 hlen
  · have honly : (∃ m', CarriesConsensus D isConsensusBound bnzMsg m' ∧
        s.messageChecks m' (zeroBytes 48) = none ∧ m'.consensus = none) ↔
        s.parseUpdate m (zeroBytes 48) = none := by
      rw [parseUpdate_eq_none_iff]
      constructor
      · rintro ⟨m', hm', hrest⟩
        obtain rfl := Option.some.inj (hm.unmarshal.symm.trans hm'.unmarshal)
        exact hrest
      · exact fun hrest => ⟨m, hm, hrest⟩
    rw [honly]
    cases hparse : s.parseUpdate m (zeroBytes 48) <;> simp [hparse, hlen]
  · exact iff_of_true (by simp) ⟨hlen, fun ⟨m, hm, _⟩ => hnone m hm⟩
  · obtain ⟨request, hrequest⟩ :=
      Option.isSome_iff_exists.1 (handleNodeMessage_isSome D hne actionType)
    exact iff_of_true (by simp [hrequest]) ⟨hlen, fun ⟨m, hm, _⟩ => hnone m hm⟩

namespace Concrete

/-- Decoders for the message of type PREPARE without a request, the two bytes of its type field;
    nothing else decodes. -/
def decoders : Decoders where
  unmarshal bs := if bs = [0x10, 0x01] then some ⟨.consensus, .prepare, [], none⟩ else none
  decodeTransactions _ := none
  decodeBlocks _ := none

/-- Five bytes end the process on every topic, and so does a PREPARE without a request on a topic
    for consensus. -/
theorem receive_crashes :
    (receive decoders (node [1] 1 [1, 2, 3, 4] 1) false [0, 0, 0, 0, 0]).isNone = true ∧
    (receive decoders (node [1] 1 [1, 2, 3, 4] 1) true
      [0, 0, 0, 0, 0, 0, 0x10, 0x01]).isNone = true := by
  refine ⟨?_, ?_⟩ <;> decide +kernel

end Concrete

end Benzene
