import Benzene.Consensus.Concrete
import Benzene.Consensus.LeaderSpec

/-!
# A message or an error

`construct` parses the message it has built, and when that fails it returns the nil error of the
encoder (consensus/construct.go:143-148): neither a message nor an error.  With one key the path
is dead.  With several keys the senders are a bitmap over the participants, while the parser reads
it against `multiSigBitmap`, which refuses a bitmap of another length.

* `construct_eq_ok_none_iff`: `construct` returns nil without an error exactly for several keys,
  a message that the encoder takes, and bitmaps of different lengths.
* `safeConstruction_iff`: and then only `constructP2pMessages` is handed the nil.  Its caller
  `broadcastConsensusP2pMessages` dereferences it.
-/

namespace Benzene

variable {E : Env}

namespace Consensus

/-- Exactly one of a message and an error is returned. -/
def MessageOrError (r : Except ConstructError (Option (NetworkMessage E))) : Prop :=
  Xor (∃ network, r = .ok (some network)) (∃ err, r = .error err)

/-- `construct` returns a message or an error, and no caller dereferences a nil message: the four
    of the leader survive, and the messages of `constructP2pMessages` can be sent. -/
structure SafeConstruction (s : Consensus E) (order : MapOrder E) (p : MessageType)
    (payloadForSign : Bytes) (priKeys : List E.PriKey) : Prop where
  construct : MessageOrError (s.construct order p payloadForSign priKeys)
  announce : ∀ block, (s.announce order block).crashed = s.crashed
  didReachPrepareQuorum : (s.didReachPrepareQuorum order).1.crashed = s.crashed
  finalCommit : (s.finalCommit order).crashed = s.crashed
  preCommitAndPropose : ∀ block, (s.preCommitAndPropose order block).crashed = s.crashed
  constructP2pMessages : none ∉ s.constructP2pMessages order p payloadForSign priKeys
  broadcast : (s.broadcastConsensusP2pMessages
    (s.constructP2pMessages order p payloadForSign priKeys)).crashed = s.crashed

/-- The message of `construct` for a list of keys, signed where its type asks for it. -/
def signedMessage (s : Consensus E) (order : MapOrder E) (p : MessageType) (payloadForSign : Bytes)
    (priKeys : List E.PriKey) : Option Message :=
  priKeys.head?.bind fun key => signIfNeeded (E := E) p
    ⟨.consensus, p, [], some (s.constructRequest order p payloadForSign priKeys)⟩ key.pri

/-- Protobuf encodes the message. -/
def Encodes (s : Consensus E) (order : MapOrder E) (p : MessageType) (payloadForSign : Bytes)
    (priKeys : List E.PriKey) : Prop :=
  ((s.signedMessage order p payloadForSign priKeys).bind E.marshal).isSome = true

/-- The bitmap of the senders has the length that the parser expects. -/
def BitmapsAgree (s : Consensus E) : Prop :=
  (s.decider.participants.length + 7) / 8 = (E.masks.bitmap s.multiSigBitmap).length

variable {s : Consensus E} {order : MapOrder E} {p : MessageType} {payloadForSign : Bytes}
  {priKeys : List E.PriKey}

/-! ## Several keys -/

theorem foldl_setKey_publics (priKeys : List E.PriKey) (mask : E.Mask) :
    E.masks.publics (priKeys.foldl
      (fun mask key => (E.masks.setKey mask key.pub.bytes true).getD mask) mask) =
      E.masks.publics mask := by
  induction priKeys generalizing mask with
  | nil => rfl
  | cons key priKeys ih =>
    rw [List.foldl_cons, ih]
    cases hset : E.masks.setKey mask key.pub.bytes true with
    | none => rfl
    | some mask' => exact E.masks.setKey_publics _ _ _ _ hset

/-- With several keys a request names no single sender, and has one bit for each participant. -/
theorem constructRequest_several (s : Consensus E) (order : MapOrder E) (p : MessageType)
    (payloadForSign : Bytes) (hkeys : priKeys.length ≠ 1) :
    (s.constructRequest order p payloadForSign priKeys).senderPubkey = [] ∧
      (s.constructRequest order p payloadForSign priKeys).senderPubkeyBitmap.length =
        (s.decider.participants.length + 7) / 8 := by
  have hbitmap := E.masks.bitmap_length (priKeys.foldl
    (fun mask key => (E.masks.setKey mask key.pub.bytes true).getD mask)
    (E.masks.newMask s.decider.participants))
  rw [foldl_setKey_publics, E.masks.newMask_publics] at hbitmap
  match priKeys, hkeys with
  | [], _ => cases p <;> exact ⟨rfl, hbitmap⟩
  | _ :: _ :: _, _ => cases p <;> exact ⟨rfl, hbitmap⟩

/-- The parser takes the senders of such a request exactly when the bitmap has the length of
    `multiSigBitmap`. -/
theorem parseFBFTMessage_of_bitmap {request : ConsensusRequest} (hkey : request.senderPubkey = [])
    (t : MessageType) (service : ServiceType) (signature : Bytes) :
    (∃ m, s.parseFBFTMessage ⟨service, t, signature, some request⟩ = .ok m) ↔
      request.senderPubkeyBitmap.length = (E.masks.bitmap s.multiSigBitmap).length := by
  have hbitmap : ¬ (request.senderPubkey.length != 0) = true := by
    rw [hkey]
    simp
  simp only [parseFBFTMessage, parseSenders, if_neg hbitmap,
    E.masks.getSignedPubKeysFromBitmap_eq]
  split_ifs with hlen
  · exact iff_of_true ⟨_, rfl⟩ hlen
  · refine iff_of_false ?_ hlen
    rintro ⟨m, hm⟩
    cases hm

/-- `construct` for a list of keys, with the encoder and the parser as its only two ways out. -/
theorem construct_eq (hkeys : priKeys ≠ []) :
    s.construct order p payloadForSign priKeys =
      match s.signedMessage order p payloadForSign priKeys with
      | none => .error .marshal
      | some message => s.marshalAndParse p message := by
  cases priKeys with
  | nil => exact absurd rfl hkeys
  | cons key rest => rfl

/-- Neither a message nor an error. -/
theorem construct_eq_ok_none_iff :
    s.construct order p payloadForSign priKeys = .ok none ↔
      1 < priKeys.length ∧ s.Encodes order p payloadForSign priKeys ∧ ¬ s.BitmapsAgree := by
  match priKeys with
  | [] => simp [construct]
  | [key] =>
    refine iff_of_false ?_ (by simp)
    rcases s.construct_single order p payloadForSign key with ⟨err, h⟩ | ⟨network, h, -⟩ <;>
      · rw [h]
        intro hnil
        cases hnil
  | key :: key' :: rest =>
    have hlen : 1 < (key :: key' :: rest).length := by simp
    obtain ⟨hsender, hbits⟩ := s.constructRequest_several order p payloadForSign
      (Nat.ne_of_gt hlen)
    rw [construct_eq (List.cons_ne_nil _ _), Encodes]
    cases hsigned : s.signedMessage order p payloadForSign (key :: key' :: rest) with
    | none => simp
    | some message =>
      obtain ⟨signature, rfl⟩ := signIfNeeded_eq_some hsigned
      have hparse := parseFBFTMessage_of_bitmap (s := s) hsender p .consensus signature
      rw [hbits] at hparse
      dsimp only [marshalAndParse, Option.bind_some]
      cases E.marshal _ with
      | none => simp
      | some bytes =>
        unfold BitmapsAgree
        rw [← hparse]
        cases s.parseFBFTMessage _ with
        | error err => simp
        | ok m => simp

theorem messageOrError_iff (r : Except ConstructError (Option (NetworkMessage E))) :
    MessageOrError r ↔ r ≠ .ok none := by
  unfold MessageOrError Xor
  match r with
  | .error err => simp
  | .ok none => simp
  | .ok (some network) => simp

/-! ## The callers of the leader -/

theorem VotedIn.crashed {ph : Phase} {P : Entry E → Prop} {s s' : Consensus E}
    (h : VotedIn ph P s s') : s'.crashed = s.crashed := by
  rw [h.eq]
  cases ph <;> rfl

variable (s order)

theorem announce_crashed (block : Block) : (s.announce order block).crashed = s.crashed := by
  rcases s.announce_cases order block with h | ⟨enc, t, -, rfl, h | ⟨key, network, -, -, -, h | h⟩⟩
  · rw [h]
  · rw [h]
  · rw [h, (voteAnnounce_spec _ block).crashed]
    rfl
  · rw [h]
    exact (voteAnnounce_spec _ block).crashed

theorem didReachPrepareQuorum_crashed : (s.didReachPrepareQuorum order).1.crashed = s.crashed := by
  rcases s.didReachPrepareQuorum_cases order with h | ⟨key, network, -, -, -, ⟨-, h⟩ |
    ⟨block, -, h | h⟩⟩
  · rw [h]
  · rw [h]
    rfl
  · rw [h]
    exact (voteCommit_spec _ block).crashed
  · rw [h]
    exact (voteCommit_spec _ block).crashed

theorem commitBlock_crashed (blk : Block) (m : FBFTMessage E) :
    (s.commitBlock blk m).1.crashed = s.crashed := by
  obtain ⟨t, ht, h | ⟨sender, -, h⟩⟩ := s.commitBlock_cases blk m
  · rw [h, ht.eq]
  · rw [h, (setupForNewConsensus_spec t blk sender).crashed, ht.eq]

theorem finalCommit_crashed : (s.finalCommit order).crashed = s.crashed := by
  rcases s.finalCommit_cases order with h | ⟨key, network, -, -, -, ⟨-, h⟩ | ⟨block, -, h⟩⟩
  · rw [h]
  · rw [h]
    rfl
  · rw [h, (afterFinalCommit_spec _ block network).1]
    exact commitBlock_crashed _ block network.fbftMsg

theorem preCommitAndPropose_crashed (block : Block) :
    (s.preCommitAndPropose order block).crashed = s.crashed := by
  rcases s.preCommitAndPropose_cases order block with h | ⟨key, network, -, -, -, h⟩ <;> rw [h]
  rfl

variable {s order}

/-! ## Messages for the other nodes -/

/-- A nil message comes from `construct` with all keys, when signatures are aggregated. -/
theorem none_mem_constructP2pMessages :
    none ∈ s.constructP2pMessages order p payloadForSign priKeys ↔
      s.aggregateSig = true ∧ s.construct order p payloadForSign priKeys = .ok none := by
  unfold constructP2pMessages
  split_ifs with hagg
  · cases s.construct order p payloadForSign priKeys with
    | error err => simp
    | ok network => simp [hagg, eq_comm]
  · refine iff_of_false ?_ fun h => hagg h.1
    intro hmem
    obtain ⟨key, -, hkey⟩ := List.mem_filterMap.1 hmem
    rcases s.construct_single order p payloadForSign key with ⟨err, h⟩ | ⟨network, h, -⟩ <;>
      · rw [h] at hkey
        cases hkey

theorem broadcastConsensusP2pMessages_crashed {p2pMsgs : List (Option (NetworkMessage E))}
    (s : Consensus E) (h : none ∉ p2pMsgs) :
    (s.broadcastConsensusP2pMessages p2pMsgs).crashed = s.crashed := by
  induction p2pMsgs generalizing s with
  | nil => rfl
  | cons p2pMsg p2pMsgs ih =>
    rw [List.mem_cons, not_or] at h
    cases p2pMsg with
    | none => exact absurd rfl h.1
    | some network =>
      unfold broadcastConsensusP2pMessages
      split_ifs
      · exact ih s h.2
      · exact ih (s.emit (.sent network)) h.2

/-- **Construction.**  For every state, type, payload and list of keys, `construct` returns exactly
    one of a message and an error and none of its callers dereferences a nil message, exactly when
    there is at most one key, or the encoder refuses the message, or the bitmap over the
    participants has the length of the multi-signature bitmap. -/
theorem safeConstruction_iff (s : Consensus E) (order : MapOrder E) (p : MessageType)
    (payloadForSign : Bytes) (priKeys : List E.PriKey) :
    s.SafeConstruction order p payloadForSign priKeys ↔
      priKeys.length ≤ 1 ∨ ¬ s.Encodes order p payloadForSign priKeys ∨ s.BitmapsAgree := by
  have hnil : s.construct order p payloadForSign priKeys ≠ .ok none ↔
      priKeys.length ≤ 1 ∨ ¬ s.Encodes order p payloadForSign priKeys ∨ s.BitmapsAgree := by
    rw [Ne, construct_eq_ok_none_iff, not_and_or, not_and_or, not_lt, not_not]
  rw [← hnil]
  constructor
  · intro h
    exact (messageOrError_iff _).1 h.construct
  · intro h
    have hmsgs : none ∉ s.constructP2pMessages order p payloadForSign priKeys := fun hmem =>
      h (none_mem_constructP2pMessages.1 hmem).2
    exact ⟨(messageOrError_iff _).2 h, s.announce_crashed order,
      s.didReachPrepareQuorum_crashed order, s.finalCommit_crashed order,
      s.preCommitAndPropose_crashed order, hmsgs, broadcastConsensusP2pMessages_crashed s hmsgs⟩

end Consensus

namespace Concrete

/-- A validator with two keys that aggregates its signatures. Its multi-signature bitmap is over
    nine keys, while the committee has four. -/
def mismatchedNode : Consensus env :=
  { node [2, 3] 1 [1, 2, 3, 4] 1 with
    aggregateSig := true
    multiSigBitmap := (maskLib bls).newMask ([1, 2, 3, 4, 5, 6, 7, 8, 9].map pub) }

/-- The PREPARE of both keys is neither a message nor an error, and answering an announcement
    kills the node. -/
theorem construct_returns_nothing :
    mismatchedNode.construct order .prepare [] mismatchedNode.priKey = .ok none ∧
      (mismatchedNode.prepare order).crashed = true ∧
      (mismatchedNode.step (deliver (announceMsg 1 (blk 1 0 0) 1) 1)).crashed = true := by
  refine ⟨?_, by decide +kernel, by decide +kernel⟩
  rw [Consensus.construct_eq_ok_none_iff]
  refine ⟨by decide, ?_, ?_⟩
  · unfold Consensus.Encodes
    decide +kernel
  · unfold Consensus.BitmapsAgree
    decide +kernel

end Concrete

end Benzene
