import Benzene.Bnz.Messages
import Benzene.Types.Signing

/-!
# Gossip messages

The messages that a node builds: the transactions or the blocks behind three header bytes
(api/proto/node/node.go:36-67) and behind the prefix of `ConstructMessage` (p2p/host.go:356-362).
The headers are package variables, and a message is built in a `bytes.Buffer` over the array of
one of them, so what the arrays hold is the state of the sender.

`gossip_roundTrip`: every topic accepts every message, and its handler decodes what was sent,
whatever was built before.
-/

namespace Benzene

/-! ## Buffers over shared arrays -/

/-- The first `len` bytes of an array. -/
structure Slice where
  array : Bytes
  len : ℕ

/-- `NewBuffer` of a slice and a `Write`: the slice afterwards, and the bytes of the buffer.  What
    fits into the array is written to it, otherwise the buffer moves to a copy. -/
def Slice.write (s : Slice) (p : Bytes) : Slice × Bytes :=
  if s.len + p.length ≤ s.array.length then
    let array := s.array.take s.len ++ p ++ s.array.drop (s.len + p.length)
    (⟨array, s.len⟩, array.take (s.len + p.length))
  else (s, s.array.take s.len ++ p)

/-- An array without room is not written to. -/
theorem Slice.write_full {s : Slice} (hfull : s.len = s.array.length) (p : Bytes) :
    s.write p = (s, s.array ++ p) := by
  obtain ⟨array, len⟩ := s
  obtain rfl : len = array.length := hfull
  unfold Slice.write
  split_ifs with hfits
  · have hnil : p = [] := List.length_eq_zero_iff.1 (by dsimp only at hfits; omega)
    simp [hnil]
  · simp

/-! ## Construction -/

/-- `rlp.EncodeToBytes` of transactions and of blocks. -/
structure Encoders where
  encodeTransactions : List Transaction → Option Bytes
  encodeBlocks : List Block → Option Bytes

/-- The package variables (api/proto/node/node.go:44-46). -/
structure Headers where
  transactionListH : Slice
  syncH : Slice

/-- The headers of a node that has not sent anything. -/
def Headers.new : Headers := ⟨⟨[1, 0, 0], 3⟩, ⟨[1, 1, 0], 3⟩⟩

variable (enc : Encoders) (h : Headers)

/-- `ConstructTransactionListMessageAccount` (api/proto/node/node.go:50-59); an error ends the
    process. -/
def constructTransactionListMessageAccount (transactions : List Transaction) :
    Option (Headers × Bytes) :=
  (enc.encodeTransactions transactions).map fun txs =>
    let r := h.transactionListH.write txs
    ({ h with transactionListH := r.1 }, r.2)

/-- `ConstructBlocksSyncMessage` (api/proto/node/node.go:62-67); an error is not looked at. -/
def constructBlocksSyncMessage (blocks : List Block) : Headers × Bytes :=
  let r := h.syncH.write ((enc.encodeBlocks blocks).getD [])
  ({ h with syncH := r.1 }, r.2)

/-- `binary.BigEndian.PutUint32`. -/
def putUint32 (x : UInt32) : Bytes :=
  [(x >>> 24).toUInt8, (x >>> 16).toUInt8, (x >>> 8).toUInt8, x.toUInt8]

/-- `ConstructMessage` (p2p/host.go:356-362). -/
def constructMessage (content : Bytes) : Bytes :=
  17 :: putUint32 (UInt32.ofNat content.length) ++ content

/-- What a node sends. -/
inductive Gossip
  | transactions (l : List Transaction)
  | blocks (l : List Block)

namespace Gossip

/-- The message on the network, and the headers afterwards. -/
def construct : Gossip → Option (Headers × Bytes)
  | .transactions txs =>
    (constructTransactionListMessageAccount enc h txs).map (Prod.map id constructMessage)
  | .blocks l => some ((constructBlocksSyncMessage enc h l).map id constructMessage)

/-- Messages that are built one after another. -/
def constructAll (h : Headers) : List Gossip → Option (List Bytes)
  | [] => some []
  | g :: gs => do
    let r ← g.construct enc h
    let msgs ← constructAll r.1 gs
    return r.2 :: msgs

/-! ## Delivery -/

variable (D : Decoders)

/-- The encoding decodes to what was encoded. -/
def Decodes : Gossip → Prop
  | .transactions txs =>
    ∃ bs, enc.encodeTransactions txs = some bs ∧ D.decodeTransactions bs = some txs
  | .blocks l => ∃ bs, enc.encodeBlocks l = some bs ∧ D.decodeBlocks bs = some l

def actionType : Gossip → NodeMessageType
  | .transactions _ => .transaction
  | .blocks _ => .block

def request : Gossip → NodeRequest
  | .transactions txs => .addPendingTransactions txs
  | .blocks l => .sync l

/-- Every topic accepts the message as one of its type, and the handler decodes what was sent. -/
def Delivered (g : Gossip) (msg : Bytes) : Prop :=
  ∀ isConsensusBound, ∃ payload,
    validateTopicMessage D isConsensusBound msg = some (.accept (.node payload g.actionType)) ∧
      handleNodeMessage D payload g.actionType = some g.request

variable {enc D}

/-- A message leaves the headers as they were. -/
theorem construct_new {g : Gossip} (hg : g.Decodes enc D) :
    ∃ msg, g.construct enc .new = some (.new, msg) ∧ g.Delivered D msg := by
  cases g with
  | transactions txs =>
    obtain ⟨bs, henc, hdec⟩ := hg
    refine ⟨constructMessage ([1, 0, 0] ++ bs), ?_, fun _ => ⟨0 :: bs, ?_, ?_⟩⟩
    · have hwrite := Slice.write_full (s := Headers.new.transactionListH) rfl bs
      simp [construct, constructTransactionListMessageAccount, henc, hwrite]
      rfl
    · rfl
    · simp [handleNodeMessage, transactionMessageHandler, index, sliceFrom, hdec, actionType,
        request]
  | blocks blocks =>
    obtain ⟨bs, henc, hdec⟩ := hg
    refine ⟨constructMessage ([1, 1, 0] ++ bs), ?_, fun _ => ⟨0 :: bs, ?_, ?_⟩⟩
    · have hwrite := Slice.write_full (s := Headers.new.syncH) rfl bs
      simp [construct, constructBlocksSyncMessage, henc, hwrite]
      rfl
    · rfl
    · simp [handleNodeMessage, index, sliceFrom, hdec, actionType, request]

/-- **Gossip.**  Whatever lists are sent one after another, every topic accepts each message and
    classifies it, and the handler decodes it to the list, if RLP decodes what it has encoded. -/
theorem gossip_roundTrip (enc : Encoders) (D : Decoders) (gs : List Gossip)
    (hgs : ∀ g ∈ gs, g.Decodes enc D) :
    ∃ msgs, constructAll enc .new gs = some msgs ∧ List.Forall₂ (Delivered D) gs msgs := by
  induction gs with
  | nil => exact ⟨[], rfl, .nil⟩
  | cons g gs ih =>
    obtain ⟨msg, hmsg, hdelivered⟩ := construct_new (hgs g List.mem_cons_self)
    obtain ⟨msgs, hmsgs, hall⟩ := ih fun g' hg' => hgs g' (List.mem_cons_of_mem _ hg')
    refine ⟨msg :: msgs, ?_, .cons hdelivered hall⟩
    simp [constructAll, hmsg, hmsgs]

end Gossip

namespace Concrete

/-- Lists of transfers by their nonces, and lists of blocks by their numbers. -/
def listEncoders : Encoders where
  encodeTransactions l := some (l.map fun tx => tx.accountNonce.toUInt8)
  encodeBlocks l := some (l.map fun b => b.numberU64.toUInt8)

def listDecoders : Decoders where
  unmarshal _ := none
  decodeTransactions bs := some (bs.map fun nonce => transfer nonce.toUInt64 0 5)
  decodeBlocks bs := some (bs.map fun number => blk number 0 0)

/-- Two lists of transactions with a list of blocks in between. -/
def threeLists : List Gossip :=
  [.transactions [transfer 1 0 5, transfer 2 0 5], .blocks [blk 3 0 0, blk 4 0 0],
    .transactions [transfer 3 0 5]]

theorem threeLists_roundTrip : ∃ msgs,
    Gossip.constructAll listEncoders .new threeLists = some msgs ∧
      List.Forall₂ (Gossip.Delivered listDecoders) threeLists msgs := by
  refine Gossip.gossip_roundTrip listEncoders listDecoders threeLists fun g hg => ?_
  simp only [threeLists, List.mem_cons, List.not_mem_nil, or_false] at hg
  rcases hg with rfl | rfl | rfl <;> exact ⟨_, rfl, by decide +kernel⟩

end Concrete

end Benzene
