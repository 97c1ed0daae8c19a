import Benzene.Consensus.Node
import Benzene.External.Concrete

/-!
# A concrete environment

An instance of `Env` that computes, for evaluating runs of the model: blocks are told apart
by three bytes (number, state root and a tag for the body), the chain is a list of blocks,
an epoch has sixteen blocks, and the committee has the keys 1 to 4.  The verifier refuses a
block with the body tag 9.
-/

namespace Benzene.Concrete

/-! ## Blocks -/

/-- A transaction with a tag. -/
def tx (tag : UInt8) : Transaction where
  accountNonce := tag.toUInt64
  price := 0
  gasLimit := 0
  shardID := 0
  toShardID := 0
  recipient := none
  amount := 0
  payload := []
  v := 0
  r := 0
  s := 0

/-- The block with a number, a state root and a body; tag zero is the empty body. -/
def blk (number root tag : UInt8) : Block where
  header := {
    parentHash := zeroBytes 32
    root := copyBytes 32 [root]
    txHash := zeroBytes 32
    number := number.toNat
    gasLimit := 0
    gasUsed := 0
    time := 0
    shardID := 0
    lastCommitSignature := zeroBytes 96
    lastCommitBitmap := [] }
  transactions := if tag = 0 then [] else [tx tag]

/-- The three bytes of a block. -/
def tags (b : Block) : UInt8 × UInt8 × UInt8 :=
  (UInt8.ofNat b.header.number, b.header.root.toList.headD 0,
    (b.transactions.head?.map fun t => t.accountNonce.toUInt8).getD 0)

def encodeBlock (b : Block) : Option Bytes :=
  let t := tags b
  if b = blk t.1 t.2.1 t.2.2 then some [t.1, t.2.1, t.2.2] else none

def decodeBlock : Bytes → Option Block
  | [number, root, tag] => some (blk number root tag)
  | _ => none

theorem decodeBlock_encodeBlock (b : Block) (bs : Bytes) (h : encodeBlock b = some bs) :
    decodeBlock bs = some b := by
  unfold encodeBlock at h
  dsimp only at h
  split_ifs at h with hb
  obtain rfl := Option.some.inj h
  exact congrArg some hb.symm

/-- The number, a byte one and the state root. -/
def headerHash (h : Header) : Hash := copyBytes 32 (putUint64 h.numberU64 ++ 1 :: h.root.toList)

/-! ## Messages -/

def typeByte : MessageType → UInt8
  | .announce => 0
  | .prepare => 1
  | .prepared => 2
  | .commit => 3
  | .committed => 4
  | .viewchange => 5
  | .newview => 6

def marshalRequest (r : ConsensusRequest) : Bytes :=
  putUint64 r.viewId ++ putUint64 r.blockNum ++ r.blockHash ++ r.block ++ r.senderPubkey ++
    r.payload ++ r.senderPubkeyBitmap

def marshal (m : Message) : Option Bytes :=
  some (typeByte m.type :: m.signature ++ (m.consensus.map marshalRequest).getD [])

/-! ## The chain -/

/-- The blocks, newest first, and the stored commit signatures. -/
structure Chain where
  blocks : List Block
  commitSigs : List (UInt64 × Bytes)
deriving DecidableEq

/-- The genesis block. -/
def genesis : Block := blk 0 0 0

def Chain.current (c : Chain) : Block := c.blocks.headD genesis

/-- The environment. -/
def env : Env where
  bls := bls
  masks := maskLib bls
  marshal := marshal
  keccak256 bs := copyBytes 32 [UInt8.ofBitVec (checksum bs)]
  headerHash := headerHash
  encodeBlock := encodeBlock
  decodeBlock := decodeBlock
  epoch h := h.numberU64.toNat / 16
  isStaking _ := false
  isLastBlockInEpoch h := h.numberU64 % 16 == 15
  Chain := Chain
  currentBlock := Chain.current
  currentHeader c := c.current.header
  getBlockByHash c h := c.blocks.find? fun b => headerHash b.header == h
  insertChain c b :=
    if b.header.number = c.current.header.number + 1 then ({ c with blocks := b :: c.blocks }, true)
    else (c, false)
  readCommitSig c n := (c.commitSigs.find? fun p => p.1 == n).map Prod.snd
  writeCommitSig c n sig := { c with commitSigs := (n, sig) :: c.commitSigs }
  ShardState := ℕ
  Committee := List UInt8
  getShardState _ := some none
  readFromDB epoch _ := some epoch
  readShardState _ epoch := some epoch
  findCommitteeByID _ _ := some [1, 2, 3, 4]
  slots c := c.length
  blsPublicKeys c := c.map pub
  addressForBLSKey _ k := some (copyBytes 20 k.toList)
  blockVerifier _ b := b.transactions.all fun t => t.accountNonce != 9
  decodeBlock_encodeBlock := decodeBlock_encodeBlock
  decodeBlock_nil := rfl

instance : DecidableEq env.Committee := inferInstanceAs (DecidableEq (List UInt8))

/-- The committee of every epoch. -/
def members : env.Committee := ([1, 2, 3, 4] : List UInt8)

/-- Maps are visited in the order of their representation. -/
def order : MapOrder env where
  messages _ l := l
  ballots l := l
  blocks l := l
  messages_perm _ _ := List.Perm.refl _
  ballots_perm _ := List.Perm.refl _
  blocks_perm _ := List.Perm.refl _

/-- The chain of the blocks `1, …, n` with empty bodies. -/
def chainTo : ℕ → Chain
  | 0 => ⟨[genesis], []⟩
  | n + 1 => { chainTo n with blocks := blk (UInt8.ofNat (n + 1)) 0 0 :: (chainTo n).blocks }

/-- A node in Normal mode at the start of a round: its own keys, the leader, the committee and
    the number of the next block. -/
def node (own : List UInt8) (leader : UInt8) (committee : List UInt8) (blockNum : UInt8) :
    Consensus env where
  decider := Decider.newBallotsBackedSignatureReader.updateParticipants (committee.map pub)
  fbftLog := FBFTLog.newFBFTLog
  phase := .announce
  mode := .normal
  blockViewID := 0
  aggregatedPrepareSig := none
  aggregatedCommitSig := none
  prepareBitmap := (maskLib bls).newMask (committee.map pub)
  commitBitmap := (maskLib bls).newMask (committee.map pub)
  multiSigBitmap := (maskLib bls).newMask (committee.map pub)
  blockchain := chainTo (blockNum.toNat - 1)
  priKey := own.map key
  leaderPubKey := pub leader
  blockNum := blockNum.toUInt64
  blockHash := zeroBytes 32
  block := []
  shardID := 0
  ignoreViewIDCheck := false
  blockVerifierSet := true
  blockNumLow := false
  aggregateSig := false
  tasks := []
  trace := []
  crashed := false

/-! ## Messages of a node -/

/-- A certificate: the aggregated signature of some members, and their bits. -/
def certificate (committee signers : List UInt8) (payload : Bytes) : Bytes :=
  bls.serialize (signers.map fun k => bls.signHash (key k).pri payload).sum ++
    packBits committee.length fun i => committee[i]?.any (· ∈ signers)

/-- The request for a block with a given block number and sender. -/
def request (blockNum sender : UInt8) (b : Block) : ConsensusRequest where
  blockNum := blockNum.toUInt64
  blockHash := (env.blockHash b).toList
  senderPubkey := (pub sender).bytes.toList

/-- A message signed with a key. -/
def signWith (signer : UInt8) (t : MessageType) (r : ConsensusRequest) : Message :=
  (Consensus.signConsensusMessage (E := env) ⟨.consensus, t, [], some r⟩ (key signer).pri).getD
    ⟨.consensus, t, [], some r⟩

/-- The ANNOUNCE of a block. -/
def announceMsg (leader : UInt8) (b : Block) (blockNum : UInt8) : Message :=
  signWith leader .announce
    { request blockNum leader b with payload := (env.blockHash b).toList }

/-- A PREPARED message with the prepare signatures of some members. -/
def preparedMsg (committee signers : List UInt8) (leader : UInt8) (b : Block) (blockNum : UInt8) :
    Message :=
  signWith leader .prepared { request blockNum leader b with
    block := (encodeBlock b).getD []
    payload := certificate committee signers (env.blockHash b).toList }

/-- A COMMITTED message with the commit signatures of some members; `sender` is the key the
    body names. -/
def committedMsg (committee signers : List UInt8) (leader sender : UInt8) (b : Block)
    (blockNum : UInt8) : Message :=
  signWith leader .committed { request blockNum sender b with
    payload := certificate committee signers (env.commitPayload b) }

/-- The PREPARE of a member. -/
def prepareMsg (member : UInt8) (b : Block) (blockNum : UInt8) : Message :=
  ⟨.consensus, .prepare, [], some { request blockNum member b with
    payload := bls.serialize (bls.signHash (key member).pri (env.blockHash b).toList) }⟩

/-- The COMMIT of a member. -/
def commitMsg (member : UInt8) (b : Block) (blockNum : UInt8) : Message :=
  ⟨.consensus, .commit, [], some { request blockNum member b with
    payload := bls.serialize (bls.signHash (key member).pri (env.commitPayload b)) }⟩

/-- A message handed to the node by a sender. -/
def deliver (msg : Message) (sender : UInt8) : NodeEvent env :=
  .message order msg (pub sender).bytes

/-- The hash starts with the number. -/
theorem hashBindsNumber : env.HashBindsNumber := by
  intro h h' heq
  have htake : ∀ h : Header, (headerHash h).toList.take 8 = putUint64 h.numberU64 := by
    intro h
    show ((putUint64 h.numberU64 ++ 1 :: h.root.toList ++ List.replicate 32 0).take 32).take 8 = _
    rw [List.take_take, List.append_assoc, List.take_append_of_le_length (by simp),
      List.take_of_length_le (by simp)]
  apply putUint64_injective
  rw [← htake h, ← htake h']
  exact congrArg (fun v : Hash => v.toList.take 8) heq

theorem idealHash : env.IdealHash := by
  refine ⟨hashBindsNumber, fun h h' heq => ?_, fun h heq => ?_⟩
  · show h.numberU64.toNat / 16 = h'.numberU64.toNat / 16
    rw [hashBindsNumber h h' heq]
  · -- the byte after the number is one
    have hbyte : (headerHash h).toList[8]? = some 1 := by
      show ((putUint64 h.numberU64 ++ 1 :: h.root.toList ++ List.replicate 32 0).take 32)[8]? = _
      rw [List.getElem?_take_of_lt (by decide), List.append_assoc,
        List.getElem?_append_right (by simp)]
      simp
    have hzero := congrArg (fun v : Hash => v.toList[8]?) heq
    exact absurd (hbyte.symm.trans hzero) (by decide)

end Benzene.Concrete
