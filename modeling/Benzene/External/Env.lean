import Benzene.External.Bls
import Benzene.Types.Block
import Benzene.Types.Message

/-!
# The environment of the consensus package

What consensus calls and does not define itself, as a structure of functions:

* the encodings: protobuf (`marshal`), RLP (`encodeBlock`, `decodeBlock`) and the header
  hash `headerHash`, which covers the header only;
* the chain (`Chain`): the calls that the consensus package makes.  They are those of a chain with
  epochs and shard states (`ReadShardState`), which the one of core/blockchain.go does not have, so
  that this is another API: there `ReadCommitSig` and `WriteCommitSig` never return, and here they
  do.  Nothing else is assumed of the calls; a theorem that needs more says so;
* the committee of an epoch, read from the shard state;
* the block verifier of the node, a function of the chain and the block.
-/

namespace Benzene

structure Env where
  bls : Bls
  masks : MaskLib bls
  -- encodings and hashes
  marshal : Message → Option Bytes
  keccak256 : Bytes → Hash
  headerHash : Header → Hash
  encodeBlock : Block → Option Bytes
  decodeBlock : Bytes → Option Block
  -- epochs
  epoch : Header → ℕ
  isStaking : ℕ → Bool
  isLastBlockInEpoch : Header → Bool
  -- `core.BlockChain`
  Chain : Type
  currentBlock : Chain → Block
  currentHeader : Chain → Header
  getBlockByHash : Chain → Hash → Option Block
  /-- `InsertChain([]*types.Block{blk})`: the new chain, and whether there was no error. -/
  insertChain : Chain → Block → Chain × Bool
  readCommitSig : Chain → UInt64 → Option Bytes
  writeCommitSig : Chain → UInt64 → Bytes → Chain
  -- shard states and committees
  ShardState : Type
  Committee : Type
  /-- `GetShardState` of a header: an error, or the `Epoch` field, which may be nil. -/
  getShardState : Header → Option (Option ℕ)
  /-- `committee.WithStakingEnabled.ReadFromDB`. -/
  readFromDB : ℕ → Chain → Option ShardState
  readShardState : Chain → ℕ → Option ShardState
  findCommitteeByID : ShardState → UInt64 → Option Committee
  /-- `len(committee.Slots)`. -/
  slots : Committee → ℕ
  blsPublicKeys : Committee → List (PublicKeyWrapper bls)
  addressForBLSKey : Committee → SerializedPublicKey → Option Address
  -- the node's verifier: `true` when it returns no error
  blockVerifier : Chain → Block → Bool
  decodeBlock_encodeBlock : ∀ b bs, encodeBlock b = some bs → decodeBlock bs = some b
  decodeBlock_nil : decodeBlock [] = none

namespace Env

variable (E : Env)

abbrev Sign := E.bls.Sign

abbrev Mask := E.masks.Mask

abbrev PubKey := PublicKeyWrapper E.bls

abbrev PriKey := PrivateKeyWrapper E.bls

/-- `Block.Hash` (core/types/block.go:240-247): the hash of the header. -/
def blockHash (b : Block) : Hash := E.headerHash b.header

/-- `ConstructCommitPayload` (consensus/signature/signature.go:17-29). -/
def constructCommitPayload (epoch : ℕ) (blockHash : Hash) (blockNum viewID : UInt64) : Bytes :=
  let commitPayload := putUint64 blockNum ++ blockHash.toList
  if !E.isStaking epoch then commitPayload
  else commitPayload ++ putUint64 viewID

/-- The payload that a commit signature on a block signs. -/
def commitPayload (b : Block) : Bytes :=
  E.constructCommitPayload (E.epoch b.header) (E.blockHash b) b.numberU64 0

/-- The hash of a header fixes its number. -/
def HashBindsNumber : Prop :=
  ∀ h h' : Header, E.headerHash h = E.headerHash h' → h.numberU64 = h'.numberU64

/-- The header hash is ideal as far as consensus depends on it: it fixes the number and the
    epoch, and it is never the zero that stands for no block. -/
structure IdealHash : Prop where
  number : E.HashBindsNumber
  epoch : ∀ h h' : Header, E.headerHash h = E.headerHash h' → E.epoch h = E.epoch h'
  ne_zero : ∀ h : Header, E.headerHash h ≠ zeroBytes 32

variable {E}

/-- Blocks with one hash have one commit payload. -/
theorem IdealHash.commitPayload_eq (h : E.IdealHash) {b b' : Block}
    (hhash : E.blockHash b = E.blockHash b') : E.commitPayload b = E.commitPayload b' := by
  have hnum : b.numberU64 = b'.numberU64 := h.number _ _ hhash
  have hepoch : E.epoch b.header = E.epoch b'.header := h.epoch _ _ hhash
  simp only [commitPayload, hhash, hnum, hepoch]

end Env

end Benzene
