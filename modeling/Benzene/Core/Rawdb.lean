import Benzene.Common.GoMap
import Benzene.Types.Block

/-!
# The chain database

Model of core/rawdb: the key-value database of a shard, with one map for each kind of key
(core/rawdb/schema.go).  A missing hash is read as the zero hash, as
`ReadCanonicalHash` and its relatives do.

Headers, bodies and configurations are stored as values, not as their encodings.  There is no
freezer.  Errors of the database end the process (`log.Crit`) and are left out.
-/

namespace Benzene

/-- `common.Hash{}`. -/
def zeroHash : Hash := zeroBytes 32

/-- `ChainConfig` (params/config.go:28-30), which has no fields. -/
structure ChainConfig
deriving DecidableEq

/-- The hashes of headers and transactions.  No header hashes to the zero that stands for a
    missing hash. -/
structure ChainLib where
  headerHash : Header → Hash
  txHash : Transaction → Hash
  headerHash_ne_zero : ∀ h, headerHash h ≠ zeroHash

/-- `Block.Hash`. -/
def ChainLib.blockHash (L : ChainLib) (b : Block) : Hash := L.headerHash b.header

structure ChainDb where
  /-- `headerHashKey`: the canonical hash of a number. -/
  canonical : GoMap UInt64 Hash
  /-- `headerKey`. -/
  headers : GoMap (UInt64 × Hash) Header
  /-- `headerNumberKey`. -/
  headerNumbers : GoMap Hash UInt64
  /-- `blockBodyKey`. -/
  bodies : GoMap (UInt64 × Hash) (List Transaction)
  /-- `txLookupKey`: the number of the block of a transaction. -/
  txLookups : GoMap Hash UInt64
  headHeaderHash : Hash
  headBlockHash : Hash
  headFastBlockHash : Hash
  /-- `configKey`. -/
  configs : GoMap Hash ChainConfig
  shardID : Option UInt64
  /-- The roots of the state tries on disk. -/
  states : GoMap Hash Unit
  /-- `blockCommitSigKey`. -/
  commitSigs : GoMap UInt64 Bytes
  /-- `lastCommitsKey`, which nothing writes. -/
  lastCommits : Option Bytes

namespace ChainDb

/-- A database without entries. -/
def empty : ChainDb where
  canonical := ∅
  headers := ∅
  headerNumbers := ∅
  bodies := ∅
  txLookups := ∅
  headHeaderHash := zeroHash
  headBlockHash := zeroHash
  headFastBlockHash := zeroHash
  configs := ∅
  shardID := none
  states := ∅
  commitSigs := ∅
  lastCommits := none

variable (L : ChainLib) (db : ChainDb)

/-! ## Canonical hashes -/

/-- `ReadCanonicalHash` (core/rawdb/accessors_chain.go:30-36). -/
def readCanonicalHash (number : UInt64) : Hash := (db.canonical.lookup number).getD zeroHash

/-- `WriteCanonicalHash`. -/
def writeCanonicalHash (hash : Hash) (number : UInt64) : ChainDb :=
  { db with canonical := db.canonical.insert number hash }

/-- `DeleteCanonicalHash`. -/
def deleteCanonicalHash (number : UInt64) : ChainDb :=
  { db with canonical := db.canonical.erase number }

/-! ## Headers and bodies -/

/-- `ReadHeader` (core/rawdb/accessors_chain.go:254-265). -/
def readHeader (hash : Hash) (number : UInt64) : Option Header :=
  db.headers.lookup (number, hash)

/-- `ReadHeaderNumber`. -/
def readHeaderNumber (hash : Hash) : Option UInt64 := db.headerNumbers.lookup hash

/-- `WriteHeader` (core/rawdb/accessors_chain.go:269-287). -/
def writeHeader (header : Header) : ChainDb :=
  { db with
    headerNumbers := db.headerNumbers.insert (L.headerHash header) header.numberU64
    headers := db.headers.insert (header.numberU64, L.headerHash header) header }

/-- `DeleteHeader` (core/rawdb/accessors_chain.go:290-295). -/
def deleteHeader (hash : Hash) (number : UInt64) : ChainDb :=
  { db with
    headers := db.headers.erase (number, hash)
    headerNumbers := db.headerNumbers.erase hash }

/-- `ReadBody`. -/
def readBody (hash : Hash) (number : UInt64) : Option (List Transaction) :=
  db.bodies.lookup (number, hash)

/-- `HasBody`. -/
def hasBody (hash : Hash) (number : UInt64) : Bool := (db.readBody hash number).isSome

/-- `WriteBody`. -/
def writeBody (hash : Hash) (number : UInt64) (body : List Transaction) : ChainDb :=
  { db with bodies := db.bodies.insert (number, hash) body }

/-- `DeleteBody`. -/
def deleteBody (hash : Hash) (number : UInt64) : ChainDb :=
  { db with bodies := db.bodies.erase (number, hash) }

/-- `ReadBlock` (core/rawdb/accessors_chain.go:381-391). -/
def readBlock (hash : Hash) (number : UInt64) : Option Block := do
  let header ← db.readHeader hash number
  let body ← db.readBody hash number
  some ⟨header, body⟩

/-- `WriteBlock` (core/rawdb/accessors_chain.go:394-397). -/
def writeBlock (block : Block) : ChainDb :=
  (db.writeBody (L.blockHash block) block.numberU64 block.transactions).writeHeader L block.header

/-- `ReadAllHashes` (core/rawdb/accessors_chain.go:54-67): the hashes of all headers of a
    number. -/
def readAllHashes (number : UInt64) : List Hash :=
  (db.headers.keys.filter fun key => decide (key.1 = number)).map Prod.snd

/-! ## Transactions and configurations -/

/-- `WriteTxLookupEntriesByBlock`. -/
def writeTxLookupEntriesByBlock (block : Block) : ChainDb :=
  { db with
    txLookups := GoMap.insertAll db.txLookups (block.transactions.map L.txHash) block.numberU64 }

/-- `DeleteTxLookupEntry`, for the transactions of a list. -/
def deleteTxLookupEntries (txs : List Transaction) : ChainDb :=
  { db with txLookups := GoMap.eraseAll db.txLookups (txs.map L.txHash) }

/-- `ReadChainConfig`. -/
def readChainConfig (hash : Hash) : Option ChainConfig := db.configs.lookup hash

/-- `WriteChainConfig` (core/rawdb/accessors_metadata.go:27-38): nothing is written for nil. -/
def writeChainConfig (hash : Hash) : Option ChainConfig → ChainDb
  | none => db
  | some cfg => { db with configs := db.configs.insert hash cfg }

end ChainDb

namespace Concrete

/-- A hash that starts with 1 and has parts of the number, the root and the parent hash. -/
def chainHash (h : Header) : Hash :=
  copyBytes 32 (1 :: putUint64 h.numberU64 ++ h.root.toList.take 7 ++ h.parentHash.toList.take 16)

def chainLib : ChainLib where
  headerHash := chainHash
  txHash tx := copyBytes 32 (putUint64 tx.accountNonce)
  headerHash_ne_zero := by
    intro h heq
    have hhead : (chainHash h).toList.head? = zeroHash.toList.head? := by rw [heq]
    exact absurd (Option.some.inj hhead) (by decide)

end Concrete

end Benzene
