import Benzene.Common.Lru
import Benzene.Core.Genesis

/-!
# The block chain

Model of core/blockchain.go, core/blockchain_insert.go and core/headerchain.go, as far as blocks
are imported and the chain is rewound, with the shipped processor and validator, which accept
every block and change nothing.

An operation runs under the chain's lock and is a function of the chain; `none` is a call that
does not return: a nil dereference, a lock that is taken twice, or a walk that never ends.  Blocks
are imported by the loop of the source for any consensus engine (`ImportCall`).

The caches are part of the chain: a header or a block is looked up under its hash alone, whatever
the number, as long as the cache has it.  The state database is a parameter.  Left out are feeds,
metrics, logs, statistics, the collection of trie nodes, snapshots, fast-sync pivots (nothing
writes one) and the sender cache.
-/

namespace Benzene

/-! ## Chains -/

/-- What a chain takes from elsewhere. -/
structure BlockChainLib extends ChainLib where
  StateDb : Type
  /-- `state.New(root, bc.stateCache, bc.snaps)` succeeds. -/
  hasState : StateDb → Hash → Bool
  /-- `state.Commit` of an unchanged state with this root, for a block of this number. -/
  commitState : StateDb → Hash → UInt64 → Option StateDb
  /-- `BadHashes`. -/
  badHashes : List Hash
  /-- `Block.Size`. -/
  blockSize : Block → ℕ

/-- `BlockChain` (core/blockchain.go:115-168) with its `HeaderChain`. -/
structure BlockChain (L : BlockChainLib) where
  db : ChainDb
  stateDb : L.StateDb
  -- the header chain
  genesisHeader : Header
  currentHeader : Header
  headerCache : Lru Hash Header
  numberCache : Lru Hash UInt64
  -- the block chain
  genesisBlock : Block
  currentBlock : Block
  currentFastBlock : Block
  blockCache : Lru Hash Block
  futureBlocks : Lru Hash Block
  badBlocks : Lru Hash Block
  /-- `NewBlockChain` leaves it nil. -/
  lastCommitsCache : Option (Lru UInt64 Bytes)
  procInterrupt : Bool
  /-- `cacheConfig.TrieCleanNoPrefetch`. -/
  noPrefetch : Bool

/-- The errors of an import: those of a consensus engine, told apart as `errors.Is` does, and
    those of the chain. -/
inductive ImportError
  | knownBlock
  | prunedAncestor
  | futureBlock
  | unknownAncestor
  | invalidHeader
  | nonContiguous
  | blacklistedHash
  | missingState
  | parentMismatch
  | commitFailed
  | tooFarInFuture
  | ghostState
  | missingParent
  | invalidOldChain
  | invalidNewChain
deriving DecidableEq

/-- What an import depends on besides the chain. -/
structure ImportCall where
  /-- `verifyHeader` of the engine, given the headers before this one. -/
  verifyHeader : List Header → Header → Option ImportError
  /-- `mrand.Float64() < 0.5` for a block of the height of the head. -/
  coin : Hash → Bool
  /-- `time.Now().Unix() + maxTimeFutureBlocks`. -/
  maxTime : UInt64

/-- `EngineImpl.verifyHeader` (internal/chain/sharding.go:50-52). -/
def shippedEngine : List Header → Header → Option ImportError := fun _ _ => none

/-- The steps of a walk over blocks or numbers. -/
def chainFuel : ℕ := 2 ^ 64

namespace BlockChain

variable {L : BlockChainLib} (bc : BlockChain L)

/-! ## Reading -/

/-- `GetBlockNumber` (core/headerchain.go:96-106). -/
def getBlockNumber (hash : Hash) : BlockChain L × Option UInt64 :=
  let r := bc.numberCache.fetch hash (bc.db.readHeaderNumber hash)
  ({ bc with numberCache := r.1 }, r.2)

/-- `GetHeader` (core/headerchain.go:369-381). -/
def getHeader (hash : Hash) (number : UInt64) : BlockChain L × Option Header :=
  let r := bc.headerCache.fetch hash (bc.db.readHeader hash number)
  ({ bc with headerCache := r.1 }, r.2)

/-- `GetHeaderByHash`. -/
def getHeaderByHash (hash : Hash) : BlockChain L × Option Header :=
  match bc.getBlockNumber hash with
  | (bc, none) => (bc, none)
  | (bc, some number) => bc.getHeader hash number

/-- `GetHeaderByNumber`. -/
def getHeaderByNumber (number : UInt64) : BlockChain L × Option Header :=
  let hash := bc.db.readCanonicalHash number
  if hash = zeroHash then (bc, none) else bc.getHeader hash number

/-- `GetBlock` (core/blockchain.go:799-811): a block read from the database is cached under its
    own hash. -/
def getBlock (hash : Hash) (number : UInt64) : BlockChain L × Option Block :=
  match bc.blockCache.peek hash with
  | some block => ({ bc with blockCache := bc.blockCache.add hash block }, some block)
  | none =>
    match bc.db.readBlock hash number with
    | none => (bc, none)
    | some block =>
      ({ bc with blockCache := bc.blockCache.add (L.blockHash block) block }, some block)

/-- `GetBlockByHash`. -/
def getBlockByHash (hash : Hash) : BlockChain L × Option Block :=
  match bc.getBlockNumber hash with
  | (bc, none) => (bc, none)
  | (bc, some number) => bc.getBlock hash number

/-- `GetBlockByNumber`. -/
def getBlockByNumber (number : UInt64) : BlockChain L × Option Block :=
  let hash := bc.db.readCanonicalHash number
  if hash = zeroHash then (bc, none) else bc.getBlock hash number

/-- `HasBlock` (core/blockchain.go:773-778). -/
def hasBlock (hash : Hash) (number : UInt64) : Bool :=
  bc.blockCache.contains hash || bc.db.hasBody hash number

/-! ## Writing -/

/-- `SetCurrentHeader` (core/headerchain.go:422-428). -/
def setCurrentHeader (head : Header) : BlockChain L :=
  { bc with
    db := { bc.db with headHeaderHash := L.headerHash head }
    currentHeader := head }

/-- `writeHeadBlock` (core/blockchain.go:697-724). -/
def writeHeadBlock (block : Block) : BlockChain L :=
  let hash := L.blockHash block
  let updateHeads := decide (bc.db.readCanonicalHash block.numberU64 ≠ hash)
  let db := (bc.db.writeCanonicalHash hash block.numberU64).writeTxLookupEntriesByBlock
    L.toChainLib block
  let bc := { bc with db := { db with headBlockHash := hash } }
  let bc :=
    if updateHeads then
      let bc := { bc with db := { bc.db with headHeaderHash := hash, headFastBlockHash := hash } }
      { bc.setCurrentHeader block.header with currentFastBlock := block }
    else bc
  { bc with currentBlock := block }

/-- Walk back from a block until its number is the given one (core/blockchain.go:1591-1605): the
    block reached, if there is one, and the blocks passed. -/
def walkTo (number : UInt64) : ℕ → BlockChain L → Block → List Block →
    Option (BlockChain L × Option Block × List Block)
  | 0, _, _, _ => none
  | fuel + 1, bc, block, passed =>
    if block.numberU64 = number then some (bc, some block, passed)
    else
      match bc.getBlock block.header.parentHash (block.numberU64 - 1) with
      | (bc, none) => some (bc, none, passed ++ [block])
      | (bc, some parent) => walkTo number fuel bc parent (passed ++ [block])

/-- Walk back from two blocks of one number to their common ancestor
    (core/blockchain.go:1614-1636). -/
def walkToCommon : ℕ → BlockChain L → Block → Block → List Block → List Block →
    Option (BlockChain L × Except ImportError (List Block × List Block))
  | 0, _, _, _, _, _ => none
  | fuel + 1, bc, oldBlock, newBlock, oldChain, newChain =>
    if L.blockHash oldBlock = L.blockHash newBlock then some (bc, .ok (oldChain, newChain))
    else
      match bc.getBlock oldBlock.header.parentHash (oldBlock.numberU64 - 1) with
      | (bc, none) => some (bc, .error .invalidOldChain)
      | (bc, some oldParent) =>
        match bc.getBlock newBlock.header.parentHash (newBlock.numberU64 - 1) with
        | (bc, none) => some (bc, .error .invalidNewChain)
        | (bc, some newParent) =>
          walkToCommon fuel bc oldParent newParent (oldChain ++ [oldBlock]) (newChain ++ [newBlock])

/-- The numbers from `number` on that have a canonical hash (core/blockchain.go:1669-1675). -/
def canonicalFrom (db : ChainDb) : ℕ → UInt64 → Option (List UInt64)
  | 0, _ => none
  | fuel + 1, number =>
    if db.readCanonicalHash number = zeroHash then some []
    else (canonicalFrom db fuel (number + 1)).map (number :: ·)

/-- The end of `reorg` (core/blockchain.go:1652-1678): the new chain becomes canonical, but for
    its head, and what is above the head is deleted. -/
def rewriteChain (oldChain newChain : List Block) : Option (BlockChain L) := do
  let added := newChain.tail.reverse
  let bc := added.foldl writeHeadBlock bc
  let deletedTxs := oldChain.flatMap Block.transactions
  let addedTxs := added.flatMap Block.transactions
  let useless := deletedTxs.filter fun tx =>
    decide (L.txHash tx ∉ addedTxs.map L.txHash)
  let above ← canonicalFrom bc.db chainFuel (bc.currentBlock.numberU64 + 1)
  let db := bc.db.deleteTxLookupEntries L.toChainLib useless
  some { bc with db := above.foldl ChainDb.deleteCanonicalHash db }

/-- `reorg` (core/blockchain.go:1584-1689). -/
def reorg (oldBlock newBlock : Block) : Option (BlockChain L × Option ImportError) := do
  let (bc, old?, new?, oldChain, newChain) ←
    if newBlock.numberU64 < oldBlock.numberU64 then do
      let (bc, old?, oldChain) ← walkTo newBlock.numberU64 chainFuel bc oldBlock []
      some (bc, old?, some newBlock, oldChain, [])
    else do
      let (bc, new?, newChain) ← walkTo oldBlock.numberU64 chainFuel bc newBlock []
      some (bc, some oldBlock, new?, [], newChain)
  match old?, new? with
  | none, _ => some (bc, some .invalidOldChain)
  | _, none => some (bc, some .invalidNewChain)
  | some oldBlock, some newBlock =>
    match ← walkToCommon chainFuel bc oldBlock newBlock oldChain newChain with
    | (bc, .error err) => some (bc, some err)
    | (bc, .ok (oldChain, newChain)) => do
      let bc ← bc.rewriteChain oldChain newChain
      some (bc, none)

/-- `writeKnownBlock` (core/blockchain.go:968-980). -/
def writeKnownBlock (block : Block) : Option (BlockChain L × Option ImportError) :=
  if block.header.parentHash ≠ L.blockHash bc.currentBlock then do
    match ← bc.reorg bc.currentBlock block with
    | (bc, some err) => some (bc, some err)
    | (bc, none) => some (bc.writeHeadBlock block, none)
  else some (bc.writeHeadBlock block, none)

variable (call : ImportCall)

/-- `writeBlockWithState` (core/blockchain.go:992-1123) with the state of the parent, which
    execution has left as it was.  No block is preserved (`shouldPreserve` is false), and there
    is nothing to reorganise, since the parent is the head. -/
def writeBlockWithState (block : Block) (root : Hash) : BlockChain L × Option ImportError :=
  if block.header.parentHash ≠ L.blockHash bc.currentBlock then (bc, some .parentMismatch)
  else
    let bc := { bc with db := bc.db.writeBlock L.toChainLib block }
    match L.commitState bc.stateDb root block.numberU64 with
    | none => (bc, some .commitFailed)
    | some stateDb =>
      let bc := { bc with stateDb := stateDb }
      let bc :=
        if block.numberU64 ≠ bc.currentBlock.numberU64 ∨ call.coin (L.blockHash block) then
          bc.writeHeadBlock block
        else bc
      ({ bc with futureBlocks := bc.futureBlocks.remove (L.blockHash block) }, none)

/-! ## Import -/

/-- An import: the chain, the index and the error. -/
abbrev Imported (L : BlockChainLib) := BlockChain L × ℕ × Option ImportError

/-- The blocks with the results of `next`: body validation adds no errors. -/
def verified (chain : List Block) : List (Block × Option ImportError) :=
  chain.mapIdx fun i block =>
    (block, call.verifyHeader ((chain.take i).map Block.header) block.header)

/-- `addFutureBlock` (core/blockchain.go:1128-1135). -/
def addFutureBlock (block : Block) : BlockChain L × Option ImportError :=
  if call.maxTime < UInt64.ofNat block.header.time then (bc, some .tooFarInFuture)
  else ({ bc with futureBlocks := bc.futureBlocks.add (L.blockHash block) block }, none)

/-- Queue the blocks whose ancestor is unknown, from index `i` on. -/
def queueUnknown : BlockChain L → ℕ → List (Block × Option ImportError) → Imported L
  | bc, i, [] => (bc, i, none)
  | bc, i, (block, err) :: rest =>
    if err = some .unknownAncestor then
      match bc.addFutureBlock call block with
      | (bc, some err) => (bc, i, some err)
      | (bc, none) => queueUnknown bc (i + 1) rest
    else (bc, i, err)

/-- Queue a block and its descendants. -/
def queueFuture (i : ℕ) (block : Block) (rest : List (Block × Option ImportError)) : Imported L :=
  match bc.addFutureBlock call block with
  | (bc, some err) => (bc, i, some err)
  | (bc, none) => queueUnknown call bc (i + 1) rest

/-- `reportBlock`. -/
def reportBlock (block : Block) : BlockChain L :=
  { bc with badBlocks := bc.badBlocks.add (L.blockHash block) block }

/-- The import of one block (core/blockchain.go:1325-1399), given the header before it in the
    batch and what follows it.  The missing parent of the first block is a nil dereference, and so
    is the prefetcher, which `NewBlockChain` does not set. -/
def importBlock (previous : Option Header) (block : Block)
    (rest : List (Block × Option ImportError)) : Option (BlockChain L × Option ImportError) := do
  let (bc, parent) ←
    match previous with
    | some parent => some (bc, parent)
    | none =>
      match bc.getHeader block.header.parentHash (block.numberU64 - 1) with
      | (_, none) => none
      | (bc, some parent) => some (bc, parent)
  if !L.hasState bc.stateDb parent.root then some (bc, some .missingState)
  else if !bc.noPrefetch && rest.head?.any (fun followup => followup.2.isNone) then none
  else some (bc.writeBlockWithState call block parent.root)

/-- The import loop (core/blockchain.go:1283-1457) from index `i` on. -/
def importLoop : BlockChain L → ℕ → Option Header → List (Block × Option ImportError) →
    Option (Imported L)
  | bc, i, _, [] => some (bc, i, none)
  | bc, i, previous, (block, err) :: rest =>
    match err with
    | none =>
      if bc.procInterrupt then some (bc, i, none)
      else if L.blockHash block ∈ L.badHashes then
        some (bc.reportBlock block, i, some .blacklistedHash)
      else do
        match ← bc.importBlock call previous block rest with
        | (bc, some err) => some (bc, i, some err)
        | (bc, none) => importLoop bc (i + 1) (some block.header) rest
    | some .knownBlock =>
      if bc.procInterrupt then some (bc, i, some .knownBlock)
      else if L.blockHash block ∈ L.badHashes then
        some (bc.reportBlock block, i, some .blacklistedHash)
      else do
        match ← bc.writeKnownBlock block with
        | (bc, some err) => some (bc, i, some err)
        | (bc, none) => importLoop bc (i + 1) (some block.header) rest
    | some .futureBlock => some (bc.queueFuture call i block rest)
    | some err => some (bc, i, some err)

/-! ## Side chains -/

/-- The blocks of a side chain go to the database (core/blockchain.go:1477-1522): the index after
    them, or an error. -/
def writeSideChain : BlockChain L → ℕ → Option Header → List (Block × Option ImportError) →
    BlockChain L × ℕ × Except ImportError (Option Header)
  | bc, i, previous, [] => (bc, i, .ok previous)
  | bc, i, previous, (block, err) :: rest =>
    if err = some .prunedAncestor then
      let number := block.numberU64
      let (bc, canonical) :=
        if number ≤ bc.currentBlock.numberU64 then bc.getBlockByNumber number else (bc, none)
      if canonical.any fun c => L.blockHash c = L.blockHash block then
        writeSideChain bc (i + 1) (some block.header) rest
      else if canonical.any fun c => c.header.root = block.header.root then
        (bc, i, .error .ghostState)
      else
        let bc :=
          if bc.hasBlock (L.blockHash block) number then bc
          else { bc with db := bc.db.writeBlock L.toChainLib block }
        writeSideChain bc (i + 1) (some block.header) rest
    else (bc, i, .ok previous)

/-- The headers from `parent` back to one that has its state (core/blockchain.go:1535-1541), and
    whether there is one. -/
def pruned : ℕ → BlockChain L → Option Header → List (Hash × UInt64) →
    Option (BlockChain L × Bool × List (Hash × UInt64))
  | 0, _, _, _ => none
  | _ + 1, bc, none, acc => some (bc, false, acc)
  | fuel + 1, bc, some parent, acc =>
    if L.hasState bc.stateDb parent.root then some (bc, true, acc)
    else
      let r := bc.getHeader parent.parentHash (parent.numberU64 - 1)
      pruned fuel r.1 r.2 (acc ++ [(L.headerHash parent, parent.numberU64)])

/-- The pruned blocks are imported in batches (core/blockchain.go:1555-1579). -/
def importPruned (insert : BlockChain L → List Block → Option (Imported L)) :
    BlockChain L → List Block → List (Hash × UInt64) → Option (Imported L)
  | bc, blocks, [] => if blocks.isEmpty then some (bc, 0, none) else insert bc blocks
  | bc, blocks, (hash, number) :: rest =>
    match bc.getBlock hash number with
    | (_, none) => none
    | (bc, some block) =>
      let blocks := blocks ++ [block]
      if 2048 ≤ blocks.length ∨ 64 * 1024 * 1024 < (blocks.map L.blockSize).sum then do
        match ← insert bc blocks with
        | (bc, _, some err) => some (bc, 0, some err)
        | (bc, _, none) =>
          if bc.procInterrupt then some (bc, 0, none) else importPruned insert bc [] rest
      else importPruned insert bc blocks rest

/-- `insertSideChain` (core/blockchain.go:1465-1579). -/
def insertSideChain (insert : BlockChain L → List Block → Option (Imported L)) (i : ℕ)
    (previous : Option Header) (rest : List (Block × Option ImportError)) :
    Option (Imported L) := do
  match writeSideChain bc i previous rest with
  | (bc, i, .error err) => some (bc, i, some err)
  | (bc, i, .ok previous) =>
    match ← pruned chainFuel bc previous [] with
    | (bc, false, _) => some (bc, i, some .missingParent)
    | (bc, true, hashes) => importPruned insert bc [] hashes.reverse

/-! ## `InsertChain` -/

/-- Trim the known blocks at the front (core/blockchain.go:1228-1260): the index and the header
    before what is left. -/
def skipKnown : ℕ → Option Header → List (Block × Option ImportError) →
    ℕ × Option Header × List (Block × Option ImportError)
  | i, previous, [] => (i, previous, [])
  | i, previous, (block, err) :: rest =>
    if err = some .knownBlock then skipKnown (i + 1) (some block.header) rest
    else (i, previous, (block, err) :: rest)

/-- `insertChain` (core/blockchain.go:1187-1457). -/
def insertChainLocked : ℕ → BlockChain L → List Block → Option (Imported L)
  | 0, _, _ => none
  | fuel + 1, bc, chain =>
    if bc.procInterrupt then some (bc, 0, none)
    else
      let (i, previous, rest) := skipKnown 0 none (verified call chain)
      match rest with
      | (block, some err) :: tail =>
        if err = .prunedAncestor then
          bc.insertSideChain (insertChainLocked fuel) i previous rest
        else if err = .futureBlock ∨ err = .unknownAncestor ∧
            chain.head?.any (fun first => bc.futureBlocks.contains first.header.parentHash) then
          if i = 0 ∨ err = .unknownAncestor then some (bc.queueFuture call i block tail)
          else some (bc, i, some err)
        else
          let bc := { bc with futureBlocks := bc.futureBlocks.remove (L.blockHash block) }
          some (bc.reportBlock block, i, some err)
      | _ => importLoop call bc i previous rest

/-- The blocks are ordered and linked (core/blockchain.go:1158-1169). -/
def contiguous (L : ChainLib) : List Block → Bool
  | [] => true
  | [_] => true
  | prev :: block :: rest =>
    decide (block.numberU64 = prev.numberU64 + 1 ∧ block.header.parentHash = L.blockHash prev) &&
      contiguous L (block :: rest)

/-- `InsertChain` (core/blockchain.go:1143-1177). -/
def insertChain (chain : List Block) : Option (Imported L) :=
  if chain.isEmpty then some (bc, 0, none)
  else if !contiguous L.toChainLib chain then some (bc, 0, some .nonContiguous)
  else insertChainLocked call chainFuel bc chain

/-! ## Rewinding -/

/-- Go back to a block that has its state (core/blockchain.go:497-521). -/
def rewindToState : ℕ → BlockChain L → Block → Option (BlockChain L × Block)
  | 0, _, _ => none
  | fuel + 1, bc, block =>
    if L.hasState bc.stateDb block.header.root then some (bc, block)
    else
      match bc.getBlock block.header.parentHash (block.numberU64 - 1) with
      | (_, none) => none
      | (bc, some parent) => rewindToState fuel bc parent

/-- The head block follows a header (core/blockchain.go:482-531). -/
def updateHeadBlock (header : Header) : Option (BlockChain L) :=
  if header.numberU64 ≤ bc.currentBlock.numberU64 then do
    let (bc, newHeadBlock) ←
      match bc.getBlock (L.headerHash header) header.numberU64 with
      | (bc, none) => some (bc, bc.genesisBlock)
      | (bc, some block) => rewindToState chainFuel bc block
    some { bc with
      db := { bc.db with headBlockHash := L.blockHash newHeadBlock }
      currentBlock := newHeadBlock }
  else some bc

/-- The head of fast sync follows a header (core/blockchain.go:533-548). -/
def updateFastBlock (header : Header) : BlockChain L :=
  if header.numberU64 < bc.currentFastBlock.numberU64 then
    let r := bc.getBlock (L.headerHash header) header.numberU64
    let block := r.2.getD bc.genesisBlock
    { r.1 with
      db := { r.1.db with headFastBlockHash := L.blockHash block }
      currentFastBlock := block }
  else bc

/-- `updateFn` of `SetHeadBeyondRoot` (core/blockchain.go:477-550) without a root; nothing is
    wiped, since there is no freezer. -/
def updateFn (header : Header) : Option (BlockChain L) := do
  let bc ← bc.updateHeadBlock header
  some (bc.updateFastBlock header)

/-- The numbers from `number` on under which headers are stored, the highest first
    (core/headerchain.go:487-492). -/
def leftovers (db : ChainDb) : ℕ → UInt64 → List UInt64 → Option (List UInt64)
  | 0, _, _ => none
  | fuel + 1, number, nums =>
    if (db.readAllHashes number).isEmpty then some nums
    else leftovers db fuel (number + 1) (number :: nums)

/-- What is deleted with a number (core/headerchain.go:496-510): every header stored under it, or
    the header itself if there is none. -/
def deletions (db : ChainDb) (header : Header) (nums : List UInt64) : List (UInt64 × List Hash) :=
  nums.map fun num =>
    let hashes := db.readAllHashes num
    (num, if hashes.isEmpty then [L.headerHash header] else hashes)

/-- The loop of `HeaderChain.SetHead` (core/headerchain.go:450-511), with the deletions so far,
    which are written at the end.  For the largest number `delFn` takes the block for a frozen one
    and ends the process. -/
def rewindHeaders (head : UInt64) : ℕ → BlockChain L → Bool → List (UInt64 × List Hash) →
    Option (BlockChain L × List (UInt64 × List Hash))
  | 0, _, _, _ => none
  | fuel + 1, bc, origin, batch =>
    let header := bc.currentHeader
    let num := header.numberU64
    if head < num then do
      let r := bc.getHeader header.parentHash (num - 1)
      let parent := r.2.getD bc.genesisHeader
      let bc ← r.1.updateFn parent
      let bc := { bc with
        db := { bc.db with headHeaderHash := header.parentHash }
        currentHeader := parent }
      let above ← if origin then leftovers bc.db chainFuel (num + 1) [] else some []
      if maxBlockNum ∈ above ++ [num] then none
      else
        rewindHeaders head fuel bc false
          (batch ++ deletions (L := L) bc.db header (above ++ [num]))
    else some (bc, batch)

/-- The deletions of one number: `delFn` and `DeleteHeader` for every hash, and
    `DeleteCanonicalHash`. -/
def deleteNumber (db : ChainDb) (entry : UInt64 × List Hash) : ChainDb :=
  (entry.2.foldl (fun db hash => (db.deleteBody hash entry.1).deleteHeader hash entry.1)
    db).deleteCanonicalHash entry.1

/-- `HeaderChain.SetHead` (core/headerchain.go:444-519). -/
def setHeadHeader (head : UInt64) : Option (BlockChain L) := do
  let (bc, batch) ← rewindHeaders head chainFuel bc true []
  some { bc with
    db := batch.foldl deleteNumber bc.db
    headerCache := bc.headerCache.purge
    numberCache := bc.numberCache.purge }

/-- `loadLastState` (core/blockchain.go:398-447) with the lock held: a database without a head
    block is reset, which takes the lock again. -/
def loadLastState : Option (BlockChain L) :=
  if bc.db.headBlockHash = zeroHash then none
  else
    match bc.getBlockByHash bc.db.headBlockHash with
    | (_, none) => none
    | (bc, some block) =>
      let bc := { bc with currentBlock := block }
      let r := if bc.db.headHeaderHash = zeroHash then (bc, none)
        else bc.getHeaderByHash bc.db.headHeaderHash
      let bc := r.1.setCurrentHeader (r.2.getD block.header)
      let bc := { bc with currentFastBlock := block }
      let r := if bc.db.headFastBlockHash = zeroHash then (bc, none)
        else bc.getBlockByHash bc.db.headFastBlockHash
      some { r.1 with currentFastBlock := r.2.getD block }

/-- `SetHead` (core/blockchain.go:452-591). -/
def setHead (head : UInt64) : Option (BlockChain L) := do
  let bc ←
    if bc.currentBlock.numberU64 = head then bc.updateFn bc.currentBlock.header
    else bc.setHeadHeader head
  { bc with
    blockCache := bc.blockCache.purge
    futureBlocks := bc.futureBlocks.purge }.loadLastState

/-! ## Construction -/

/-- A bad block that is canonical is rewound (core/blockchain.go:297-311). -/
def dropBadHash (hash : Hash) : Option (BlockChain L) :=
  match bc.getHeaderByHash hash with
  | (bc, none) => some bc
  | (bc, some header) =>
    match bc.getHeaderByNumber header.numberU64 with
    | (bc, none) => some bc
    | (bc, some canonical) =>
      if L.headerHash canonical = L.headerHash header then bc.setHead (header.numberU64 - 1)
      else some bc

/-- `NewBlockChain` (core/blockchain.go:173-348) on a database that has its head block: a database
    without one is left out. -/
def newBlockChain (db : ChainDb) (stateDb : L.StateDb) (noPrefetch : Bool) :
    Option (BlockChain L) := do
  let genesis ← db.readBlock (db.readCanonicalHash 0) 0
  let bc : BlockChain L :=
    { db := db
      stateDb := stateDb
      genesisHeader := genesis.header
      currentHeader := genesis.header
      headerCache := .new 512
      numberCache := .new 2048
      genesisBlock := genesis
      currentBlock := genesis
      currentFastBlock := genesis
      blockCache := .new 256
      futureBlocks := .new 256
      badBlocks := .new 10
      lastCommitsCache := none
      procInterrupt := false
      noPrefetch := noPrefetch }
  let bc := (bc.getHeaderByNumber 0).1
  let bc := if db.headBlockHash = zeroHash then bc else (bc.getHeaderByHash db.headBlockHash).1
  let bc ← (bc.getBlockByNumber 0).1.loadLastState
  let bc ←
    if L.hasState bc.stateDb bc.currentBlock.header.root then some bc
    else bc.setHead bc.currentBlock.numberU64
  L.badHashes.foldlM dropBadHash bc

/-! ## Commit signatures -/

/-- `WriteCommitSig` (core/blockchain.go:1963-1970): the database, and the chain unless the nil
    cache is dereferenced. -/
def writeCommitSig (blockNum : UInt64) (lastCommits : Bytes) : ChainDb × Option (BlockChain L) :=
  let db := { bc.db with commitSigs := bc.db.commitSigs.insert blockNum lastCommits }
  (db, bc.lastCommitsCache.map fun cache =>
    { bc with db := db, lastCommitsCache := some (cache.add blockNum lastCommits) })

/-- `ReadCommitSig` (core/blockchain.go:1974-1984): `none` is the dereference of the nil cache,
    `some none` an error. -/
def readCommitSig (blockNum : UInt64) : Option (Option Bytes) :=
  bc.lastCommitsCache.map fun cache =>
    match cache.peek blockNum with
    | some lastCommits => some lastCommits
    | none =>
      match bc.db.commitSigs.lookup blockNum with
      | some lastCommits => some lastCommits
      | none => bc.db.lastCommits

end BlockChain

end Benzene
