import Benzene.Core.Rawdb

/-!
# The genesis block

Model of core/genesis.go:141-287.  `none` is a call that does not return: `os.Exit(1)` of
`ToBlock` without a database, or a nil dereference.

`SetupGenesisBlock` asks `ToBlock(nil)` for the hash of the given genesis block whenever the
database has one already.  `setup_returns_once`: after a successful setup no second
one with a genesis specification returns.
-/

namespace Benzene

/-- `GenesisAccount` (core/genesis.go:68-75), without the key for tests. -/
structure GenesisAccount where
  code : Bytes
  storage : GoMap Hash Hash
  shardID : UInt64
  balance : ℤ
  nonce : UInt64

/-- `GenesisAlloc`. -/
abbrev GenesisAlloc := GoMap Address GenesisAccount

/-- `Genesis` (core/genesis.go:32-49), as far as `ToBlock` reads it. -/
structure Genesis where
  config : Option ChainConfig
  shardID : UInt64
  timestamp : UInt64
  alloc : GenesisAlloc
  number : UInt64
  parentHash : Hash

/-- What the setup of a genesis block takes from elsewhere. -/
structure GenesisLib extends ChainLib where
  /-- The root of the state with the accounts of an allocation. -/
  stateRoot : GenesisAlloc → Hash
  /-- `types.EmptyRootHash`. -/
  emptyRootHash : Hash
  /-- `decodePrealloc(mainnetAllocData, shardID)`. -/
  prealloc : UInt64 → GenesisAlloc

/-- The errors of `SetupGenesisBlock`: `errGenesisNoConfig`,
    `"can't commit genesis block with number > 0"`, `GenesisMismatchError` and
    `"missing block number for head header hash"`. -/
inductive GenesisError
  | noConfig
  | numberAboveZero
  | mismatch (stored new : Hash)
  | missingHeadNumber
deriving DecidableEq

/-- What `SetupGenesisBlock` leaves and returns. -/
structure GenesisSetup where
  db : ChainDb
  config : Option ChainConfig
  hash : Hash
  err : Option GenesisError

namespace ChainDb

variable (L : GenesisLib) (db : ChainDb)

/-- `state.New(root, …)` succeeds: the trie is empty or on disk. -/
def hasState (root : Hash) : Bool :=
  decide (root = zeroHash ∨ root = L.emptyRootHash) || (db.states.lookup root).isSome

/-- The writes of `Commit` (core/genesis.go:258-263). -/
def commitGenesis (L : ChainLib) (db : ChainDb) (block : Block) (config : ChainConfig) : ChainDb :=
  let hash := L.blockHash block
  { (db.writeBlock L block).writeCanonicalHash hash block.numberU64 with
    headBlockHash := hash
    headFastBlockHash := hash
    headHeaderHash := hash }.writeChainConfig hash (some config)

end ChainDb

/-- `params.DefaultChainConfig`. -/
def defaultChainConfig : ChainConfig := {}

namespace Genesis

variable (L : GenesisLib) (g : Genesis)

/-- The block of a genesis specification (core/genesis.go:233-244). -/
def block : Block where
  header :=
    { parentHash := g.parentHash
      root := L.stateRoot g.alloc
      txHash := L.emptyRootHash
      number := g.number.toNat
      gasLimit := 0
      gasUsed := 0
      time := g.timestamp.toNat
      shardID := g.shardID
      lastCommitSignature := zeroBytes 96
      lastCommitBitmap := [] }
  transactions := []

/-- `ToBlock` (core/genesis.go:219-245): the state goes to the database, and the process ends
    when there is none. -/
def toBlock : Option ChainDb → Option (ChainDb × Block)
  | none => none
  | some db => some ({ db with states := db.states.insert (L.stateRoot g.alloc) () }, g.block L)

/-- `Commit` (core/genesis.go:249-266). -/
def commit (db : ChainDb) : Option (ChainDb × Except GenesisError Block) := do
  let (db, block) ← g.toBlock L (some db)
  if block.header.number ≠ 0 then some (db, .error .numberAboveZero)
  else some (db.commitGenesis L.toChainLib block (g.config.getD defaultChainConfig), .ok block)

/-- `DefaultGenesisBlock` (core/genesis.go:279-287). -/
def default (shardID : UInt64) : Genesis where
  config := some defaultChainConfig
  shardID := shardID
  timestamp := 1561734000
  alloc := L.prealloc shardID
  number := 0
  parentHash := zeroHash

/-- The given specification, or `DefaultGenesisBlock(*rawdb.ReadShardID(db))`. -/
def orDefault (db : ChainDb) : Option Genesis → Option Genesis
  | some g => some g
  | none => db.shardID.map (default L)

/-- Commit a specification and return its configuration and hash. -/
def commitAndReturn (db : ChainDb) (failed : Hash) : Option GenesisSetup := do
  let (db, result) ← g.commit L db
  match result with
  | .error err => some ⟨db, g.config, failed, some err⟩
  | .ok block => some ⟨db, g.config, L.blockHash block, none⟩

end Genesis

/-- The end of `SetupGenesisBlock` (core/genesis.go:188-205): the configuration is written
    again. -/
def updateConfig (db : ChainDb) (stored : Hash) (newcfg : Option ChainConfig) : GenesisSetup :=
  match db.readChainConfig stored with
  | none => ⟨db.writeChainConfig stored newcfg, newcfg, stored, none⟩
  | some _ =>
    match db.readHeaderNumber db.headHeaderHash with
    | none => ⟨db, newcfg, stored, some .missingHeadNumber⟩
    | some _ => ⟨db.writeChainConfig stored newcfg, newcfg, stored, none⟩

/-- `SetupGenesisBlock` on a database with a genesis block (core/genesis.go:161-205). -/
def setupStored (L : GenesisLib) (db : ChainDb) (stored : Hash) (genesis : Option Genesis) :
    Option GenesisSetup := do
  let header ← db.readHeader stored 0
  if !db.hasState L header.root then
    let genesis ← Genesis.orDefault L db genesis
    let (_, block) ← genesis.toBlock L none
    let hash := L.blockHash block
    if hash ≠ stored then some ⟨db, genesis.config, hash, some (.mismatch stored hash)⟩
    else genesis.commitAndReturn L db hash
  else
    match genesis with
    | none => some (updateConfig db stored (some defaultChainConfig))
    | some genesis =>
      let (_, block) ← genesis.toBlock L none
      let hash := L.blockHash block
      if hash ≠ stored then some ⟨db, genesis.config, hash, some (.mismatch stored hash)⟩
      else some (updateConfig db stored genesis.config)

/-- `SetupGenesisBlock` (core/genesis.go:141-206). -/
def setupGenesisBlock (L : GenesisLib) (db : ChainDb) (genesis : Option Genesis) :
    Option GenesisSetup :=
  if genesis.any fun g => g.config.isNone then
    some ⟨db, some defaultChainConfig, zeroHash, some .noConfig⟩
  else
    let stored := db.readCanonicalHash 0
    if stored = zeroHash then do
      let genesis ← Genesis.orDefault L db genesis
      genesis.commitAndReturn L db zeroHash
    else setupStored L db stored genesis

/-! ## A second setup -/

variable {L : GenesisLib} {db : ChainDb} {g : Genesis}

theorem readCanonicalHash_commitGenesis (db : ChainDb) (block : Block) (config : ChainConfig) :
    (db.commitGenesis L.toChainLib block config).readCanonicalHash block.numberU64 =
      L.blockHash block := by
  simp only [ChainDb.commitGenesis, ChainDb.writeChainConfig, ChainDb.writeCanonicalHash,
    ChainDb.readCanonicalHash, AList.lookup_insert, Option.getD_some]

/-- A specification that is committed is the genesis block of the database. -/
theorem Genesis.commitAndReturn_ok {failed : Hash} {r : GenesisSetup}
    (hr : g.commitAndReturn L db failed = some r) (hok : r.err = none) :
    r.db.readCanonicalHash 0 = r.hash ∧ r.hash = L.blockHash (g.block L) := by
  simp only [commitAndReturn, commit, toBlock, Option.bind_eq_bind, Option.bind_some] at hr
  split_ifs at hr with hnumber
  · obtain rfl := Option.some.inj hr
    cases hok
  · obtain rfl := Option.some.inj hr
    have hzero : (g.block L).numberU64 = 0 := by
      rw [Block.numberU64, Header.numberU64, not_not.1 hnumber]
      rfl
    refine ⟨?_, rfl⟩
    have hread := readCanonicalHash_commitGenesis (L := L)
      { db with states := db.states.insert (L.stateRoot g.alloc) () } (g.block L)
      (g.config.getD defaultChainConfig)
    rw [hzero] at hread
    exact hread

/-- With a genesis block in the database, a specification brings the process to `os.Exit`. -/
theorem setupStored_eq_none (stored : Hash) (g : Genesis) :
    setupStored L db stored (some g) = none := by
  cases hheader : db.readHeader stored 0 with
  | none => simp [setupStored, hheader]
  | some header => simp [setupStored, hheader, Genesis.orDefault, Genesis.toBlock]

theorem any_config_eq_false (hconfig : g.config.isSome) :
    (some g).any (fun g => g.config.isNone) = false := by
  rw [Option.any_some, Option.isNone_eq_false_iff]
  exact hconfig

theorem setupGenesisBlock_of_stored (hconfig : g.config.isSome)
    (hstored : db.readCanonicalHash 0 ≠ zeroHash) : setupGenesisBlock L db (some g) = none := by
  simp only [setupGenesisBlock, any_config_eq_false hconfig, Bool.false_eq_true, if_false, hstored]
  exact setupStored_eq_none _ g

/-- A successful setup leaves the block of its specification in the database. -/
theorem setupGenesisBlock_ok {r : GenesisSetup} (hconfig : g.config.isSome)
    (hr : setupGenesisBlock L db (some g) = some r) (hok : r.err = none) :
    r.db.readCanonicalHash 0 = r.hash ∧ r.hash = L.blockHash (g.block L) := by
  by_cases hstored : db.readCanonicalHash 0 = zeroHash
  · simp only [setupGenesisBlock, any_config_eq_false hconfig, Bool.false_eq_true, if_false,
      hstored, if_true, Genesis.orDefault, Option.bind_eq_bind, Option.bind_some] at hr
    exact Genesis.commitAndReturn_ok hr hok
  · rw [setupGenesisBlock_of_stored hconfig hstored] at hr
    cases hr

/-- The database still has the genesis block of a setup, whatever else has been written to it or
    lost from it. -/
def GenesisSetup.KeptIn (r : GenesisSetup) (db : ChainDb) : Prop :=
  db.readCanonicalHash 0 = r.hash

/-- A second setup with the same specification returns its configuration and hash; one with a
    specification of another block returns a mismatch and leaves the genesis block and the heads
    alone. -/
structure GenesisSetup.Idempotent (L : GenesisLib) (g : Genesis) (r : GenesisSetup)
    (db : ChainDb) : Prop where
  same : ∃ r', setupGenesisBlock L db (some g) = some r' ∧ r'.config = g.config ∧
    r'.hash = r.hash ∧ r'.err = none
  other : ∀ g' : Genesis, g'.config.isSome → L.blockHash (g'.block L) ≠ r.hash →
    ∃ r', setupGenesisBlock L db (some g') = some r' ∧
      r'.err = some (.mismatch r.hash (L.blockHash (g'.block L))) ∧
      r'.db.readCanonicalHash 0 = r.hash ∧ r'.db.headBlockHash = db.headBlockHash ∧
      r'.db.headHeaderHash = db.headHeaderHash

/-- **No second setup.** After a successful setup, on no database that keeps its genesis block
    does a setup with a specification return, be it the same or another one. -/
theorem setup_returns_once (L : GenesisLib) (db : ChainDb) (g : Genesis)
    (hconfig : g.config.isSome) (r : GenesisSetup)
    (hr : setupGenesisBlock L db (some g) = some r) (hok : r.err = none) :
    r.KeptIn r.db ∧ ∀ db', r.KeptIn db' → ¬ r.Idempotent L g db' ∧
      ∀ g' : Genesis, g'.config.isSome → setupGenesisBlock L db' (some g') = none := by
  obtain ⟨hkept, hhash⟩ := setupGenesisBlock_ok hconfig hr hok
  refine ⟨hkept, fun db' hkept' => ?_⟩
  have hstored : db'.readCanonicalHash 0 ≠ zeroHash := by
    rw [hkept', hhash]
    exact L.headerHash_ne_zero _
  refine ⟨fun hidem => ?_, fun g' hconfig' => setupGenesisBlock_of_stored hconfig' hstored⟩
  obtain ⟨r', hr', -⟩ := hidem.same
  rw [setupGenesisBlock_of_stored hconfig hstored] at hr'
  cases hr'

namespace Concrete

def genesisLib : GenesisLib where
  toChainLib := chainLib
  stateRoot _ := copyBytes 32 [7]
  emptyRootHash := copyBytes 32 [9]
  prealloc _ := ∅

/-- A genesis specification without accounts. -/
def genesisSpec (timestamp : UInt64) : Genesis where
  config := some {}
  shardID := 0
  timestamp := timestamp
  alloc := ∅
  number := 0
  parentHash := zeroHash

/-- The setup of an empty database. -/
def firstSetup : GenesisSetup :=
  (setupGenesisBlock genesisLib .empty (some (genesisSpec 0))).get (by decide +kernel)

/-- The first setup succeeds, and the second ends the process. -/
theorem second_setup_exits :
    (genesisSpec 0).config.isSome ∧ firstSetup.err = none ∧
      setupGenesisBlock genesisLib .empty (some (genesisSpec 0)) = some firstSetup ∧
      setupGenesisBlock genesisLib firstSetup.db (some (genesisSpec 0)) = none ∧
      ¬ firstSetup.Idempotent genesisLib (genesisSpec 0) firstSetup.db := by
  have hexit : setupGenesisBlock genesisLib firstSetup.db (some (genesisSpec 0)) = none := by
    decide +kernel
  refine ⟨rfl, by decide +kernel, (Option.some_get _).symm, hexit, fun hidem => ?_⟩
  obtain ⟨r', hr', -⟩ := hidem.same
  rw [hexit] at hr'
  cases hr'

theorem firstSetup_returns_once :
    firstSetup.KeptIn firstSetup.db ∧ ∀ db', firstSetup.KeptIn db' →
      ¬ firstSetup.Idempotent genesisLib (genesisSpec 0) db' ∧
      ∀ g' : Genesis, g'.config.isSome → setupGenesisBlock genesisLib db' (some g') = none :=
  setup_returns_once genesisLib .empty (genesisSpec 0) rfl firstSetup (Option.some_get _).symm
    (by decide +kernel)

end Concrete

end Benzene
