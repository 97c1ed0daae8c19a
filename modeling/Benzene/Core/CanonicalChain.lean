import Benzene.Common.Run
import Benzene.Core.Rewind

/-!
# Runs of imports and rewinds

A run of `InsertChain` and `SetHead` calls with the shipped engine, from the chain that
`NewBlockChain` builds over a database with a genesis block.

`canonicalChain_of_run`: the canonical index stays that of one linked chain up to the head, in
every run whose imports on top of the head count up from it and whose rewinds go to blocks that
have their state.  Both conditions are needed: the import path never compares the number of a
block with that of its parent, and a rewind to a block without its state moves the head below the
index (`index_with_gap`).
-/

namespace Benzene

/-- A database without headers and canonical hashes. -/
structure ChainDb.Blank (db : ChainDb) : Prop where
  canonical : db.canonical = ∅
  headers : db.headers = ∅
  headerNumbers : db.headerNumbers = ∅

namespace BlockChain

variable {L : BlockChainLib} {known : Header → Prop} {bc bc' : BlockChain L} {path : List Header}
  {h : Header}

/-! ## Events -/

inductive ChainEvent
  | insertChain (coin : Hash → Bool) (maxTime : UInt64) (chain : List Block)
  | setHead (head : UInt64)

/-- The blocks that an event brings in. -/
def ChainEvent.blocks : ChainEvent → List Block
  | .insertChain _ _ chain => chain
  | .setHead _ => []

/-- One call on a chain, whatever error it returns. -/
def chainStep (bc : BlockChain L) : ChainEvent → Option (BlockChain L)
  | .insertChain coin maxTime chain =>
    (bc.insertChain (shippedCall coin maxTime) chain).map Prod.fst
  | .setHead head => bc.setHead head

/-- An import counts up from the head, if it starts there, and a rewind goes to a canonical block
    that has its state, if there is one. -/
def Admissible (bc : BlockChain L) : ChainEvent → Prop
  | .insertChain _ _ chain => Follows bc chain
  | .setHead head => ∀ header,
    bc.db.readHeader (bc.db.readCanonicalHash head) head = some header →
      L.hasState bc.stateDb header.root = true

/-- The headers of a run. -/
def RunHeader (genesis : Block) (events : List ChainEvent) (h : Header) : Prop :=
  h = genesis.header ∨ ∃ e ∈ events, ∃ b ∈ e.blocks, b.header = h

/-- An admissible call keeps a path. -/
theorem Represents.chainStep (hr : Represents known bc path)
    (hapart : HashesApart L.headerHash known) {e : ChainEvent} (hok : Admissible bc e)
    (hblocks : ∀ b ∈ e.blocks, known b.header) (h : bc.chainStep e = some bc') :
    ∃ path', Represents known bc' path' := by
  cases e with
  | insertChain coin maxTime chain =>
    obtain ⟨r, hinsert, rfl⟩ := Option.map_eq_some_iff.1 h
    exact hr.insertChain hapart hblocks hok hinsert
  | setHead head =>
    refine hr.setHead hapart (fun header hget => hok header ?_) h
    have hmem := List.mem_of_getElem? hget
    have hnum : header.numberU64 = head := by
      rw [← UInt64.toNat_inj, hr.toNat_of_getElem? hget]
    rw [hr.readCanonicalHash_eq hget, ← hnum]
    exact (hr.held header hmem).header

/-! ## The first chain -/

theorem Represents.mono {known' : Header → Prop} (hr : Represents known bc path)
    (hk : ∀ h, known h → known' h) : Represents known' bc path :=
  { hr with
    sound := hr.sound.mono hk
    known_of_mem := fun h hh => hk h (hr.known_of_mem h hh) }

section Genesis

variable {genesis : Block}

/-- The chain that `NewBlockChain` makes, before it reads anything. -/
def unreadChain (L : BlockChainLib) (db : ChainDb) (stateDb : L.StateDb) (noPrefetch : Bool)
    (genesis : Block) : BlockChain L where
  db := db
  stateDb := stateDb
  genesisHeader := genesis.header
  currentHeader := genesis.header
  headerCache := .new 512
  numberCache := .new 2048
  genesisBlock := genesis
  currentBlock := genesis
  currentFastBlock := genesis
  blockCache := .new 256
  futureBlocks := .new 256
  badBlocks := .new 10
  lastCommitsCache := none
  procInterrupt := false
  noPrefetch := noPrefetch

/-- Over a database with a genesis block, the path has its header alone. -/
theorem indexed_unreadChain {db : ChainDb} (hblank : db.Blank)
    (hnumber : genesis.header.number = 0) (config : ChainConfig) (stateDb : L.StateDb)
    (noPrefetch : Bool) (genesis' : Block) :
    Indexed (· = genesis.header) (unreadChain L (db.commitGenesis L.toChainLib genesis config)
      stateDb noPrefetch genesis') [genesis.header] where
  sound := by
    have hs : Sound (· = genesis.header) (unreadChain L db stateDb noPrefetch genesis') :=
      ⟨by simp [unreadChain, hblank.headers], by simp [unreadChain, hblank.headerNumbers],
        .new _ _, .new _ _, .new _ _⟩
    exact (hs.storeBlock rfl).congr rfl
  linked := .singleton hnumber
  length_le := by norm_num
  known_of_mem h hh := List.mem_singleton.1 hh
  held h hh := by
    obtain rfl := List.mem_singleton.1 hh
    exact ⟨AList.lookup_insert _, ⟨_, AList.lookup_insert _⟩, AList.lookup_insert _⟩
  canonical n := by
    have hzero : genesis.numberU64 = 0 := by
      rw [Block.numberU64, Header.numberU64, hnumber]
      rfl
    change (db.canonical.insert genesis.numberU64 (L.blockHash genesis)).lookup n = _
    rw [hblank.canonical, hzero, GoMap.lookup_insert_eq]
    split_ifs with hn
    · subst hn
      rfl
    · have hpos : n.toNat ≠ 0 := fun heq => hn (UInt64.toNat_inj.1 heq)
      rw [List.getElem?_eq_none (by rw [List.length_singleton]; omega)]
      rfl

/-- The head block if it has its state, and the chain rewound from it otherwise. -/
def repairHead (bc : BlockChain L) : Option (BlockChain L) :=
  if L.hasState bc.stateDb bc.currentBlock.header.root then some bc
  else bc.setHead bc.currentBlock.numberU64

theorem genesis_apart : HashesApart L.headerHash (· = genesis.header) :=
  fun _ _ hx hy _ => hx.trans hy.symm

/-- With no other header around, a genesis block without its state cannot be rewound. -/
theorem Represents.repairHead (hr : Represents (· = genesis.header) bc path)
    (h : bc.repairHead = some bc') : bc' = bc := by
  rw [BlockChain.repairHead] at h
  split_ifs at h with hstate
  · exact (Option.some.inj h).symm
  · exfalso
    rw [setHead_eq, if_pos rfl] at h
    obtain ⟨bc₁, hupdate, -⟩ := Option.bind_eq_some_iff.1 h
    obtain ⟨bc₂, hupdate, -⟩ := Option.bind_eq_some_iff.1 hupdate
    obtain ⟨bc₃, b, hget, hb, hrec⟩ :=
      hr.toIndexed.getBlock genesis_apart hr.headsAt.currentBlock
    have hle : bc.currentBlock.header.numberU64 ≤ bc.currentBlock.numberU64 := UInt64.le_refl _
    simp only [BlockChain.updateHeadBlock, if_pos hle, hget] at hupdate
    obtain ⟨⟨bc₄, b'⟩, hrewind, -⟩ := Option.bind_eq_some_iff.1 hupdate
    have hcurrent := hr.known_of_mem _ hr.currentBlock_mem
    obtain ⟨-, hknown, hhas⟩ := rewindToState_recached hrewind
    have hk := hknown (hrec.sound hr.sound) (hb.trans hcurrent)
    obtain ⟨_, _, _, rfl⟩ := hrec.eq
    rw [hk, ← hcurrent] at hhas
    exact hstate hhas

/-- `dropBadHash` only reads, or it rewinds to the number before a header it has read. -/
theorem dropBadHash_cases {hash : Hash} (h : bc.dropBadHash hash = some bc') :
    ∃ bc₁, Recached known bc bc₁ ∧ (bc' = bc₁ ∨ ∃ header,
      (bc.getHeaderByHash hash).2 = some header ∧
        bc₁.setHead (header.numberU64 - 1) = some bc') := by
  have hrec : Recached known bc _ := getHeaderByHash_recached bc hash
  rw [BlockChain.dropBadHash] at h
  cases hget : bc.getHeaderByHash hash with
  | mk bc₁ header? =>
    rw [hget] at hrec h
    cases header? with
    | none => exact ⟨bc₁, hrec, Or.inl (Option.some.inj h).symm⟩
    | some header =>
      have hrec₂ := hrec.trans (getHeaderByNumber_recached bc₁ header.numberU64)
      simp only at h
      cases hget₂ : bc₁.getHeaderByNumber header.numberU64 with
      | mk bc₂ canonical? =>
        rw [hget₂] at hrec₂ h
        refine ⟨bc₂, hrec₂, ?_⟩
        cases canonical? with
        | none => exact Or.inl (Option.some.inj h).symm
        | some canonical =>
          simp only at h
          split_ifs at h
          · exact Or.inr ⟨header, rfl, h⟩
          · exact Or.inl (Option.some.inj h).symm

theorem Represents.dropBadHash (hr : Represents (· = genesis.header) bc path)
    (hnumber : genesis.header.number = 0)
    {hash : Hash} (h : bc.dropBadHash hash = some bc') :
    ∃ path', Represents (· = genesis.header) bc' path' := by
  obtain ⟨bc₁, hrec, rfl | ⟨header, hget, hset⟩⟩ := dropBadHash_cases h
  · exact ⟨path, hr.recached hrec⟩
  · obtain rfl : header = genesis.header := hr.sound.known_of_getHeaderByHash hget
    -- the number before zero is the largest one, and no header has it
    refine (hr.recached hrec).setHead genesis_apart (fun header hheader => ?_) hset
    have hk := hr.known_of_mem header (List.mem_of_getElem? hheader)
    have hnum := hr.linked.number_eq hheader
    rw [hk, hnumber, Header.numberU64, hnumber] at hnum
    cases hnum

/-- What `NewBlockChain` reads before it loads the heads. -/
def firstReads (bc : BlockChain L) : BlockChain L :=
  let bc₁ := (bc.getHeaderByNumber 0).1
  let bc₂ := if bc.db.headBlockHash = zeroHash then bc₁
    else (bc₁.getHeaderByHash bc.db.headBlockHash).1
  (bc₂.getBlockByNumber 0).1

theorem firstReads_recached (bc : BlockChain L) : Recached known bc bc.firstReads := by
  have hrec₁ : Recached known bc _ := getHeaderByNumber_recached bc 0
  have hrec₂ := hrec₁.trans (getHeaderByHash_recached _ bc.db.headBlockHash)
  rw [firstReads]
  split_ifs
  · exact hrec₁.trans (getBlockByNumber_recached _ 0)
  · exact hrec₂.trans (getBlockByNumber_recached _ 0)

theorem newBlockChain_eq (db : ChainDb) (stateDb : L.StateDb) (noPrefetch : Bool) :
    newBlockChain db stateDb noPrefetch =
      (db.readBlock (db.readCanonicalHash 0) 0).bind fun genesis =>
        (unreadChain L db stateDb noPrefetch genesis).firstReads.loadLastState.bind fun bc =>
          bc.repairHead.bind fun bc => L.badHashes.foldlM dropBadHash bc := by
  rw [newBlockChain]
  refine Option.bind_congr fun genesis _ => Option.bind_congr fun bc _ => ?_
  rw [BlockChain.repairHead]
  split_ifs <;> rfl

/-- A chain that `NewBlockChain` returns over a genesis block is represented by a path. -/
theorem represents_newBlockChain {db : ChainDb} (hblank : db.Blank)
    (hnumber : genesis.header.number = 0) {config : ChainConfig} {stateDb : L.StateDb}
    {noPrefetch : Bool}
    (h : newBlockChain (db.commitGenesis L.toChainLib genesis config) stateDb noPrefetch =
      some bc) :
    ∃ path, Represents (· = genesis.header) bc path := by
  rw [newBlockChain_eq] at h
  obtain ⟨genesis', -, h⟩ := Option.bind_eq_some_iff.1 h
  obtain ⟨bc₁, hload, h⟩ := Option.bind_eq_some_iff.1 h
  obtain ⟨bc₂, hrepair, hbad⟩ := Option.bind_eq_some_iff.1 h
  have hi := indexed_unreadChain hblank hnumber config stateDb noPrefetch genesis'
  have hrec : Recached (· = genesis.header) _ _ := firstReads_recached
    (unreadChain L (db.commitGenesis L.toChainLib genesis config) stateDb noPrefetch genesis')
  have hi₁ := hi.moved hrec.moved
  have hdb : (unreadChain L (db.commitGenesis L.toChainLib genesis config) stateDb noPrefetch
      genesis').firstReads.db = db.commitGenesis L.toChainLib genesis config := by
    obtain ⟨_, _, _, heq⟩ := hrec.eq
    rw [heq]
    rfl
  have hr := hi₁.loadLastState genesis_apart rfl (by rw [hdb]; rfl) (by rw [hdb]; rfl) hload
  obtain rfl := hr.repairHead hrepair
  exact Run.runPartial_invariant (fun _ _ => True)
    (fun bc => ∃ path, Represents (· = genesis.header) bc path)
    (fun bc hash bc' ⟨path, hr⟩ _ hdrop => hr.dropBadHash hnumber hdrop) ⟨_, hr⟩
    (Run.StepsPartial.of_forall fun _ _ _ => trivial) hbad

end Genesis

/-- In every run of imports and rewinds from a genesis block, with headers that their hashes tell
    apart and calls that are admissible, every chain reached is represented by a path. -/
theorem represents_of_run {db : ChainDb} (hblank : db.Blank) {genesis : Block}
    (hnumber : genesis.header.number = 0) {config : ChainConfig} {stateDb : L.StateDb}
    {noPrefetch : Bool} {bc₀ : BlockChain L}
    (hnew : newBlockChain (db.commitGenesis L.toChainLib genesis config) stateDb noPrefetch =
      some bc₀)
    {events : List ChainEvent} (hapart : HashesApart L.headerHash (RunHeader genesis events))
    (hok : Run.StepsPartial chainStep Admissible bc₀ events)
    (hrun : Run.runPartial chainStep bc₀ events = some bc) :
    ∃ path, Represents (RunHeader genesis events) bc path := by
  obtain ⟨path₀, hr₀⟩ := represents_newBlockChain hblank hnumber hnew
  have hblocks : ∀ e ∈ events, ∀ b ∈ e.blocks, RunHeader genesis events b.header :=
    fun e he b hb => Or.inr ⟨e, he, b, hb, rfl⟩
  exact Run.runPartial_invariant
    (fun bc e => Admissible bc e ∧ ∀ b ∈ e.blocks, RunHeader genesis events b.header)
    (fun bc => ∃ path, Represents (RunHeader genesis events) bc path)
    (fun bc e bc' ⟨path, hr⟩ hok hstep => hr.chainStep hapart hok.1 hok.2 hstep)
    ⟨path₀, hr₀.mono fun h hh => Or.inl hh⟩ (hok.and_forall hblocks) hrun

/-- **The canonical chain.** In every such run the canonical index of every chain reached is
    defined exactly up to the head, and its blocks are numbered and linked. -/
theorem canonicalChain_of_run (L : BlockChainLib) (db : ChainDb) (hblank : db.Blank)
    (genesis : Block) (hnumber : genesis.header.number = 0) (config : ChainConfig)
    (stateDb : L.StateDb) (noPrefetch : Bool) (bc₀ : BlockChain L)
    (hnew : newBlockChain (db.commitGenesis L.toChainLib genesis config) stateDb noPrefetch =
      some bc₀)
    (events : List ChainEvent) (hapart : HashesApart L.headerHash (RunHeader genesis events))
    (hok : Run.StepsPartial chainStep Admissible bc₀ events) (bc : BlockChain L)
    (hrun : Run.runPartial chainStep bc₀ events = some bc) : CanonicalChain bc :=
  let ⟨_, hr⟩ := represents_of_run hblank hnumber hnew hapart hok hrun
  hr.canonicalChain

end BlockChain

namespace Concrete

open BlockChain

/-- The import of blocks, with a coin that never picks the new block. -/
def importEvent (chain : List Block) : ChainEvent := .insertChain (fun _ => false) 0 chain

/-- A block of number 5 that names the genesis block as its parent. -/
def skippingBlock : Block := emptyBlock 5 (copyBytes 32 [7]) firstSetup.hash

/-- A block whose state is not in the database. -/
def statelessBlock : Block := emptyBlock 1 (copyBytes 32 [8]) firstSetup.hash

def skippedChain : BlockChain blockChainLib :=
  (Run.runPartial chainStep (freshChain false) [importEvent [skippingBlock]]).get
    (by decide +kernel)

def sunkChain : BlockChain blockChainLib :=
  (Run.runPartial chainStep (freshChain false) [importEvent [statelessBlock], .setHead 1]).get
    (by decide +kernel)

/-- The database of the first setup before its genesis block is committed. -/
def stateOnlyDb : ChainDb :=
  { ChainDb.empty with states := ChainDb.empty.states.insert (copyBytes 32 [7]) () }

/-- A chain that imports two blocks, goes back to the first and imports the second again. -/
def regrowth : List ChainEvent :=
  [importEvent [firstBlock, secondBlock], .setHead 1, importEvent [secondBlock]]

def grownChain : BlockChain blockChainLib :=
  (chainStep (freshChain true) (importEvent [firstBlock, secondBlock])).get (by decide +kernel)

def rewoundChain : BlockChain blockChainLib :=
  (chainStep grownChain (.setHead 1)).get (by decide +kernel)

def regrownChain : BlockChain blockChainLib :=
  (Run.runPartial chainStep (freshChain true) regrowth).get (by decide +kernel)

theorem regrowth_admissible :
    Run.StepsPartial chainStep Admissible (freshChain true) regrowth := by
  refine ⟨fun first _ _ i b hb => ?_, fun bc₁ h₁ => ?_⟩
  · rcases i with _ | _ | i
    · obtain rfl := Option.some.inj hb
      decide +kernel
    · obtain rfl := Option.some.inj hb
      decide +kernel
    · cases hb
  obtain rfl : bc₁ = grownChain := Option.some.inj (h₁.symm.trans (Option.some_get _).symm)
  refine ⟨fun header hheader => ?_, fun bc₂ h₂ => ?_⟩
  · have hread : grownChain.db.readHeader (grownChain.db.readCanonicalHash 1) 1 =
        some firstBlock.header := by decide +kernel
    obtain rfl := Option.some.inj (hread.symm.trans hheader)
    decide
  obtain rfl : bc₂ = rewoundChain := Option.some.inj (h₂.symm.trans (Option.some_get _).symm)
  refine ⟨fun first _ _ i b hb => ?_, fun _ _ => trivial⟩
  rcases i with _ | i
  · obtain rfl := Option.some.inj hb
    decide +kernel
  · cases hb

/-- The headers of a run are told apart if those of its blocks are. -/
theorem runHeader_apart {genesis : Block} {events : List ChainEvent} (blocks : List Block)
    (hblocks : ∀ e ∈ events, e.blocks ⊆ blocks)
    (hapart : ∀ x ∈ genesis :: blocks, ∀ y ∈ genesis :: blocks,
      chainHash x.header = chainHash y.header → x.header = y.header) :
    HashesApart blockChainLib.headerHash (RunHeader genesis events) := by
  have hmem : ∀ h, RunHeader genesis events h → ∃ b ∈ genesis :: blocks, h = b.header := by
    rintro h (rfl | ⟨e, he, b, hb, rfl⟩)
    · exact ⟨genesis, List.mem_cons_self, rfl⟩
    · exact ⟨b, List.mem_cons_of_mem _ (hblocks e he hb), rfl⟩
  intro h h' hh hh'
  obtain ⟨x, hx, rfl⟩ := hmem h hh
  obtain ⟨y, hy, rfl⟩ := hmem h' hh'
  exact hapart x hx y hy

theorem regrowth_apart :
    HashesApart blockChainLib.headerHash
      (RunHeader ((genesisSpec 0).block genesisLib) regrowth) :=
  runHeader_apart [firstBlock, secondBlock] (by simp [regrowth, importEvent, ChainEvent.blocks])
    (by decide +kernel)

theorem regrownChain_canonical :
    Run.runPartial chainStep (freshChain true) regrowth = some regrownChain ∧
      regrownChain.currentBlock = secondBlock ∧ CanonicalChain regrownChain :=
  ⟨(Option.some_get _).symm, by decide +kernel,
    canonicalChain_of_run blockChainLib stateOnlyDb ⟨rfl, rfl, rfl⟩
      ((genesisSpec 0).block genesisLib) rfl {} () true (freshChain true)
      (Option.some_get _).symm regrowth regrowth_apart regrowth_admissible regrownChain
      (Option.some_get _).symm⟩

/-- A child of the genesis block with number 5 becomes the head, with nothing at the numbers
    between; and a rewind to a head without its state leaves its index above the new head. -/
theorem index_with_gap :
    (Run.runPartial chainStep (freshChain false) [importEvent [skippingBlock]] =
        some skippedChain ∧
      skippedChain.currentBlock.numberU64 = 5 ∧ skippedChain.db.readCanonicalHash 1 = zeroHash ∧
      ¬ CanonicalChain skippedChain) ∧
    (Run.runPartial chainStep (freshChain false) [importEvent [statelessBlock], .setHead 1] =
        some sunkChain ∧
      sunkChain.currentBlock.numberU64 = 0 ∧ sunkChain.db.readCanonicalHash 1 ≠ zeroHash ∧
      ¬ CanonicalChain sunkChain) := by
  have hskip : skippedChain.currentBlock.numberU64 = 5 ∧
      skippedChain.db.readCanonicalHash 1 = zeroHash := by decide +kernel
  have hsunk : sunkChain.currentBlock.numberU64 = 0 ∧
      sunkChain.db.readCanonicalHash 1 ≠ zeroHash := by decide +kernel
  refine ⟨⟨(Option.some_get _).symm, hskip.1, hskip.2, fun hc => ?_⟩,
    ⟨(Option.some_get _).symm, hsunk.1, hsunk.2, fun hc => ?_⟩⟩
  · refine (hc.defined_iff 1).2 ?_ hskip.2
    rw [hskip.1]
    decide
  · have hle := (hc.defined_iff 1).1 hsunk.2
    rw [hsunk.1] at hle
    exact absurd hle (by decide)

end Concrete

end Benzene
