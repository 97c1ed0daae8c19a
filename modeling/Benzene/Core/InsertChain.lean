import Benzene.Core.BlockChain

/-!
# Importing blocks with the shipped engine

The shipped engine, processor and validator accept every block, so that of the import loop of
`insertChain` only the path of new blocks is left (`insertChain_shipped`), and one block either is
written with the state of its parent or leaves the head and the canonical index alone
(`importBlock_cases`).

`insertChain_clean_iff`: a call returns, with the head and the canonical index of the blocks
before the one it fails at, unless the parent of its first block is unknown, which is a nil
dereference, or a second block follows on a chain that prefetches, which calls a prefetcher that
is never set.
-/

namespace Benzene.BlockChain

variable {L : BlockChainLib} {bc bc' : BlockChain L} {call : ImportCall} {block : Block}
  {chain : List Block} {previous : Option Header} {rest : List (Block × Option ImportError)}

/-- A call of `InsertChain` on a chain with the shipped engine. -/
def shippedCall (coin : Hash → Bool) (maxTime : UInt64) : ImportCall :=
  ⟨shippedEngine, coin, maxTime⟩

/-- Blocks that have passed verification. -/
def accepted (chain : List Block) : List (Block × Option ImportError) :=
  chain.map fun block => (block, none)

theorem verified_shipped (coin : Hash → Bool) (maxTime : UInt64) (chain : List Block) :
    verified (shippedCall coin maxTime) chain = accepted chain := by
  refine List.ext_getElem? fun i => ?_
  rw [verified, accepted, List.getElem?_mapIdx, List.getElem?_map]
  rfl

theorem skipKnown_accepted (chain : List Block) :
    skipKnown 0 none (accepted chain) = (0, none, accepted chain) := by
  cases chain with
  | nil => rfl
  | cons block chain => rfl

theorem chainFuel_eq : chainFuel = (2 ^ 64 - 1) + 1 := by
  norm_num [chainFuel]

/-- With the shipped engine an import is the loop over new blocks. -/
theorem insertChain_shipped (coin : Hash → Bool) (maxTime : UInt64) (bc : BlockChain L)
    (chain : List Block) :
    bc.insertChain (shippedCall coin maxTime) chain =
      if contiguous L.toChainLib chain = false then some (bc, 0, some .nonContiguous)
      else if bc.procInterrupt then some (bc, 0, none)
      else importLoop (shippedCall coin maxTime) bc 0 none (accepted chain) := by
  cases chain with
  | nil =>
    cases hinterrupt : bc.procInterrupt with
    | false => simp [insertChain, contiguous, accepted, importLoop]
    | true => simp [insertChain, contiguous]
  | cons block chain =>
    simp only [insertChain, chainFuel_eq, insertChainLocked, verified_shipped,
      skipKnown_accepted]
    cases contiguous L.toChainLib (block :: chain) <;> rfl

/-! ## One block -/

/-- The header that execution starts from, and the chain after reading it. -/
def parentHeader (bc : BlockChain L) (previous : Option Header) (block : Block) :
    Option (BlockChain L × Header) :=
  match previous with
  | some parent => some (bc, parent)
  | none =>
    match bc.getHeader block.header.parentHash (block.numberU64 - 1) with
    | (_, none) => none
    | (bc, some parent) => some (bc, parent)

/-- The chain after a read of a header: only the header cache has changed. -/
theorem parentHeader_eq_some {r : BlockChain L × Header}
    (h : bc.parentHeader previous block = some r) :
    ∃ headerCache, r.1 = { bc with headerCache := headerCache } := by
  cases previous with
  | some parent =>
    obtain rfl := Option.some.inj h
    exact ⟨bc.headerCache, rfl⟩
  | none =>
    cases hget : bc.getHeader block.header.parentHash (block.numberU64 - 1) with
    | mk bc₁ parent? =>
      have hbc₁ : bc₁ = { bc with headerCache := bc₁.headerCache } := by
        rw [getHeader] at hget
        obtain ⟨rfl, -⟩ := Prod.mk.inj hget
        rfl
      cases parent? with
      | none => simp [parentHeader, hget] at h
      | some parent =>
        simp only [parentHeader, hget] at h
        obtain rfl := Option.some.inj h
        exact ⟨_, hbc₁⟩

theorem importBlock_eq (bc : BlockChain L) (previous : Option Header) (block : Block)
    (rest : List (Block × Option ImportError)) :
    bc.importBlock call previous block rest =
      (bc.parentHeader previous block).bind fun r =>
        if !L.hasState r.1.stateDb r.2.root then some (r.1, some .missingState)
        else if !r.1.noPrefetch && rest.head?.any (fun followup => followup.2.isNone) then none
        else some (r.1.writeBlockWithState call block r.2.root) := by
  cases previous with
  | some parent => rfl
  | none =>
    simp only [importBlock, parentHeader]
    cases bc.getHeader block.header.parentHash (block.numberU64 - 1) with
    | mk bc₁ parent? => cases parent? <;> rfl

/-- The block goes to the database, whether or not it becomes the head. -/
def storeBlock (bc : BlockChain L) (block : Block) : BlockChain L :=
  { bc with db := bc.db.writeBlock L.toChainLib block }

/-- A block whose state is committed becomes the head, or loses the toss for a block of the height
    of the head. -/
def adoptBlock (call : ImportCall) (bc : BlockChain L) (block : Block) (stateDb : L.StateDb) :
    BlockChain L :=
  let bc := { bc with stateDb := stateDb }
  let bc :=
    if block.numberU64 ≠ bc.currentBlock.numberU64 ∨ call.coin (L.blockHash block) then
      bc.writeHeadBlock block
    else bc
  { bc with futureBlocks := bc.futureBlocks.remove (L.blockHash block) }

/-- The results of writing a block. -/
inductive Written (call : ImportCall) (bc : BlockChain L) (block : Block) (root : Hash) :
    BlockChain L × Option ImportError → Prop
  | mismatch (h : block.header.parentHash ≠ L.blockHash bc.currentBlock) :
    Written call bc block root (bc, some .parentMismatch)
  | failed (h : block.header.parentHash = L.blockHash bc.currentBlock) :
    Written call bc block root (bc.storeBlock block, some .commitFailed)
  | adopted (h : block.header.parentHash = L.blockHash bc.currentBlock) (stateDb : L.StateDb)
    (hcommit : L.commitState bc.stateDb root block.numberU64 = some stateDb) :
    Written call bc block root (adoptBlock call (bc.storeBlock block) block stateDb, none)

theorem writeBlockWithState_eq (bc : BlockChain L) (block : Block) (root : Hash) :
    bc.writeBlockWithState call block root =
      if block.header.parentHash ≠ L.blockHash bc.currentBlock then (bc, some .parentMismatch)
      else
        match L.commitState bc.stateDb root block.numberU64 with
        | none => (bc.storeBlock block, some .commitFailed)
        | some stateDb => (adoptBlock call (bc.storeBlock block) block stateDb, none) := rfl

theorem writeBlockWithState_written (bc : BlockChain L) (block : Block) (root : Hash) :
    Written call bc block root (bc.writeBlockWithState call block root) := by
  rw [writeBlockWithState_eq]
  split_ifs with hparent
  · exact .mismatch hparent
  · cases hcommit : L.commitState bc.stateDb root block.numberU64 with
    | none => exact .failed (not_not.1 hparent)
    | some stateDb => exact .adopted (not_not.1 hparent) stateDb hcommit

variable {r : BlockChain L × Option ImportError}

/-- The results of importing one block: the state of its parent is missing, or the block is
    written. -/
theorem importBlock_cases (h : bc.importBlock call previous block rest = some r) :
    ∃ headerCache parent,
      bc.parentHeader previous block = some ({ bc with headerCache := headerCache }, parent) ∧
      (r = ({ bc with headerCache := headerCache }, some .missingState) ∨
        Written call { bc with headerCache := headerCache } block parent.root r) := by
  rw [importBlock_eq] at h
  obtain ⟨⟨bc₁, parent⟩, hparent, hr⟩ := Option.bind_eq_some_iff.1 h
  obtain ⟨headerCache, rfl⟩ := parentHeader_eq_some hparent
  refine ⟨headerCache, parent, hparent, ?_⟩
  split_ifs at hr with hstate hprefetch
  · exact .inl (Option.some.inj hr).symm
  · obtain rfl := Option.some.inj hr
    exact .inr (writeBlockWithState_written _ block parent.root)

/-! ## Heads -/

/-- Two chains have the same heads and the same canonical index. -/
structure SameHead (bc bc' : BlockChain L) : Prop where
  currentBlock : bc'.currentBlock = bc.currentBlock
  currentHeader : bc'.currentHeader = bc.currentHeader
  currentFastBlock : bc'.currentFastBlock = bc.currentFastBlock
  canonical : bc'.db.canonical = bc.db.canonical
  headBlockHash : bc'.db.headBlockHash = bc.db.headBlockHash
  headHeaderHash : bc'.db.headHeaderHash = bc.db.headHeaderHash

theorem SameHead.refl (bc : BlockChain L) : SameHead bc bc := ⟨rfl, rfl, rfl, rfl, rfl, rfl⟩

/-- A block that fails leaves the heads and the canonical index alone. -/
theorem sameHead_of_error {err : ImportError}
    (h : bc.importBlock call previous block rest = some (bc', some err)) : SameHead bc bc' := by
  obtain ⟨headerCache, parent, -, hr | hw⟩ := importBlock_cases h
  · obtain ⟨rfl, -⟩ := Prod.mk.inj hr
    exact ⟨rfl, rfl, rfl, rfl, rfl, rfl⟩
  · cases hw with
    | mismatch | failed => exact ⟨rfl, rfl, rfl, rfl, rfl, rfl⟩

theorem adoptBlock_noPrefetch (bc : BlockChain L) (block : Block) (stateDb : L.StateDb) :
    (adoptBlock call bc block stateDb).noPrefetch = bc.noPrefetch := by
  unfold adoptBlock writeHeadBlock
  dsimp only
  split_ifs <;> rfl

theorem noPrefetch_of_ok (h : bc.importBlock call previous block rest = some (bc', none)) :
    bc'.noPrefetch = bc.noPrefetch := by
  obtain ⟨headerCache, parent, -, hr | hw⟩ := importBlock_cases h
  · cases (Prod.mk.inj hr).2
  · cases hw with
    | adopted hparent stateDb hcommit => exact adoptBlock_noPrefetch _ block stateDb

/-! ## The loop -/

theorem importLoop_cons (call : ImportCall) (bc : BlockChain L) (i : ℕ)
    (previous : Option Header) (block : Block) (chain : List Block) :
    importLoop call bc i previous (accepted (block :: chain)) =
      if bc.procInterrupt then some (bc, i, none)
      else if L.blockHash block ∈ L.badHashes then
        some (bc.reportBlock block, i, some .blacklistedHash)
      else (bc.importBlock call previous block (accepted chain)).bind fun
        | (bc, some err) => some (bc, i, some err)
        | (bc, none) => importLoop call bc (i + 1) (some block.header) (accepted chain) := rfl

/-- Without prefetching, what follows a block does not matter. -/
theorem importBlock_of_noPrefetch (h : bc.noPrefetch = true)
    (rest : List (Block × Option ImportError)) :
    bc.importBlock call previous block rest =
      (bc.parentHeader previous block).map fun r =>
        if !L.hasState r.1.stateDb r.2.root then (r.1, some .missingState)
        else r.1.writeBlockWithState call block r.2.root := by
  rw [importBlock_eq]
  cases hr : bc.parentHeader previous block with
  | none => rfl
  | some r =>
    obtain ⟨headerCache, hcache⟩ := parentHeader_eq_some hr
    have hno : r.1.noPrefetch = true := by rw [hcache, h]
    rw [Option.bind_some, Option.map_some, hno]
    simp only [Bool.not_true, Bool.false_and, Bool.false_eq_true, if_false]
    split_ifs <;> rfl

/-- Without prefetching, the loop returns once it has a parent to start from. -/
theorem importLoop_total (call : ImportCall) (h : bc.noPrefetch = true) (i : ℕ)
    (parent : Header) (chain : List Block) :
    ∃ r, importLoop call bc i (some parent) (accepted chain) = some r := by
  induction chain generalizing bc i parent with
  | nil => exact ⟨_, rfl⟩
  | cons block chain ih =>
    rw [importLoop_cons]
    split_ifs
    · exact ⟨_, rfl⟩
    · exact ⟨_, rfl⟩
    · have hsome : ∃ r, bc.importBlock call (some parent) block (accepted chain) = some r := by
        rw [importBlock_of_noPrefetch h]
        exact ⟨_, rfl⟩
      obtain ⟨⟨bc₁, err⟩, hblock⟩ := hsome
      rw [hblock, Option.bind_some]
      cases err with
      | some err => exact ⟨_, rfl⟩
      | none => exact ih ((noPrefetch_of_ok hblock).trans h) (i + 1) block.header

/-- Without prefetching, a loop that fails at an index has done what the loop over the blocks
    before the index does. -/
theorem importLoop_take (h : bc.noPrefetch = true) {i k : ℕ} {err : ImportError}
    (hr : importLoop call bc i previous (accepted chain) = some (bc', k, some err)) :
    ∃ n bc'', k = i + n ∧
      importLoop call bc i previous (accepted (chain.take n)) = some (bc'', k, none) ∧
      SameHead bc'' bc' := by
  induction chain generalizing bc i previous with
  | nil => cases hr
  | cons block chain ih =>
    rw [importLoop_cons] at hr
    split_ifs at hr with hinterrupt hbad
    · cases hr
    · -- a banned block: nothing before it has been imported by this loop
      obtain ⟨rfl, rfl, -⟩ : bc.reportBlock block = bc' ∧ i = k ∧ _ := by simpa using hr
      exact ⟨0, bc, rfl, rfl, ⟨rfl, rfl, rfl, rfl, rfl, rfl⟩⟩
    · obtain ⟨⟨bc₁, err₁⟩, hblock, hloop⟩ := Option.bind_eq_some_iff.1 hr
      cases err₁ with
      | some err₁ =>
        obtain ⟨rfl, rfl, -⟩ : bc₁ = bc' ∧ i = k ∧ _ := by simpa using hloop
        exact ⟨0, bc, rfl, rfl, sameHead_of_error hblock⟩
      | none =>
        obtain ⟨n, bc'', rfl, htake, hsame⟩ := ih ((noPrefetch_of_ok hblock).trans h) hloop
        refine ⟨n + 1, bc'', by omega, ?_, hsame⟩
        rw [List.take_succ_cons, importLoop_cons, if_neg hinterrupt, if_neg hbad,
          importBlock_of_noPrefetch h, ← importBlock_of_noPrefetch h (accepted chain), hblock]
        exact htake

theorem contiguous_take {L : ChainLib} {chain : List Block} (h : contiguous L chain = true)
    (n : ℕ) : contiguous L (chain.take n) = true := by
  induction chain generalizing n with
  | nil => rw [List.take_nil, contiguous]
  | cons block chain ih =>
    match n, chain with
    | 0, _ => rfl
    | 1, _ => rfl
    | n + 2, [] => rfl
    | n + 2, next :: chain =>
      rw [contiguous, Bool.and_eq_true] at h
      simp only [List.take_succ_cons, contiguous, Bool.and_eq_true]
      exact ⟨h.1, ih h.2 (n + 1)⟩

/-! ## Clean failures -/

/-- The result of an import that fails at an index has the heads and the canonical index that the
    blocks before it lead to, whose import succeeds. -/
def Clean (call : ImportCall) (bc : BlockChain L) (chain : List Block) (r : Imported L) : Prop :=
  ∀ err, r.2.2 = some err → ∃ bc' i,
    bc.insertChain call (chain.take r.2.1) = some (bc', i, none) ∧ SameHead bc' r.1

/-- An import of the chain reaches its first block, and either finds no header of the parent or
    calls the prefetcher for the second block. -/
def Crashes (bc : BlockChain L) : List Block → Prop
  | [] => False
  | first :: rest =>
    contiguous L.toChainLib (first :: rest) = true ∧ bc.procInterrupt = false ∧
      L.blockHash first ∉ L.badHashes ∧
      match (bc.getHeader first.header.parentHash (first.numberU64 - 1)).2 with
      | none => True
      | some parent => L.hasState bc.stateDb parent.root = true ∧ bc.noPrefetch = false ∧ rest ≠ []

theorem clean_of_ok (bc : BlockChain L) (chain : List Block) (i : ℕ) :
    Clean call bc chain (bc', i, none) := fun _ herr => by cases herr

/-- A failure at the first block is clean if it leaves the heads and the index alone. -/
theorem clean_of_sameHead (chain : List Block) (err : Option ImportError)
    (h : SameHead bc bc') : Clean call bc chain (bc', 0, err) := fun _ _ => ⟨bc, 0, rfl, h⟩

theorem parentHeader_first (bc : BlockChain L) (block : Block) :
    bc.parentHeader none block =
      (bc.getHeader block.header.parentHash (block.numberU64 - 1)).2.map fun parent =>
        ((bc.getHeader block.header.parentHash (block.numberU64 - 1)).1, parent) := by
  rw [parentHeader]
  cases bc.getHeader block.header.parentHash (block.numberU64 - 1) with
  | mk bc₁ parent? => cases parent? <;> rfl

@[simp] theorem getHeader_stateDb (bc : BlockChain L) (hash : Hash) (number : UInt64) :
    (bc.getHeader hash number).1.stateDb = bc.stateDb := rfl

theorem any_accepted (chain : List Block) :
    (accepted chain).head?.any (fun followup => followup.2.isNone) = !chain.isEmpty := by
  cases chain <;> rfl

/-- A first block whose parent is found, and that is not followed by one to prefetch, does not
    stop the process. -/
theorem importBlock_first_isSome (call : ImportCall) {parent : Header} {rest : List Block}
    (hparent : (bc.getHeader block.header.parentHash (block.numberU64 - 1)).2 = some parent)
    (h : ¬ (L.hasState bc.stateDb parent.root = true ∧ bc.noPrefetch = false ∧ rest ≠ [])) :
    ∃ r, bc.importBlock call none block (accepted rest) = some r := by
  rw [importBlock_eq, parentHeader_first, hparent, Option.map_some, Option.bind_some, any_accepted]
  split_ifs with hstate hprefetch
  · exact ⟨_, rfl⟩
  · rw [Bool.and_eq_true, Bool.not_eq_true', Bool.not_eq_true', List.isEmpty_eq_false_iff]
      at hprefetch
    exact absurd ⟨by simpa using hstate, hprefetch⟩ h
  · exact ⟨_, rfl⟩

/-- No block that another one follows is imported with prefetching. -/
theorem noPrefetch_or_nil_of_ok {rest : List Block}
    (h : bc.importBlock call previous block (accepted rest) = some (bc', none)) :
    bc.noPrefetch = true ∨ rest = [] := by
  rw [importBlock_eq] at h
  obtain ⟨⟨bc₁, parent⟩, hparent, hr⟩ := Option.bind_eq_some_iff.1 h
  obtain ⟨headerCache, rfl⟩ := parentHeader_eq_some hparent
  rw [any_accepted] at hr
  split_ifs at hr with hstate hprefetch
  · cases hr
  · simpa [or_iff_not_imp_left] using hprefetch

theorem insertChain_crashes (coin : Hash → Bool) (maxTime : UInt64) (h : bc.Crashes chain) :
    bc.insertChain (shippedCall coin maxTime) chain = none := by
  cases chain with
  | nil => exact h.elim
  | cons first rest =>
    obtain ⟨hcontiguous, hinterrupt, hbad, hcrash⟩ := h
    rw [insertChain_shipped, if_neg (by simp [hcontiguous]), if_neg (by simp [hinterrupt]),
      importLoop_cons, if_neg (by simp [hinterrupt]), if_neg hbad, importBlock_eq,
      parentHeader_first]
    cases hparent : (bc.getHeader first.header.parentHash (first.numberU64 - 1)).2 with
    | none => rfl
    | some parent =>
      rw [hparent] at hcrash
      obtain ⟨hstate, hprefetch, hrest⟩ := hcrash
      rw [Option.map_some, Option.bind_some, any_accepted, if_neg (by simpa using hstate),
        if_pos (by simpa using ⟨hprefetch, hrest⟩)]
      rfl

/-- A loop whose first block does not stop the process returns, and fails cleanly. -/
theorem importLoop_clean (coin : Hash → Bool) (maxTime : UInt64) {first : Block}
    {rest : List Block} (hcontiguous : contiguous L.toChainLib (first :: rest) = true)
    (hinterrupt : bc.procInterrupt = false) (hbad : L.blockHash first ∉ L.badHashes)
    (hfirst : bc.importBlock (shippedCall coin maxTime) none first (accepted rest) = some r) :
    ∃ r, importLoop (shippedCall coin maxTime) bc 0 none (accepted (first :: rest)) = some r ∧
      Clean (shippedCall coin maxTime) bc (first :: rest) r := by
  obtain ⟨bc₁, err⟩ := r
  have hloop := importLoop_cons (shippedCall coin maxTime) bc 0 none first rest
  rw [if_neg (by simp [hinterrupt]), if_neg hbad, hfirst, Option.bind_some] at hloop
  cases err with
  | some err => exact ⟨_, hloop, clean_of_sameHead _ _ (sameHead_of_error hfirst)⟩
  | none =>
    rcases noPrefetch_or_nil_of_ok hfirst with hno | rfl
    · obtain ⟨⟨bc', k, err⟩, htotal⟩ := importLoop_total (shippedCall coin maxTime)
        ((noPrefetch_of_ok hfirst).trans hno) 1 first.header rest
      replace hloop := hloop.trans htotal
      refine ⟨_, hloop, fun err' herr => ?_⟩
      obtain rfl : err = some err' := herr
      obtain ⟨n, bc'', hk, htake, hsame⟩ := importLoop_take hno hloop
      obtain rfl : k = n := by omega
      refine ⟨bc'', k, ?_, hsame⟩
      rw [insertChain_shipped, if_neg (by simp [contiguous_take hcontiguous]),
        if_neg (by simp [hinterrupt])]
      exact htake
    · exact ⟨_, hloop, clean_of_ok bc _ _⟩

/-- An import that does not crash returns, and fails cleanly. -/
theorem insertChain_clean (coin : Hash → Bool) (maxTime : UInt64) (h : ¬ bc.Crashes chain) :
    ∃ r, bc.insertChain (shippedCall coin maxTime) chain = some r ∧
      Clean (shippedCall coin maxTime) bc chain r := by
  rw [insertChain_shipped]
  split_ifs with hcontiguous hinterrupt
  · exact ⟨_, rfl, clean_of_sameHead _ _ (.refl bc)⟩
  · exact ⟨_, rfl, clean_of_ok bc _ _⟩
  rw [Bool.not_eq_false] at hcontiguous
  rw [Bool.not_eq_true] at hinterrupt
  cases chain with
  | nil => exact ⟨_, rfl, clean_of_ok bc _ _⟩
  | cons first rest =>
    by_cases hbad : L.blockHash first ∈ L.badHashes
    · rw [importLoop_cons, if_neg (by simp [hinterrupt]), if_pos hbad]
      exact ⟨_, rfl, clean_of_sameHead _ _ ⟨rfl, rfl, rfl, rfl, rfl, rfl⟩⟩
    · have hcrash := fun hcrash => h ⟨hcontiguous, hinterrupt, hbad, hcrash⟩
      cases hparent : (bc.getHeader first.header.parentHash (first.numberU64 - 1)).2 with
      | none => exact absurd trivial (by simpa only [hparent] using hcrash)
      | some parent =>
        obtain ⟨r, hfirst⟩ := importBlock_first_isSome (shippedCall coin maxTime) hparent
          (by simpa only [hparent] using hcrash)
        exact importLoop_clean coin maxTime hcontiguous hinterrupt hbad hfirst

/-- **Clean imports.** With the shipped engine, in every state and for every list of blocks, a
    call of `InsertChain` returns and fails cleanly exactly if it does not crash at the first
    block. -/
theorem insertChain_clean_iff (L : BlockChainLib) (bc : BlockChain L) (coin : Hash → Bool)
    (maxTime : UInt64) (chain : List Block) :
    (∃ r, bc.insertChain (shippedCall coin maxTime) chain = some r ∧
      Clean (shippedCall coin maxTime) bc chain r) ↔ ¬ bc.Crashes chain := by
  refine ⟨?_, insertChain_clean coin maxTime⟩
  rintro ⟨r, hr, -⟩ hcrash
  rw [insertChain_crashes coin maxTime hcrash] at hr
  cases hr

end Benzene.BlockChain

namespace Benzene.Concrete

open BlockChain

/-- A chain library with one state, that of the genesis block, and no bad hashes. -/
def blockChainLib : BlockChainLib where
  toChainLib := chainLib
  StateDb := Unit
  hasState _ root := decide (root = copyBytes 32 [7])
  commitState _ _ _ := some ()
  badHashes := []
  blockSize _ := 0

/-- The chain of a node that has just been set up. -/
def freshChain (noPrefetch : Bool) : BlockChain blockChainLib :=
  (newBlockChain firstSetup.db () noPrefetch).get (by cases noPrefetch <;> decide +kernel)

/-- An empty block. -/
def emptyBlock (number : ℕ) (root parentHash : Hash) : Block where
  header :=
    { parentHash := parentHash
      root := root
      txHash := copyBytes 32 [9]
      number := number
      gasLimit := 0
      gasUsed := 0
      time := 0
      shardID := 0
      lastCommitSignature := zeroBytes 96
      lastCommitBitmap := [] }
  transactions := []

/-- Two blocks on top of the genesis block. -/
def firstBlock : Block := emptyBlock 1 (copyBytes 32 [7]) firstSetup.hash

def secondBlock : Block := emptyBlock 2 (copyBytes 32 [7]) (chainLib.blockHash firstBlock)

/-- On a new chain, a block whose parent is unknown and a batch of two valid blocks stop the
    process; the first of the two alone is imported. -/
theorem orphan_and_batch_crash :
    (freshChain false).insertChain (shippedCall (fun _ => false) 0) [secondBlock] = none ∧
      (freshChain false).insertChain (shippedCall (fun _ => false) 0) [firstBlock, secondBlock] =
        none ∧
      ((freshChain false).insertChain (shippedCall (fun _ => false) 0) [firstBlock]).map
        (fun r => (r.1.currentBlock, r.2)) = some (firstBlock, 1, none) ∧
      ((freshChain true).insertChain (shippedCall (fun _ => false) 0)
        [firstBlock, secondBlock]).map (fun r => (r.1.currentBlock, r.2)) =
          some (secondBlock, 2, none) := by
  decide +kernel

end Benzene.Concrete
