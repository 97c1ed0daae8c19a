import Benzene.Core.ChainCalls

/-!
# Commit signatures

The chain keeps the certificates of committed blocks by number (`WriteCommitSig`,
`ReadCommitSig`), behind a cache that `NewBlockChain` does not make.  The nil cache is dereferenced
by every call, so that neither of them returns on any chain (`readCommitSig_eq_none`,
`writeCommitSig_eq_none`): the leader writes the certificate to the database and stops before
`commitBlock`, and a validator stops before `tryCatchup`.

`certified_iff`: in every run of calls, the certificate of a committed block is readable only as
long as there is no committed block up to the head.
-/

namespace Benzene.BlockChain

variable {L : BlockChainLib} {bc : BlockChain L}

/-! ## Calls -/

/-- What `commitBlock` (consensus/consensus.go:339-357) does to the chain, and whether it returns
    no error; `singleSender` says that the committed message has one sender. -/
def commitBlock (call : ImportCall) (bc : BlockChain L) (blk : Block) (singleSender : Bool) :
    Option (BlockChain L × Bool) :=
  if bc.currentBlock.numberU64 < blk.numberU64 then
    (bc.insertChain call [blk]).map fun r => (r.1, r.2.2.isNone && singleSender)
  else some (bc, singleSender)

/-- The calls that consensus and the API make on a chain. -/
inductive CommitEvent
  | commitBlock (coin : Hash → Bool) (maxTime : UInt64) (blk : Block) (singleSender : Bool)
  | writeCommitSig (blockNum : UInt64) (lastCommits : Bytes)
  | readCommitSig (blockNum : UInt64)
  | setHead (head : UInt64)

/-- A chain and the blocks that `commitBlock` has committed. -/
structure Committing (L : BlockChainLib) where
  chain : BlockChain L
  committed : List Block

/-- One call; `none` is one that does not return. -/
def Committing.step (s : Committing L) : CommitEvent → Option (Committing L)
  | .commitBlock coin maxTime blk singleSender =>
    (s.chain.commitBlock (shippedCall coin maxTime) blk singleSender).map fun r =>
      ⟨r.1, if r.2 then blk :: s.committed else s.committed⟩
  | .writeCommitSig blockNum lastCommits =>
    (s.chain.writeCommitSig blockNum lastCommits).2.map fun bc => { s with chain := bc }
  | .readCommitSig blockNum => (s.chain.readCommitSig blockNum).map fun _ => s
  | .setHead head => (s.chain.setHead head).map fun bc => { s with chain := bc }

/-- Every committed block up to the head has a readable certificate that verifies for the
    canonical block of its number. -/
def Committing.Certified (verifies : Block → Bytes → Prop) (s : Committing L) : Prop :=
  ∀ blk ∈ s.committed, blk.numberU64 ≤ s.chain.currentBlock.numberU64 → ∃ cert canonical,
    s.chain.readCommitSig blk.numberU64 = some (some cert) ∧
    s.chain.db.readBlock (s.chain.db.readCanonicalHash blk.numberU64) blk.numberU64 =
      some canonical ∧
    verifies canonical cert

/-! ## The cache is never made -/

theorem readCommitSig_eq_none (h : bc.lastCommitsCache = none) (blockNum : UInt64) :
    bc.readCommitSig blockNum = none := by
  rw [readCommitSig, h]
  rfl

theorem writeCommitSig_eq_none (h : bc.lastCommitsCache = none) (blockNum : UInt64)
    (lastCommits : Bytes) : (bc.writeCommitSig blockNum lastCommits).2 = none := by
  rw [writeCommitSig, h]
  rfl

/-- `NewBlockChain` leaves the cache nil. -/
theorem newBlockChain_lastCommitsCache {db : ChainDb} {stateDb : L.StateDb} {noPrefetch : Bool}
    (h : newBlockChain db stateDb noPrefetch = some bc) : bc.lastCommitsCache = none := by
  obtain ⟨genesis, hkeep⟩ : ∃ genesis, Keeps (fun _ => True) _ bc := newBlockChain_keeps h
  exact hkeep.lastCommitsCache

/-! ## Runs -/

/-- A call that returns leaves the cache nil. -/
theorem Committing.step_lastCommitsCache {s s' : Committing L} {e : CommitEvent}
    (hnone : s.chain.lastCommitsCache = none) (h : s.step e = some s') :
    s'.chain.lastCommitsCache = none := by
  cases e with
  | commitBlock coin maxTime blk singleSender =>
    obtain ⟨r, hcommit, rfl⟩ := Option.map_eq_some_iff.1 h
    rw [BlockChain.commitBlock] at hcommit
    split_ifs at hcommit
    · obtain ⟨r', hinsert, rfl⟩ := Option.map_eq_some_iff.1 hcommit
      have hkeep : Keeps (fun _ => True) _ r'.1 := insertChain_keeps (fun _ _ => trivial) hinsert
      exact hkeep.lastCommitsCache.trans hnone
    · obtain rfl := Option.some.inj hcommit
      exact hnone
  | writeCommitSig blockNum lastCommits =>
    rw [Committing.step, writeCommitSig_eq_none hnone] at h
    cases h
  | readCommitSig blockNum =>
    rw [Committing.step, readCommitSig_eq_none hnone] at h
    cases h
  | setHead head =>
    obtain ⟨bc', hset, rfl⟩ := Option.map_eq_some_iff.1 h
    have hkeep : Keeps (fun _ => True) _ bc' := setHead_keeps hset
    exact hkeep.lastCommitsCache.trans hnone

/-- **Certificates are not kept.** In every run of calls on a chain that `NewBlockChain` has made,
    under any rule of verification, the committed blocks up to the head have matching certificates
    exactly if there are no such blocks. -/
theorem certified_iff (L : BlockChainLib) (verifies : Block → Bytes → Prop) (db : ChainDb)
    (stateDb : L.StateDb) (noPrefetch : Bool) (bc₀ : BlockChain L)
    (hnew : newBlockChain db stateDb noPrefetch = some bc₀) (events : List CommitEvent)
    (s : Committing L) (hrun : Run.runPartial Committing.step ⟨bc₀, []⟩ events = some s) :
    s.Certified verifies ↔ ∀ blk ∈ s.committed, s.chain.currentBlock.numberU64 < blk.numberU64 := by
  have hnone : s.chain.lastCommitsCache = none :=
    Run.runPartial_invariant (fun _ _ => True) (fun s => s.chain.lastCommitsCache = none)
      (fun s e s' hnone _ hstep => Committing.step_lastCommitsCache hnone hstep)
      (newBlockChain_lastCommitsCache hnew) (Run.StepsPartial.of_forall fun _ _ _ => trivial) hrun
  constructor
  · intro hcert blk hblk
    by_contra hge
    obtain ⟨cert, canonical, hread, -⟩ := hcert blk hblk (UInt64.not_lt.1 hge)
    rw [readCommitSig_eq_none hnone] at hread
    cases hread
  · intro habove blk hblk hle
    exact absurd (habove blk hblk) (UInt64.not_lt.2 hle)

end Benzene.BlockChain

namespace Benzene.Concrete

open BlockChain

/-- A commit, with a coin that never picks the new block. -/
def commitEvent (blk : Block) : CommitEvent := .commitBlock (fun _ => false) 0 blk true

/-- A new chain after one commit. -/
def committedOnce : Committing blockChainLib :=
  (Run.runPartial Committing.step ⟨freshChain false, []⟩ [commitEvent firstBlock]).get
    (by decide +kernel)

/-- The new chain as it would be with a cache of commit signatures. -/
def cachedChain : BlockChain blockChainLib :=
  { freshChain false with lastCommitsCache := some (.new 16) }

/-- A validator with a cache that commits a block. -/
def cachedValidator : Committing blockChainLib :=
  (Run.runPartial Committing.step ⟨cachedChain, []⟩ [commitEvent firstBlock]).get
    (by decide +kernel)

/-- A leader with a cache that commits a block, goes back, and as a validator commits another
    block of that number. -/
def cachedRival : Committing blockChainLib :=
  (Run.runPartial Committing.step ⟨cachedChain, []⟩ [.writeCommitSig 1 [1],
    commitEvent firstBlock, .setHead 0, commitEvent statelessBlock]).get (by decide +kernel)

/-- After a commit the certificate cannot be read, and a leader stops when it writes one.  With a
    cache there would be none on a validator, and one for another block after a rewind. -/
theorem committed_without_certificate :
    (Run.runPartial Committing.step ⟨freshChain false, []⟩ [commitEvent firstBlock] =
        some committedOnce ∧
      committedOnce.committed = [firstBlock] ∧ committedOnce.chain.currentBlock = firstBlock ∧
      committedOnce.chain.readCommitSig 1 = none ∧
      ∀ verifies, ¬ committedOnce.Certified verifies) ∧
    ((freshChain false).writeCommitSig 1 [1]).2.isNone ∧
    (cachedValidator.chain.currentBlock = firstBlock ∧
      cachedValidator.chain.readCommitSig 1 = some none) ∧
    cachedRival.chain.currentBlock = statelessBlock ∧
      cachedRival.chain.readCommitSig 1 = some (some [1]) := by
  have hread : committedOnce.chain.readCommitSig 1 = none := by decide +kernel
  have hcommitted : committedOnce.committed = [firstBlock] := by decide +kernel
  have hcurrent : committedOnce.chain.currentBlock = firstBlock := by decide +kernel
  refine ⟨⟨(Option.some_get _).symm, hcommitted, hcurrent, hread, fun verifies hcert => ?_⟩,
    by decide +kernel, by decide +kernel, by decide +kernel⟩
  have hmem : firstBlock ∈ committedOnce.committed := by
    rw [hcommitted]
    exact List.mem_singleton_self _
  obtain ⟨cert, canonical, hcert, -⟩ :=
    hcert firstBlock hmem (by rw [hcurrent]; exact UInt64.le_refl _)
  have hnumber : firstBlock.numberU64 = 1 := by decide +kernel
  rw [hnumber, hread] at hcert
  cases hcert

theorem committedOnce_certified_iff :
    committedOnce.committed = [firstBlock] ∧
      (committedOnce.Certified (fun _ _ => True) ↔ ∀ blk ∈ committedOnce.committed,
        committedOnce.chain.currentBlock.numberU64 < blk.numberU64) :=
  ⟨by decide +kernel, certified_iff blockChainLib (fun _ _ => True) firstSetup.db () false
    (freshChain false) (Option.some_get _).symm [commitEvent firstBlock] committedOnce
    (Option.some_get _).symm⟩

end Benzene.Concrete
