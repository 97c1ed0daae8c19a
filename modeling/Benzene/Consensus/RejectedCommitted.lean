import Benzene.Consensus.Concrete
import Benzene.Consensus.StepSpec

/-!
# COMMITTED messages that are not accepted

`onCommitted` stores a message before it checks it (consensus/validator.go:243-293), under an id
that has neither the payload nor the block number.  A message that is then rejected stays in the
log, and it has taken the place of the message that was stored under its id.

`rejected_committed_harmless_iff` says when that does no damage: the verified messages of the log
are all still there, and `tryCatchup` can commit every block it could commit before, exactly when
the message is too old to be stored or no verified message was stored under its id.
-/

namespace Benzene

variable {E : Env}

namespace Consensus

variable {s s' : Consensus E} {recvMsg : FBFTMessage E}

/-! ## What `tryCatchup` commits -/

/-- `tryCatchup` commits a block. Run with an empty trace, the node has an entry for every block
    that the loop commits. -/
def CommitsOnCatchup (s : Consensus E) (order : MapOrder E) (blk : Block) : Prop :=
  ∃ e ∈ (({ s with trace := [] } : Consensus E).tryCatchup order).trace,
    e.action = .verifiedNewBlock blk

/-- The nodes agree in what decides which blocks the loop of `tryCatchup` commits, and one has
    committed what the other has. -/
structure Follows (s s' : Consensus E) : Prop where
  blockchain : s'.blockchain = s.blockchain
  blocks : s'.fbftLog.blocks = s.fbftLog.blocks
  verifiedBlocks : s'.fbftLog.verifiedBlocks = s.fbftLog.verifiedBlocks
  done : ∀ blk, (∃ e ∈ s.trace, e.action = .verifiedNewBlock blk) →
    ∃ e ∈ s'.trace, e.action = .verifiedNewBlock blk

theorem Follows.emit (h : Follows s s') (a : Action E) : Follows (s.emit a) (s'.emit a) where
  blockchain := h.blockchain
  blocks := h.blocks
  verifiedBlocks := h.verifiedBlocks
  done := by
    rintro blk ⟨e, he, hact⟩
    rcases List.mem_cons.1 he with rfl | he
    · exact ⟨_, List.mem_cons_self, hact⟩
    · obtain ⟨e', he', hact'⟩ := h.done blk ⟨e, he, hact⟩
      exact ⟨e', List.mem_cons_of_mem _ he', hact'⟩

theorem Follows.verifyUnlessMarked (h : Follows s s') (blk : Block) :
    (s'.verifyUnlessMarked blk).2 = (s.verifyUnlessMarked blk).2 ∧
      Follows (s.verifyUnlessMarked blk).1 (s'.verifyUnlessMarked blk).1 := by
  have hmarked : s'.fbftLog.isBlockVerified blk = s.fbftLog.isBlockVerified blk := by
    simp only [FBFTLog.isBlockVerified, h.verifiedBlocks]
  unfold Consensus.verifyUnlessMarked
  rw [hmarked, h.blockchain]
  split_ifs
  · exact ⟨rfl, h⟩
  · refine ⟨rfl, ?_⟩
    have he := h.emit (.blockVerified blk)
    refine ⟨he.blockchain, he.blocks, ?_, he.done⟩
    show s'.fbftLog.verifiedBlocks.insert _ _ = s.fbftLog.verifiedBlocks.insert _ _
    rw [h.verifiedBlocks]
  · exact ⟨rfl, h⟩

theorem Follows.setupForNewConsensus (h : Follows s s') (blk : Block) (sender : E.PubKey) :
    Follows (s.setupForNewConsensus blk sender) (s'.setupForNewConsensus blk sender) := by
  have hsetup := setupForNewConsensus_spec s blk sender
  have hsetup' := setupForNewConsensus_spec s' blk sender
  refine ⟨?_, ?_, ?_, ?_⟩
  · rw [hsetup.blockchain, hsetup'.blockchain, h.blockchain]
  · rw [hsetup.fbftLog, hsetup'.fbftLog]
    simp only [FBFTLog.pruneCacheBeforeBlock, FBFTLog.deleteMessagesLessThan,
      FBFTLog.deleteBlocksLessThan, h.blocks]
  · rw [hsetup.fbftLog, hsetup'.fbftLog]
    simp only [FBFTLog.pruneCacheBeforeBlock, FBFTLog.deleteMessagesLessThan,
      FBFTLog.deleteBlocksLessThan, h.blocks, h.verifiedBlocks]
  · rintro b ⟨e, he, hact⟩
    obtain ⟨new, htrace, hnew⟩ := hsetup.emits
    obtain ⟨new', htrace', -⟩ := hsetup'.emits
    rw [htrace, List.mem_append] at he
    rcases he with he | he
    · rw [hnew e he] at hact
      cases hact
    · obtain ⟨e', he', hact'⟩ := h.done b ⟨e, he, hact⟩
      exact ⟨e', htrace' ▸ List.mem_append_right _ he', hact'⟩

theorem Follows.insertIfNew (h : Follows s s') (blk : Block) :
    (s'.insertIfNew blk).2 = (s.insertIfNew blk).2 ∧
      Follows (s.insertIfNew blk).1 (s'.insertIfNew blk).1 := by
  unfold Consensus.insertIfNew insertChain
  rw [h.blockchain]
  split_ifs
  · have he := h.emit (.insertChain blk)
    exact ⟨rfl, rfl, he.blocks, he.verifiedBlocks, he.done⟩
  · exact ⟨rfl, h⟩

theorem Follows.commitBlock (h : Follows s s') (blk : Block) (msg : FBFTMessage E) :
    (s'.commitBlock blk msg).2 = (s.commitBlock blk msg).2 ∧
      Follows (s.commitBlock blk msg).1 (s'.commitBlock blk msg).1 := by
  obtain ⟨hok, hinsert⟩ := (h.emit (.commitBlock blk)).insertIfNew blk
  unfold Consensus.commitBlock
  dsimp only
  rw [hok]
  split_ifs
  · exact ⟨rfl, hinsert⟩
  · split
    · exact ⟨rfl, (hinsert.emit _).setupForNewConsensus blk _⟩
    · exact ⟨rfl, hinsert⟩

/-- The loop over a list commits what it commits over a beginning of the list. -/
theorem Follows.catchupLoop (l rest : List (Block × FBFTMessage E)) (h : Follows s s') (blk : Block)
    (hdone : ∃ e ∈ (Consensus.catchupLoop s l).trace, e.action = .verifiedNewBlock blk) :
    ∃ e ∈ (Consensus.catchupLoop s' (l ++ rest)).trace, e.action = .verifiedNewBlock blk := by
  induction l generalizing s s' with
  | nil =>
    obtain ⟨e, he, hact⟩ := h.done blk hdone
    exact ⟨e, (s'.catchupLoop_acts (a := .any) rest).emits.mem_trace e he, hact⟩
  | cons p l ih =>
    obtain ⟨b, msg⟩ := p
    obtain ⟨hverified, hverify⟩ := h.verifyUnlessMarked b
    obtain ⟨hcommitted, hcommit⟩ := hverify.commitBlock b msg
    simp only [List.cons_append, Consensus.catchupLoop, hverified, hcommitted] at hdone ⊢
    split_ifs at hdone ⊢
    · exact hverify.done blk hdone
    · exact hcommit.done blk hdone
    · exact ih (hcommit.emit (.verifiedNewBlock b)) hdone

theorem Follows.tryCatchup {order : MapOrder E} {blk : Block} (h : Follows s s')
    (hset : s'.blockVerifierSet = s.blockVerifierSet)
    (hwalk : s.getLastMileBlocksAndMsg order s.blockNum <+:
      s'.getLastMileBlocksAndMsg order s'.blockNum)
    (hdone : ∃ e ∈ (s.tryCatchup order).trace, e.action = .verifiedNewBlock blk) :
    ∃ e ∈ (s'.tryCatchup order).trace, e.action = .verifiedNewBlock blk := by
  have hpost : ∀ (t : Consensus E) (bn : UInt64), (t.postCatchup bn).trace = t.trace := by
    intro t bn
    unfold postCatchup
    split_ifs <;> rfl
  unfold Consensus.tryCatchup at hdone ⊢
  rw [hset]
  split_ifs at hdone ⊢
  · exact h.done blk hdone
  · rw [hpost] at hdone ⊢
    obtain ⟨rest, hrest⟩ := hwalk
    rw [← hrest]
    exact h.catchupLoop _ rest blk hdone

/-! ## The list that `tryCatchup` walks -/

theorem lastMileFrom_congr {log log' : FBFTLog E} (order : MapOrder E)
    (hblocks : log'.blocks = log.blocks)
    (hmessages : ∀ bn, log'.getMessagesByTypeSeq .committed bn =
      log.getMessagesByTypeSeq .committed bn) (fuel : ℕ) (bn : UInt64) :
    lastMileFrom log' order fuel bn = lastMileFrom log order fuel bn := by
  induction fuel generalizing bn with
  | zero => rfl
  | succ fuel ih =>
    simp only [lastMileFrom, FBFTLog.getCommittedBlockAndMsgsFromNumber, FBFTLog.getBlockByHash,
      hmessages, hblocks, ih]

theorem lastMileFrom_prefix (log : FBFTLog E) (order : MapOrder E) {fuel fuel' : ℕ}
    (hle : fuel ≤ fuel') (bn : UInt64) :
    lastMileFrom log order fuel bn <+: lastMileFrom log order fuel' bn := by
  induction fuel generalizing fuel' bn with
  | zero => exact List.nil_prefix
  | succ fuel ih =>
    obtain ⟨fuel', rfl⟩ : ∃ n, fuel' = n + 1 := ⟨fuel' - 1, by omega⟩
    simp only [lastMileFrom]
    split
    · exact List.nil_prefix
    · exact List.prefix_cons_inj _ |>.2 (ih (by omega) (bn + 1))

/-- Storing a message that is not verified leaves the verified messages in their order, when it
    does not replace one. -/
theorem getMessagesByTypeSeq_addNotVerifiedMessage {log : FBFTLog E}
    (h : ∀ m, log.messages.lookup recvMsg.id = some m → m.verified = false) (bn : UInt64) :
    (log.addNotVerifiedMessage recvMsg).getMessagesByTypeSeq .committed bn =
      log.getMessagesByTypeSeq .committed bn := by
  simp only [FBFTLog.getMessagesByTypeSeq, FBFTLog.findMessages, FBFTLog.addNotVerifiedMessage,
    GoMap.values_insert]
  rw [List.filter_cons_of_neg (by simp)]
  exact GoMap.filter_values_erase fun m hm => by simp [h m hm]

theorem size_le_addNotVerifiedMessage (log : FBFTLog E) :
    GoMap.size log.messages ≤ GoMap.size (log.addNotVerifiedMessage recvMsg).messages := by
  unfold FBFTLog.addNotVerifiedMessage
  cases h : log.messages.lookup recvMsg.id with
  | none => rw [GoMap.size_insert_of_none h]; omega
  | some m => rw [GoMap.size_insert_of_some h]

/-! ## Rejected messages -/

/-- `onCommitted` does not accept the message: it is too old, or one of the checks fails. -/
def RejectsCommitted (s : Consensus E) (recvMsg : FBFTMessage E) : Prop :=
  recvMsg.blockNum < s.blockNum - 1 ∨ s.committedChecks recvMsg = none

/-- A message that passes the age check and fails another one is stored all the same. -/
theorem onCommitted_of_rejects (order : MapOrder E) (h : s.RejectsCommitted recvMsg)
    (hnew : ¬recvMsg.blockNum < s.blockNum - 1) :
    s.onCommitted order recvMsg =
      (s.spinUpIfLow recvMsg.blockNum).addNotVerifiedMessage recvMsg := by
  have hchecks : ((s.spinUpIfLow recvMsg.blockNum).addNotVerifiedMessage recvMsg).committedChecks
      recvMsg = none := by
    rw [← h.resolve_left hnew, spinUpIfLow_eq]
    rfl
  unfold onCommitted
  rw [if_neg hnew]
  simp only [hchecks]

/-- Storing a message that replaces no verified one does not take a block from `tryCatchup`. -/
theorem CommitsOnCatchup.of_stored {order : MapOrder E} {blk : Block}
    (h : s.CommitsOnCatchup order blk)
    (hfree : ∀ m, s.fbftLog.messages.lookup recvMsg.id = some m → m.verified = false) :
    ((s.spinUpIfLow recvMsg.blockNum).addNotVerifiedMessage recvMsg).CommitsOnCatchup
      order blk := by
  have hsize : GoMap.size s.fbftLog.messages + 1 ≤
      GoMap.size (s.fbftLog.addNotVerifiedMessage recvMsg).messages + 1 :=
    Nat.succ_le_succ (size_le_addNotVerifiedMessage s.fbftLog)
  rw [spinUpIfLow_eq]
  set s₁ : Consensus E := { s with
    mode := (s.spinUpIfLow recvMsg.blockNum).mode
    blockNumLow := (s.spinUpIfLow recvMsg.blockNum).blockNumLow }
  have hfollows : Follows ({ s with trace := [] } : Consensus E)
      { s₁.addNotVerifiedMessage recvMsg with trace := [] } := ⟨rfl, rfl, rfl, fun _ => id⟩
  refine hfollows.tryCatchup rfl ?_ h
  show lastMileFrom s.fbftLog order _ _ <+:
    lastMileFrom (s.fbftLog.addNotVerifiedMessage recvMsg) order _ _
  have hblocks : (s.fbftLog.addNotVerifiedMessage recvMsg).blocks = s.fbftLog.blocks := rfl
  rw [lastMileFrom_congr order hblocks (getMessagesByTypeSeq_addNotVerifiedMessage hfree)]
  exact lastMileFrom_prefix s.fbftLog order hsize s.blockNum

/-- **Rejected COMMITTED messages.**  For every node and every COMMITTED message that
    `onCommitted` does not accept: the verified messages of the log are all still there,
    unchanged, and every block that `tryCatchup` could commit it can still commit, exactly when the
    message is too old to be stored or no verified message is stored under its id. -/
theorem rejected_committed_harmless_iff (s : Consensus E) (order : MapOrder E)
    (recvMsg : FBFTMessage E) (hrejects : s.RejectsCommitted recvMsg) :
    ((∀ k m, s.fbftLog.messages.lookup k = some m → m.verified = true →
        (s.onCommitted order recvMsg).fbftLog.messages.lookup k = some m) ∧
      ∀ order' blk, s.CommitsOnCatchup order' blk →
        (s.onCommitted order recvMsg).CommitsOnCatchup order' blk) ↔
    recvMsg.blockNum < s.blockNum - 1 ∨
      ∀ m, s.fbftLog.messages.lookup recvMsg.id = some m → m.verified = false := by
  by_cases hnew : recvMsg.blockNum < s.blockNum - 1
  · have hsame : s.onCommitted order recvMsg = s := by
      unfold onCommitted
      rw [if_pos hnew]
    rw [hsame]
    exact iff_of_true ⟨fun _ _ h _ => h, fun _ _ => id⟩ (Or.inl hnew)
  · rw [onCommitted_of_rejects order hrejects hnew, or_iff_right hnew]
    have hlookup : ∀ k, ((s.spinUpIfLow recvMsg.blockNum).addNotVerifiedMessage
        recvMsg).fbftLog.messages.lookup k = if k = recvMsg.id then
          some { recvMsg with verified := false } else s.fbftLog.messages.lookup k := by
      intro k
      rw [← GoMap.lookup_insert_eq, spinUpIfLow_eq]
      rfl
    constructor
    · rintro ⟨hkept, -⟩ m hm
      by_contra hverified
      have hstill := hkept _ m hm (by simpa using hverified)
      rw [hlookup, if_pos rfl] at hstill
      exact hverified (Option.some.inj hstill ▸ rfl)
    · intro hfree
      refine ⟨fun k m hm hverified => ?_, fun order' blk h => h.of_stored hfree⟩
      rw [hlookup, if_neg, hm]
      rintro rfl
      rw [hfree m hm] at hverified
      cases hverified

end Consensus

namespace Concrete

/-- A validator that waits for block 1 has the body of block 2. -/
def waiting : Consensus env :=
  (node [2] 1 [1, 2, 3, 4] 1).step
    (deliver (preparedMsg [1, 2, 3, 4] [1, 2, 3] 1 (blk 2 0 0) 2) 1)

/-- The COMMITTED message of block 2 as a node parses it, with the signatures of some members. -/
def committedTwo (signers : List UInt8) : FBFTMessage env where
  messageType := .committed
  viewID := 0
  blockNum := 2
  blockHash := env.blockHash (blk 2 0 0)
  block := []
  senderPubkeys := [pub 1]
  senderPubkeyBitmap := []
  payload := certificate [1, 2, 3, 4] signers (env.commitPayload (blk 2 0 0))
  verified := false

/-- A message without quorum is rejected by a node that has no message of the block, and leaves
    the log of verified messages as it is. -/
theorem rejected_committed_waiting :
    waiting.RejectsCommitted (committedTwo [1]) ∧
      ∀ order' b, waiting.CommitsOnCatchup order' b →
        (waiting.onCommitted order (committedTwo [1])).CommitsOnCatchup order' b := by
  have hrejects : waiting.RejectsCommitted (committedTwo [1]) :=
    Or.inr (Option.isNone_iff_eq_none.1 (by decide +kernel))
  refine ⟨hrejects,
    ((Consensus.rejected_committed_harmless_iff waiting order (committedTwo [1]) hrejects).2 ?_).2⟩
  refine Or.inr fun m hm => ?_
  have hnone : (waiting.fbftLog.messages.lookup (committedTwo [1]).id).isNone = true := by
    decide +kernel
  rw [Option.isNone_iff_eq_none] at hnone
  rw [hnone] at hm
  cases hm

/-- The node accepts the COMMITTED message of block 2 and keeps it for the time when block 1 is
    committed; then a COMMITTED message with one signature comes in, is rejected, and the verified
    one is gone. -/
theorem rejected_committed_overwrites :
    (waiting.onCommitted order (committedTwo [1, 2, 3])).RejectsCommitted (committedTwo [1]) ∧
    ((waiting.onCommitted order (committedTwo [1, 2, 3])).fbftLog.getMessagesByTypeSeq
      .committed 2).length = 1 ∧
    (((waiting.onCommitted order (committedTwo [1, 2, 3])).onCommitted order
      (committedTwo [1])).fbftLog.getMessagesByTypeSeq .committed 2).length = 0 := by
  refine ⟨Or.inr (Option.isNone_iff_eq_none.1 ?_), ?_, ?_⟩ <;> decide +kernel

end Concrete

end Benzene
