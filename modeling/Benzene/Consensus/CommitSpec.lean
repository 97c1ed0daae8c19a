import Benzene.Consensus.Commit

/-!
# What committing a block changes

One specification for each function of the commit path, for the proofs to use in place of
the definitions.

* `Emits P s s'`: the trace only grew, by entries that satisfy `P`.
* `setupForNewConsensus_spec`: the state that a commit leaves behind.
* `commitBlock_cases`: `commitBlock` fails and changes the chain only, or it sets up the next
  round for the single sender of the message.
* `catchupLoop_rule`, `lastMileFrom_isLastMile`: the induction rule of the loop of `tryCatchup`,
  and where its blocks come from.
-/

namespace Benzene

variable {E : Env}

/-! ## Traces -/

/-- The trace grew by entries that satisfy `P`. -/
def Emits (P : Entry E → Prop) (s s' : Consensus E) : Prop :=
  ∃ l, s'.trace = l ++ s.trace ∧ ∀ e ∈ l, P e

namespace Emits

variable {P Q : Entry E → Prop} {s s' s'' : Consensus E}

theorem of_trace_eq (h : s'.trace = s.trace) : Emits P s s' := ⟨[], h, by simp⟩

theorem refl (s : Consensus E) : Emits P s s := of_trace_eq rfl

theorem trans (h : Emits P s s') (h' : Emits P s' s'') : Emits P s s'' := by
  obtain ⟨l, hl, hP⟩ := h
  obtain ⟨l', hl', hP'⟩ := h'
  refine ⟨l' ++ l, by rw [hl', hl, List.append_assoc], ?_⟩
  intro e he
  rcases List.mem_append.1 he with he | he
  · exact hP' e he
  · exact hP e he

theorem emit (s : Consensus E) {a : Action E} (h : P ⟨a, s.blockNum, s.decider⟩) :
    Emits P s (s.emit a) :=
  ⟨[_], rfl, by simpa using h⟩

variable {msg : FBFTMessage E}

theorem addVerifiedMessage (s : Consensus E)
    (h : P ⟨.logged { msg with verified := true }, s.blockNum, s.decider⟩) :
    Emits P s (s.addVerifiedMessage msg) :=
  ⟨[_], rfl, by simpa using h⟩

theorem addNotVerifiedMessage (s : Consensus E)
    (h : P ⟨.logged { msg with verified := false }, s.blockNum, s.decider⟩) :
    Emits P s (s.addNotVerifiedMessage msg) :=
  ⟨[_], rfl, by simpa using h⟩

theorem mono (hPQ : ∀ e, P e → Q e) (h : Emits P s s') : Emits Q s s' := by
  obtain ⟨l, hl, hP⟩ := h
  exact ⟨l, hl, fun e he => hPQ e (hP e he)⟩

theorem mem_trace (h : Emits P s s') : ∀ e ∈ s.trace, e ∈ s'.trace := by
  obtain ⟨l, hl, -⟩ := h
  intro e he
  rw [hl]
  exact List.mem_append_right l he

theorem forall_mem (h : Emits P s s') (h0 : ∀ e ∈ s.trace, P e) : ∀ e ∈ s'.trace, P e := by
  obtain ⟨l, hl, hP⟩ := h
  intro e he
  rw [hl, List.mem_append] at he
  rcases he with he | he
  · exact hP e he
  · exact h0 e he

end Emits

namespace Consensus

/-! ## Updating the committee -/

/-- The fields that a change of committee does not touch. -/
structure Kept (s s' : Consensus E) : Prop where
  fbftLog : s'.fbftLog = s.fbftLog
  blockViewID : s'.blockViewID = s.blockViewID
  blockchain : s'.blockchain = s.blockchain
  priKey : s'.priKey = s.priKey
  blockNum : s'.blockNum = s.blockNum
  ignoreViewIDCheck : s'.ignoreViewIDCheck = s.ignoreViewIDCheck
  blockVerifierSet : s'.blockVerifierSet = s.blockVerifierSet
  blockNumLow : s'.blockNumLow = s.blockNumLow
  tasks : s'.tasks = s.tasks
  crashed : s'.crashed = s.crashed

/-- The leader that `UpdatePublicKeys` sets: the first key, if there is one. -/
def firstOr (pubKeys : List E.PubKey) (leader : E.PubKey) : E.PubKey := pubKeys.headD leader

theorem updatePublicKeys_eq (s : Consensus E) (pubKeys : List E.PubKey) :
    s.updatePublicKeys pubKeys =
      ({ s with
        decider := s.decider.updateParticipants pubKeys
        leaderPubKey := firstOr pubKeys s.leaderPubKey } :
        Consensus E).updateBitmaps.resetState := by
  cases pubKeys <;> rfl

/-- `UpdateConsensusInformation` changes nothing, or makes a committee of the shard state the
    committee of the node. -/
theorem updateConsensusInformation_cases (s : Consensus E) :
    s.committeeToSet = none ∧ s.updateConsensusInformation.1 = s ∨
    ∃ c trace, s.committeeToSet = some c ∧
      (∀ e ∈ trace, e.action = .readySignal .syncProposal) ∧
      s.updateConsensusInformation.1 =
        { s.updatePublicKeys (E.blsPublicKeys c) with trace := trace ++ s.trace } := by
  unfold updateConsensusInformation
  cases hc : s.committeeToSet with
  | none => exact Or.inl ⟨rfl, rfl⟩
  | some c =>
    right
    have htrace : (s.updatePublicKeys (E.blsPublicKeys c)).trace = s.trace := by
      rw [updatePublicKeys_eq]
      rfl
    have hsame : ∀ t : Consensus E, t.trace = s.trace → t = { t with trace := [] ++ s.trace } := by
      intro t ht
      rw [List.nil_append, ← ht]
    dsimp only
    split_ifs
    · exact ⟨c, [], rfl, by simp, hsame _ htrace⟩
    · refine ⟨c, [⟨.readySignal .syncProposal, (s.updatePublicKeys (E.blsPublicKeys c)).blockNum,
        (s.updatePublicKeys (E.blsPublicKeys c)).decider⟩], rfl, by simp, ?_⟩
      rw [List.singleton_append, ← htrace]
      rfl
    · exact ⟨c, [], rfl, by simp, hsame _ htrace⟩
    · exact ⟨c, [], rfl, by simp, hsame _ htrace⟩

theorem updateConsensusInformation_kept (s : Consensus E) :
    Kept s s.updateConsensusInformation.1 := by
  rcases s.updateConsensusInformation_cases with ⟨-, h⟩ | ⟨c, trace, -, -, h⟩
  · rw [h]
    constructor <;> rfl
  · rw [h, updatePublicKeys_eq]
    constructor <;> rfl

variable {s : Consensus E}

theorem committeeToSet_eq_some {c : E.Committee} (h : s.committeeToSet = some c) :
    ∃ shardState shardID, E.findCommitteeByID shardState shardID = some c := by
  unfold committeeToSet at h
  dsimp only at h
  split at h
  · split_ifs at h
    · split at h
      · cases h
      · exact ⟨_, _, h⟩
    · exact ⟨_, _, h⟩
  · cases h

/-! ## The next round -/

/-- The state that the commit of `blk` leaves behind. -/
structure SetUp (blk : Block) (sender : E.PubKey) (s s' : Consensus E) : Prop where
  blockNum : s'.blockNum = blk.numberU64 + 1
  fbftLog : s'.fbftLog = s.fbftLog.pruneCacheBeforeBlock blk.numberU64
  blockViewID : s'.blockViewID = s.blockViewID
  blockchain : s'.blockchain = s.blockchain
  priKey : s'.priKey = s.priKey
  blockVerifierSet : s'.blockVerifierSet = s.blockVerifierSet
  tasks : s'.tasks = s.tasks
  crashed : s'.crashed = s.crashed
  blockHash : s'.blockHash = zeroBytes 32
  block : s'.block = []
  prepare : s'.decider.prepare = ∅
  commit : s'.decider.commit = ∅
  emits : Emits (fun e => e.action = .readySignal .syncProposal) s s'
  prepareBit : ∀ i, testBit (E.masks.bitmap s'.prepareBitmap) i = false
  commitBit : ∀ i, testBit (E.masks.bitmap s'.commitBitmap) i = false
  sigs : s'.aggregatedPrepareSig = none ∧ s'.aggregatedCommitSig = none
  /-- The committee stays and the sender leads it, or the epoch ended and a new committee is
      led by its first key. -/
  committee :
    (s'.decider.publicKeys = s.decider.publicKeys ∧ s'.leaderPubKey = sender ∧
      E.masks.publics s'.prepareBitmap = E.masks.publics s.prepareBitmap ∧
      E.masks.publics s'.commitBitmap = E.masks.publics s.commitBitmap) ∨
    ∃ c, s.committeeToSet = some c ∧ E.isLastBlockInEpoch blk.header = true ∧
      s'.decider.publicKeys = E.blsPublicKeys c ∧
      s'.leaderPubKey = firstOr (E.blsPublicKeys c) sender ∧
      E.masks.publics s'.prepareBitmap = E.blsPublicKeys c ∧
      E.masks.publics s'.commitBitmap = E.blsPublicKeys c

theorem setupForNewConsensus_spec (s : Consensus E) (blk : Block) (sender : E.PubKey) :
    SetUp blk sender s (s.setupForNewConsensus blk sender) := by
  unfold setupForNewConsensus
  dsimp only
  split_ifs with hlast
  · set t : Consensus E := { s with blockNum := blk.numberU64 + 1, leaderPubKey := sender } with ht
    have hk := t.updateConsensusInformation_kept
    have hemits : Emits (fun e => e.action = .readySignal .syncProposal) s
        t.updateConsensusInformation.1 := by
      rcases t.updateConsensusInformation_cases with ⟨-, h⟩ | ⟨c, trace, -, htrace, h⟩
      all_goals rw [h]
      · exact Emits.of_trace_eq rfl
      · exact ⟨trace, rfl, htrace⟩
    refine ⟨hk.blockNum, congrArg (·.pruneCacheBeforeBlock blk.numberU64) hk.fbftLog,
      hk.blockViewID, hk.blockchain, hk.priKey, hk.blockVerifierSet, hk.tasks, hk.crashed, rfl,
      rfl, rfl, rfl, hemits, E.masks.clear_bit _, E.masks.clear_bit _, ⟨rfl, rfl⟩, ?_⟩
    rcases t.updateConsensusInformation_cases with ⟨-, h⟩ | ⟨c, trace, hc, -, h⟩
    · left
      refine ⟨?_, ?_, ?_, ?_⟩
      all_goals
        simp only [resetState, h, E.masks.clear_publics]
        rfl
    · right
      refine ⟨c, hc, hlast, ?_, ?_, ?_, ?_⟩
      all_goals
        simp only [resetState, h, updatePublicKeys_eq, updateBitmaps, E.masks.clear_publics,
          E.masks.newMask_publics]
        rfl
  · refine ⟨rfl, rfl, rfl, rfl, rfl, rfl, rfl, rfl, rfl, rfl, rfl, rfl, Emits.of_trace_eq rfl,
      E.masks.clear_bit _, E.masks.clear_bit _, ⟨rfl, rfl⟩, Or.inl ⟨rfl, rfl, ?_, ?_⟩⟩
    · exact E.masks.clear_publics _
    · exact E.masks.clear_publics _

/-! ## `commitBlock` -/

/-- An entry of `commitBlock` before it sets up the next round. -/
structure CommitEntry (blockNum : UInt64) (decider : Decider E.bls) (blk : Block)
    (e : Entry E) : Prop where
  action : e.action = .commitBlock blk ∨ e.action = .insertChain blk ∨
    e.action = .postConsensusJob blk
  blockNum : e.blockNum = blockNum
  decider : e.decider = decider

/-- Only the chain and the trace differ, and the trace grew by entries that satisfy `P`. -/
structure ChainOnly (P : Entry E → Prop) (s s' : Consensus E) : Prop where
  eq : s' = { s with blockchain := s'.blockchain, trace := s'.trace }
  emits : Emits P s s'

variable {P : Entry E → Prop}

theorem ChainOnly.trans {s s' s'' : Consensus E} (h : ChainOnly P s s') (h' : ChainOnly P s' s'') :
    ChainOnly P s s'' := by
  refine ⟨?_, h.emits.trans h'.emits⟩
  rw [h'.eq, h.eq]

variable (s)

theorem ChainOnly.emit {a : Action E} (h : P ⟨a, s.blockNum, s.decider⟩) :
    ChainOnly P s (s.emit a) :=
  ⟨rfl, Emits.emit s h⟩

theorem insertIfNew_chainOnly (blk : Block) :
    ChainOnly (CommitEntry s.blockNum s.decider blk) s (s.insertIfNew blk).1 := by
  unfold insertIfNew insertChain
  dsimp only
  split_ifs
  · exact ⟨rfl, ⟨[_], rfl, by simpa using ⟨Or.inr (Or.inl rfl), rfl, rfl⟩⟩⟩
  · exact ⟨rfl, Emits.refl s⟩

/-- `commitBlock` fails, with the chain changed at most, or sets up the next round for the
    single sender of the message. -/
theorem commitBlock_cases (blk : Block) (msg : FBFTMessage E) :
    ∃ s1, ChainOnly (CommitEntry s.blockNum s.decider blk) s s1 ∧
      (s.commitBlock blk msg = (s1, false) ∨
      ∃ sender, msg.senderPubkeys = [sender] ∧
        s.commitBlock blk msg = (s1.setupForNewConsensus blk sender, true)) := by
  have h1 : ChainOnly (CommitEntry s.blockNum s.decider blk) s (s.emit (.commitBlock blk)) :=
    ChainOnly.emit s ⟨Or.inl rfl, rfl, rfl⟩
  have h2 : ChainOnly (CommitEntry s.blockNum s.decider blk) s
      ((s.emit (.commitBlock blk)).insertIfNew blk).1 :=
    h1.trans (insertIfNew_chainOnly (s.emit (.commitBlock blk)) blk)
  unfold commitBlock
  dsimp only
  split_ifs
  · exact ⟨_, h2, Or.inl rfl⟩
  · split
    · rename_i sender hsender
      refine ⟨_, h2.trans (ChainOnly.emit _ ⟨Or.inr (Or.inr rfl), ?_, ?_⟩),
        Or.inr ⟨sender, hsender, rfl⟩⟩
      · rw [h2.eq]
      · rw [h2.eq]
    · exact ⟨_, h2, Or.inl rfl⟩

/-- An attempt to commit a block is recorded. -/
theorem commitBlock_emits_attempt (blk : Block) (m : FBFTMessage E) :
    Emits (fun _ => True) (s.emit (.commitBlock blk)) (s.commitBlock blk m).1 := by
  have hinsert := (insertIfNew_chainOnly (s.emit (.commitBlock blk)) blk).emits.mono
    (Q := fun _ => True) fun _ _ => trivial
  unfold commitBlock
  dsimp only
  split_ifs
  · exact hinsert
  · split
    · exact (hinsert.trans (Emits.emit _ trivial)).trans
        ((setupForNewConsensus_spec _ blk _).emits.mono fun _ _ => trivial)
    · exact hinsert

variable {s}

variable {msg : FBFTMessage E}

/-- A block that the chain takes is committed. -/
theorem commitBlock_of_inserts {blk : Block} {sender : E.PubKey}
    (hnew : (E.currentBlock s.blockchain).numberU64 < blk.numberU64)
    (hinserts : (E.insertChain s.blockchain blk).2 = true)
    (hsender : msg.senderPubkeys = [sender]) :
    ∃ s1, ChainOnly (CommitEntry s.blockNum s.decider blk) s s1 ∧
      s1.blockchain = (E.insertChain s.blockchain blk).1 ∧
      s.commitBlock blk msg = (s1.setupForNewConsensus blk sender, true) := by
  have hinsert : (s.emit (.commitBlock blk)).insertIfNew blk =
      (({ s.emit (.commitBlock blk) with
        blockchain := (E.insertChain s.blockchain blk).1 } : Consensus E).emit (.insertChain blk),
        true) := by
    unfold insertIfNew insertChain
    rw [if_pos (show (E.currentBlock (s.emit (.commitBlock blk)).blockchain).numberU64 <
      blk.numberU64 from hnew), ← hinserts]
    rfl
  refine ⟨(({ s.emit (.commitBlock blk) with
    blockchain := (E.insertChain s.blockchain blk).1 } : Consensus E).emit (.insertChain blk)).emit
      (.postConsensusJob blk), ⟨rfl, [_, _, _], rfl, ?_⟩, rfl, ?_⟩
  · intro e he
    simp only [List.mem_cons, List.not_mem_nil, or_false] at he
    rcases he with rfl | rfl | rfl
    · exact ⟨Or.inr (Or.inr rfl), rfl, rfl⟩
    · exact ⟨Or.inr (Or.inl rfl), rfl, rfl⟩
    · exact ⟨Or.inl rfl, rfl, rfl⟩
  · unfold commitBlock
    rw [hinsert]
    simp only [hsender, Bool.not_true, Bool.false_eq_true, if_false]

/-! ## Catching up -/

/-- A list of cached blocks, each with a verified COMMITTED message of the log that names it;
    the messages have the block numbers `bn, bn + 1, …`. -/
def IsLastMile (log : FBFTLog E) : UInt64 → List (Block × FBFTMessage E) → Prop
  | _, [] => True
  | bn, (blk, msg) :: rest =>
    (msg ∈ GoMap.values log.messages ∧ msg.messageType = .committed ∧ msg.verified = true ∧
      msg.blockNum = bn ∧ log.getBlockByHash msg.blockHash = some blk) ∧
    IsLastMile log (bn + 1) rest

theorem getCommittedBlockAndMsgsFromNumber_eq_some {log : FBFTLog E} {order : MapOrder E}
    {bn : UInt64} {blk : Block}
    (h : log.getCommittedBlockAndMsgsFromNumber (order.messages bn) bn = some (blk, msg)) :
    msg ∈ GoMap.values log.messages ∧ msg.messageType = .committed ∧ msg.verified = true ∧
      msg.blockNum = bn ∧ log.getBlockByHash msg.blockHash = some blk := by
  obtain ⟨m, hm, hblk⟩ := List.exists_of_findSome?_eq_some h
  rw [(order.messages_perm _ _).mem_iff] at hm
  obtain ⟨b, hb, hpair⟩ := Option.map_eq_some_iff.1 hblk
  rw [Prod.mk.injEq] at hpair
  obtain ⟨rfl, rfl⟩ := hpair
  simp only [FBFTLog.getMessagesByTypeSeq, FBFTLog.findMessages, List.mem_filter,
    Bool.and_eq_true, beq_iff_eq] at hm
  exact ⟨hm.1, hm.2.1.1, hm.2.2, hm.2.1.2, hb⟩

theorem lastMileFrom_isLastMile (log : FBFTLog E) (order : MapOrder E) (fuel : ℕ) (bn : UInt64) :
    IsLastMile log bn (lastMileFrom log order fuel bn) := by
  induction fuel generalizing bn with
  | zero => trivial
  | succ fuel ih =>
    cases hp : log.getCommittedBlockAndMsgsFromNumber (order.messages bn) bn with
    | none =>
      simp only [lastMileFrom, hp]
      trivial
    | some p =>
      simp only [lastMileFrom, hp]
      exact ⟨getCommittedBlockAndMsgsFromNumber_eq_some hp, ih (bn + 1)⟩

theorem getLastMileBlocksAndMsg_isLastMile (s : Consensus E) (order : MapOrder E) (bn : UInt64) :
    IsLastMile s.fbftLog bn (s.getLastMileBlocksAndMsg order bn) :=
  lastMileFrom_isLastMile _ _ _ _

/-- The verifier of the loop keeps everything, or marks the block and records that it was
    verified. -/
theorem verifyUnlessMarked_cases (s : Consensus E) (blk : Block) :
    s.verifyUnlessMarked blk = (s, true) ∧ s.fbftLog.isBlockVerified blk = true ∨
    s.verifyUnlessMarked blk = (s, false) ∨
    s.verifyUnlessMarked blk = (s.markBlockVerified blk, true) ∧
      E.blockVerifier s.blockchain blk = true := by
  unfold verifyUnlessMarked
  split_ifs with hmarked hverify
  · exact Or.inl ⟨rfl, hmarked⟩
  · exact Or.inr (Or.inr ⟨rfl, hverify⟩)
  · exact Or.inr (Or.inl rfl)

/-- Induction over the loop of `tryCatchup`: `P` is the invariant at the head of the loop, with
    the blocks still to come, and `Q` what is to hold wherever the loop ends. -/
theorem catchupLoop_rule {P : Consensus E → List (Block × FBFTMessage E) → Prop}
    {Q : Consensus E → Prop} (hnil : ∀ s, P s [] → Q s)
    (hcons : ∀ s blk msg rest, P s ((blk, msg) :: rest) →
      Q (s.verifyUnlessMarked blk).1 ∧
      ((s.verifyUnlessMarked blk).2 = true →
        Q ((s.verifyUnlessMarked blk).1.commitBlock blk msg).1 ∧
        (((s.verifyUnlessMarked blk).1.commitBlock blk msg).2 = true →
          P (((s.verifyUnlessMarked blk).1.commitBlock blk msg).1.emit (.verifiedNewBlock blk))
            rest))) {l : List (Block × FBFTMessage E)} (h : P s l) : Q (catchupLoop s l) := by
  induction l generalizing s with
  | nil => exact hnil s h
  | cons p rest ih =>
    obtain ⟨blk, msg⟩ := p
    obtain ⟨hverify, hcommit⟩ := hcons s blk msg rest h
    simp only [catchupLoop]
    split_ifs with hv hc
    · exact hverify
    · exact (hcommit (by simpa using hv)).1
    · exact ih ((hcommit (by simpa using hv)).2 (by simpa using hc))

end Consensus

end Benzene
