import Benzene.Consensus.CommitSpec
import Benzene.Consensus.Leader
import Benzene.Quorum.Ballots

/-!
# What the leader's handlers change

The ways through `announce`, `onPrepare`, `onCommit` and `finalCommit`, with the message that
each builds.

* `voteWithOwnKeys_spec`, `voteWithOwnKeys_rule`: the leader's own votes touch the ballot box
  and the bitmap of their phase; the induction rule of the loop.
* `announce_cases`, `didReachPrepareQuorum_cases`, `finalCommit_cases`, `onPrepare_cases`,
  `onCommit_cases`.
-/

namespace Benzene

variable {E : Env}

namespace Consensus

variable {s : Consensus E} {p : Phase} {m : FBFTMessage E}

theorem getConsensusLeaderPrivateKey_eq_some {key : E.PriKey}
    (h : s.getConsensusLeaderPrivateKey = some key) : key ∈ s.priKey ∧ key.pub = s.leaderPubKey :=
  ⟨List.mem_of_find?_eq_some h,
    PublicKeyWrapper.eq_of_object (by simpa using List.find?_some h)⟩

/-! ## Own votes -/

/-- Only the ballot box and the bitmap of the phase `p`, and the trace, differ. -/
structure VotedIn (p : Phase) (P : Entry E → Prop) (s s' : Consensus E) : Prop where
  eq : s' = ({ s with decider := s'.decider, trace := s'.trace } : Consensus E).setBitmap
    (s'.bitmap p) p
  decider : s'.decider = s.decider.setBallotBox (s'.decider.ballotBox p) p
  emits : Emits P s s'

theorem setBallotBox_self (d : Decider E.bls) (p : Phase) :
    d.setBallotBox (d.ballotBox p) p = d := by
  cases p <;> rfl

theorem setBitmap_self (s : Consensus E) (p : Phase) : s.setBitmap (s.bitmap p) p = s := by
  cases p <;> rfl

variable {P : Entry E → Prop}

theorem VotedIn.refl (s : Consensus E) : VotedIn p P s s :=
  ⟨(s.setBitmap_self p).symm, (setBallotBox_self s.decider p).symm, Emits.refl s⟩

theorem VotedIn.trans {s' s'' : Consensus E} (h : VotedIn p P s s') (h' : VotedIn p P s' s'') :
    VotedIn p P s s'' := by
  refine ⟨?_, ?_, h.emits.trans h'.emits⟩
  · have heq := h'.eq
    rw [h.eq] at heq
    cases p <;> exact heq
  · have heq := h'.decider
    rw [h.decider] at heq
    cases p <;> exact heq

/-- Induction over the loop of own votes: `P` is kept when the bit of a key is set and its vote
    is refused, and when the vote is recorded. -/
theorem voteWithOwnKeys_rule {payload : Bytes} {headerHash : Hash} {height : UInt64}
    {P : Consensus E → Prop} {keys : List E.PriKey}
    (hstep : ∀ (t : Consensus E) (key : E.PriKey) (mask : E.Mask), key ∈ keys → P t →
      E.masks.setKey (t.bitmap p) key.pub.bytes true = some mask →
      ∀ t', t' = (t.setBitmap mask p).emit (.signed p key.pub.bytes headerHash) →
        match t'.decider.addNewVote p [key.pub] (E.bls.signHash key.pri payload) headerHash
            height 0 with
        | .error _ => P t'
        | .ok (decider, _) => P { t' with decider := decider }) (h : P s) :
    P (voteWithOwnKeys p payload headerHash height s keys).1 := by
  induction keys generalizing s with
  | nil => exact h
  | cons key keys ih =>
    have ih' : ∀ {t : Consensus E}, P t →
        P (voteWithOwnKeys p payload headerHash height t keys).1 :=
      ih fun t key' mask hmem => hstep t key' mask (List.mem_cons_of_mem _ hmem)
    unfold voteWithOwnKeys
    cases hmask : E.masks.setKey (s.bitmap p) key.pub.bytes true with
    | none => exact ih' h
    | some mask =>
      have hkey := hstep s key mask List.mem_cons_self h hmask _ rfl
      dsimp only at hkey ⊢
      cases hvote : ((s.setBitmap mask p).emit
        (.signed p key.pub.bytes headerHash)).decider.addNewVote
        p [key.pub] (E.bls.signHash key.pri payload) headerHash height 0 with
      | error err =>
        rw [hvote] at hkey
        exact hkey
      | ok r =>
        rw [hvote] at hkey
        exact ih' hkey

theorem voteWithOwnKeys_spec (p : Phase) (payload : Bytes) (headerHash : Hash) (height : UInt64)
    (s : Consensus E) (keys : List E.PriKey) :
    VotedIn p (fun e => e.blockNum = s.blockNum ∧
        ∃ key ∈ keys, e.action = .signed p key.pub.bytes headerHash) s
      (voteWithOwnKeys p payload headerHash height s keys).1 := by
  refine voteWithOwnKeys_rule (P := VotedIn p _ s) ?_ (VotedIn.refl s)
  rintro t key mask hkey ht - t' rfl
  have hnum : t.blockNum = s.blockNum := by
    rw [ht.eq]
    cases p <;> rfl
  have hbit : VotedIn p (fun e => e.blockNum = s.blockNum ∧
      ∃ key ∈ keys, e.action = .signed p key.pub.bytes headerHash) t
      ((t.setBitmap mask p).emit (.signed p key.pub.bytes headerHash)) := by
    refine ⟨?_, ?_, [⟨.signed p key.pub.bytes headerHash, t.blockNum, t.decider⟩], ?_, ?_⟩
    · cases p <;> rfl
    · cases p <;> rfl
    · cases p <;> rfl
    · simpa using ⟨hnum, key, hkey, rfl⟩
  split
  · exact ht.trans hbit
  · rename_i hok
    refine ht.trans (hbit.trans ⟨?_, ?_, Emits.of_trace_eq rfl⟩)
    · cases p <;> rfl
    · rw [(addNewVote_eq_ok hok).2.2]
      cases p <;> rfl

/-! ## Announcing -/

variable (s)

/-- `announce` after the block is set: the message and the block are logged. -/
def logAnnounce (m : FBFTMessage E) (block : Block) : Consensus E :=
  { s.addVerifiedMessage m with fbftLog := (s.addVerifiedMessage m).fbftLog.addBlock block }

/-- The own prepare votes of `announce`. -/
def voteAnnounce (block : Block) : Consensus E × Bool :=
  voteWithOwnKeys .prepare s.blockHash.toList (E.blockHash block) block.numberU64 s s.priKey

theorem voteAnnounce_spec (block : Block) :
    VotedIn .prepare (fun e => e.blockNum = s.blockNum ∧
      ∃ key ∈ s.priKey, e.action = .signed .prepare key.pub.bytes (E.blockHash block)) s
      (s.voteAnnounce block).1 :=
  voteWithOwnKeys_spec _ _ _ _ _ _

/-- `announce` does nothing, sets the block, or logs the announcement and votes; it sends the
    announcement only when every own vote is recorded. -/
theorem announce_cases (order : MapOrder E) (block : Block) :
    s.announce order block = s ∨
    ∃ encodedBlock t, E.encodeBlock block = some encodedBlock ∧
      t = { s with blockHash := E.blockHash block, block := encodedBlock } ∧
      (s.announce order block = t ∨
      ∃ key network, s.getConsensusLeaderPrivateKey = some key ∧
        network.message.type = .announce ∧ network.fbftMsg = t.ownMessage order .announce [] key ∧
        (s.announce order block = ((t.logAnnounce network.fbftMsg block).voteAnnounce block).1 ∨
          s.announce order block =
            { ((t.logAnnounce network.fbftMsg block).voteAnnounce block).1.emit (.sent network) with
              phase := .prepare })) := by
  unfold announce
  cases hencode : E.encodeBlock block with
  | none => exact Or.inl rfl
  | some encodedBlock =>
    refine Or.inr ⟨encodedBlock, _, rfl, rfl, ?_⟩
    dsimp only
    cases hkey : getConsensusLeaderPrivateKey
      { s with blockHash := E.blockHash block, block := encodedBlock } with
    | none => exact Or.inl rfl
    | some key =>
      dsimp only
      rcases construct_single { s with blockHash := E.blockHash block, block := encodedBlock } order
        .announce [] key with ⟨err, herr⟩ | ⟨network, hok, htype, hmsg⟩
      · rw [herr]
        exact Or.inl rfl
      · rw [hok]
        refine Or.inr ⟨key, network, hkey, htype, hmsg, ?_⟩
        dsimp only
        split_ifs
        · exact Or.inl rfl
        · exact Or.inr rfl

/-! ## The prepare quorum -/

/-- `didReachPrepareQuorum` after the PREPARED message is built: it is logged. -/
def logOwnPrepared (m : FBFTMessage E) : Consensus E :=
  ({ s.emit (.constructed m) with aggregatedPrepareSig := none } : Consensus E).addVerifiedMessage m

/-- The own commit votes of `didReachPrepareQuorum`. -/
def voteCommit (block : Block) : Consensus E × Bool :=
  voteWithOwnKeys .commit (E.commitPayload block) (E.blockHash block) block.numberU64 s s.priKey

theorem voteCommit_spec (block : Block) :
    VotedIn .commit (fun e => e.blockNum = s.blockNum ∧
      ∃ key ∈ s.priKey, e.action = .signed .commit key.pub.bytes (E.blockHash block)) s
      (s.voteCommit block).1 :=
  voteWithOwnKeys_spec _ _ _ _ _ _

/-- `didReachPrepareQuorum` fails to build the message, does not decode the block, or logs the
    message and votes; it sends the message only when every own vote is recorded. -/
theorem didReachPrepareQuorum_cases (order : MapOrder E) :
    s.didReachPrepareQuorum order = (s, false) ∨
    ∃ key network, s.getConsensusLeaderPrivateKey = some key ∧
      network.message.type = .prepared ∧ network.fbftMsg = s.ownMessage order .prepared [] key ∧
      (E.decodeBlock s.block = none ∧
        s.didReachPrepareQuorum order = (s.logOwnPrepared network.fbftMsg, false) ∨
      ∃ block, E.decodeBlock s.block = some block ∧
        (s.didReachPrepareQuorum order =
            (((s.logOwnPrepared network.fbftMsg).voteCommit block).1, false) ∨
          s.didReachPrepareQuorum order =
            (((s.logOwnPrepared network.fbftMsg).voteCommit block).1.emit (.sent network),
              true))) := by
  unfold didReachPrepareQuorum
  cases hkey : s.getConsensusLeaderPrivateKey with
  | none => exact Or.inl rfl
  | some key =>
    dsimp only
    rcases s.construct_single order .prepared [] key with ⟨err, herr⟩ | ⟨network, hok, htype, hmsg⟩
    · rw [herr]
      exact Or.inl rfl
    · rw [hok]
      refine Or.inr ⟨key, network, rfl, htype, hmsg, ?_⟩
      dsimp only
      have hblock : (({ s.emit (.constructed network.fbftMsg) with
          aggregatedPrepareSig := none } : Consensus E).addVerifiedMessage network.fbftMsg).block =
          s.block := rfl
      rw [hblock]
      cases hdecode : E.decodeBlock s.block with
      | none => exact Or.inl ⟨rfl, rfl⟩
      | some block =>
        refine Or.inr ⟨block, rfl, ?_⟩
        dsimp only
        split_ifs with hvote
        · refine Or.inl (Prod.ext rfl ?_)
          simpa using hvote
        · exact Or.inr rfl

variable {s}

theorem prepareChecks_eq_some {sign : E.Sign} (h : s.prepareChecks m = some sign) :
    (∀ k ∈ m.senderPubkeys, s.decider.readBallot .prepare k.bytes = none) ∧
      s.decider.isQuorumAchieved .prepare = false ∧
      sign = E.bls.sigOf s.blockHash.toList (signerPubKey m) := by
  unfold prepareChecks at h
  split_ifs at h with hballot hquorum
  split at h
  · cases h
  · split_ifs at h with hverify
    obtain rfl := Option.some.inj h
    refine ⟨?_, by simpa using hquorum, ?_⟩
    · simpa using hballot
    · rw [Bool.not_eq_true, Bool.not_eq_false', E.bls.verifyHash_iff] at hverify
      exact hverify

variable (s)

/-- `onPrepare` rejects the vote, records a ballot without setting bits, or records both and
    goes on when the quorum is reached. -/
theorem onPrepare_cases (order : MapOrder E) (m : FBFTMessage E) :
    s.onPrepare order m = s ∨
    ∃ sign decider ballot, s.prepareChecks m = some sign ∧
      s.decider.addNewVote .prepare m.senderPubkeys sign m.blockHash m.blockNum m.viewID =
        .ok (decider, ballot) ∧
      (E.masks.setKeysAtomic s.prepareBitmap m.senderPubkeys true = none ∧
        s.onPrepare order m = { s with decider := decider } ∨
      ∃ mask t, E.masks.setKeysAtomic s.prepareBitmap m.senderPubkeys true = some mask ∧
        t = { s with decider := decider, prepareBitmap := mask } ∧
        (s.onPrepare order m = t ∨
        decider.isQuorumAchieved .prepare = true ∧ ∃ phase,
          s.onPrepare order m = { (t.didReachPrepareQuorum order).1 with phase := phase })) := by
  unfold onPrepare
  cases hchecks : s.prepareChecks m with
  | none => exact Or.inl rfl
  | some sign =>
    dsimp only
    cases hvote : s.decider.addNewVote .prepare m.senderPubkeys sign m.blockHash m.blockNum
      m.viewID with
    | error err => exact Or.inl rfl
    | ok r =>
      obtain ⟨decider, ballot⟩ := r
      refine Or.inr ⟨sign, decider, ballot, rfl, hvote, ?_⟩
      dsimp only
      cases hmask : E.masks.setKeysAtomic s.prepareBitmap m.senderPubkeys true with
      | none => exact Or.inl ⟨rfl, rfl⟩
      | some mask =>
        refine Or.inr ⟨mask, _, rfl, rfl, ?_⟩
        dsimp only
        split_ifs with hquorum hreach
        · exact Or.inr ⟨hquorum, _, rfl⟩
        · exact Or.inr ⟨hquorum, _, rfl⟩
        · exact Or.inl rfl

/-! ## The final commit -/

/-- `finalCommit` after the COMMITTED message is built: it is logged. -/
def logOwnCommitted (m : FBFTMessage E) : Consensus E :=
  (s.emit (.constructed m)).addVerifiedMessage m

theorem afterFinalCommit_spec (block : Block) (network : NetworkMessage E) :
    s.afterFinalCommit block network =
      { s with trace := (s.afterFinalCommit block network).trace } ∧
    Emits (fun e => e.action = .sent network ∨ e.action = .queued network ∨
      e.action = .readySignal .syncProposal ∨ e.action = .commitSig network.fbftMsg.payload) s
      (s.afterFinalCommit block network) := by
  unfold afterFinalCommit
  dsimp only
  split_ifs
  all_goals first
    | exact ⟨rfl, ⟨[_], rfl, by simp⟩⟩
    | exact ⟨rfl, ⟨[_, _], rfl, by simp⟩⟩

/-- `finalCommit` fails to build the message, finds no block for it, or stores the certificate
    and commits the block. -/
theorem finalCommit_cases (order : MapOrder E) :
    s.finalCommit order = s ∨
    ∃ key network, s.getConsensusLeaderPrivateKey = some key ∧
      network.message.type = .committed ∧ network.fbftMsg = s.ownMessage order .committed [] key ∧
      (s.fbftLog.getBlockByHash s.blockHash = none ∧
        s.finalCommit order = s.logOwnCommitted network.fbftMsg ∨
      ∃ block, s.fbftLog.getBlockByHash s.blockHash = some block ∧
        s.finalCommit order = (((s.logOwnCommitted network.fbftMsg).writeCommitSig block
          network.fbftMsg.payload).commitBlock block network.fbftMsg).1.afterFinalCommit block
            network) := by
  unfold finalCommit
  cases hkey : s.getConsensusLeaderPrivateKey with
  | none => exact Or.inl rfl
  | some key =>
    dsimp only
    rcases s.construct_single order .committed [] key with ⟨err, herr⟩ | ⟨network, hok, htype, hmsg⟩
    · rw [herr]
      exact Or.inl rfl
    · rw [hok]
      refine Or.inr ⟨key, network, rfl, htype, hmsg, ?_⟩
      dsimp only
      have hlookup : ((s.emit (.constructed network.fbftMsg)).addVerifiedMessage
          network.fbftMsg).fbftLog.getBlockByHash
          ((s.emit (.constructed network.fbftMsg)).addVerifiedMessage network.fbftMsg).blockHash =
          s.fbftLog.getBlockByHash s.blockHash := rfl
      rw [hlookup]
      cases hblock : s.fbftLog.getBlockByHash s.blockHash with
      | none => exact Or.inl ⟨rfl, rfl⟩
      | some block => exact Or.inr ⟨block, rfl, rfl⟩

theorem preCommitAndPropose_cases (order : MapOrder E) (block : Block) :
    s.preCommitAndPropose order block = s ∨
    ∃ key network, s.getConsensusLeaderPrivateKey = some key ∧
      network.message.type = .committed ∧ network.fbftMsg = s.ownMessage order .committed [] key ∧
      s.preCommitAndPropose order block =
        (s.emit (.constructed network.fbftMsg)).spawn (.preCommit network block) := by
  unfold preCommitAndPropose
  cases hkey : s.getConsensusLeaderPrivateKey with
  | none => exact Or.inl rfl
  | some key =>
    dsimp only
    rcases s.construct_single order .committed [] key with ⟨err, herr⟩ | ⟨network, hok, htype, hmsg⟩
    · rw [herr]
      exact Or.inl rfl
    · rw [hok]
      exact Or.inr ⟨key, network, rfl, htype, hmsg, rfl⟩

theorem runPreCommit_spec (network : NetworkMessage E) (block : Block) :
    s.runPreCommit network block = { s with
      fbftLog := s.fbftLog.addVerifiedMessage network.fbftMsg
      blockchain := (s.runPreCommit network block).blockchain
      trace := (s.runPreCommit network block).trace } ∧
    Emits (fun e => e.blockNum = s.blockNum ∧
      (e.action = .logged { network.fbftMsg with verified := true } ∨ e.action = .preCommit block ∨
        e.action = .sent network ∨ e.action = .readySignal .asyncProposal)) s
      (s.runPreCommit network block) := by
  unfold runPreCommit
  dsimp only
  split_ifs
  · exact ⟨rfl, ⟨[_, _], rfl, by simp [addVerifiedMessage, emit]⟩⟩
  · exact ⟨rfl, ⟨[_, _, _, _], rfl, by simp [addVerifiedMessage, emit]⟩⟩

variable {s}

/-! ## Commit votes -/

theorem commitChecks_eq_some {sign : E.Sign} {block : Block}
    (h : s.commitChecks m = some (sign, block)) :
    m.blockNum = s.blockNum ∧
      (∀ k ∈ m.senderPubkeys, s.decider.readBallot .commit k.bytes = none) ∧
      s.fbftLog.getBlockByHash m.blockHash = some block ∧
      sign = E.bls.sigOf (E.commitPayload block) (signerPubKey m) := by
  unfold commitChecks at h
  split_ifs at h with hnum hballot
  split at h
  · cases h
  · split at h
    · cases h
    · rename_i hblock
      split_ifs at h with hverify
      simp only [Option.some.injEq, Prod.mk.injEq] at h
      obtain ⟨rfl, rfl⟩ := h
      refine ⟨?_, ?_, hblock, ?_⟩
      · simp [isRightBlockNumAndViewID] at hnum
        exact hnum.2
      · simpa using hballot
      · rw [Bool.not_eq_true, Bool.not_eq_false', E.bls.verifyHash_iff] at hverify
        exact hverify

/-- A key without a ballot gives no record. -/
theorem slashLoop_of_no_ballot {order : MapOrder E} {keys : List SerializedPublicKey}
    (h : ∀ k ∈ keys, s.decider.readBallot .commit k = none) (addrSet : List Address)
    (records : List SlashRecord) : s.slashLoop order m keys addrSet records = records := by
  induction keys with
  | nil => rfl
  | cons key keys ih =>
    obtain ⟨hkey, hkeys⟩ := List.forall_mem_cons.1 h
    unfold slashLoop
    rw [hkey]
    exact ih hkeys

/-- When no sender has a ballot, `checkDoubleSign` only says whether the message is suspicious. -/
theorem checkDoubleSign_of_no_ballot (order : MapOrder E)
    (h : ∀ k ∈ m.senderPubkeys, s.decider.readBallot .commit k.bytes = none) :
    s.checkDoubleSign order m = (s, s.couldThisBeADoubleSigner m) := by
  have hkeys : ∀ k ∈ m.senderPubkeys.map (·.bytes), s.decider.readBallot .commit k = none :=
    List.forall_mem_map.2 h
  unfold checkDoubleSign
  split_ifs with hsuspect
  · rw [slashLoop_of_no_ballot hkeys, hsuspect]
    rfl
  · rw [Bool.not_eq_true] at hsuspect
    rw [hsuspect]

/-- `onCommit` rejects or suspects the vote, records a ballot without setting bits, or records
    both and goes on. A vote that is not suspicious matches a PREPARED message of the log. -/
theorem onCommit_cases (s : Consensus E) (order : MapOrder E) (m : FBFTMessage E) :
    s.onCommit order m = s ∨
    ∃ sign block decider ballot, s.commitChecks m = some (sign, block) ∧
      s.fbftLog.hasMatchingPrepared s.blockNum m.blockHash = true ∧
      s.decider.addNewVote .commit m.senderPubkeys sign m.blockHash m.blockNum 0 =
        .ok (decider, ballot) ∧
      (E.masks.setKeysAtomic s.commitBitmap m.senderPubkeys true = none ∧
        s.onCommit order m = { s with decider := decider } ∨
      ∃ mask, E.masks.setKeysAtomic s.commitBitmap m.senderPubkeys true = some mask ∧
        s.onCommit order m = ({ s with decider := decider, commitBitmap := mask } :
          Consensus E).afterCommitVote order (s.decider.isQuorumAchieved .commit) block) := by
  unfold onCommit
  cases hchecks : s.commitChecks m with
  | none => exact Or.inl rfl
  | some r =>
    obtain ⟨sign, block⟩ := r
    -- the checks leave no sender with a ballot
    rw [checkDoubleSign_of_no_ballot order (commitChecks_eq_some hchecks).2.1]
    dsimp only
    split_ifs with hsuspect
    · exact Or.inl rfl
    · simp only [couldThisBeADoubleSigner, Bool.or_eq_true, Bool.not_eq_true', not_or,
        Bool.not_eq_false] at hsuspect
      cases hvote : s.decider.addNewVote .commit m.senderPubkeys sign m.blockHash m.blockNum 0 with
      | error err => exact Or.inl rfl
      | ok r =>
        obtain ⟨decider, ballot⟩ := r
        refine Or.inr ⟨sign, block, decider, ballot, rfl, hsuspect.2, hvote, ?_⟩
        dsimp only
        cases hmask : E.masks.setKeysAtomic s.commitBitmap m.senderPubkeys true with
        | none => exact Or.inl ⟨rfl, rfl⟩
        | some mask => exact Or.inr ⟨mask, rfl, rfl⟩

/-- After a vote `onCommit` commits when all have voted; when the quorum is new it may start
    the early commit and starts the grace period. -/
theorem afterCommitVote_cases (s : Consensus E) (order : MapOrder E) (quorumWasMet : Bool)
    (block : Block) :
    s.afterCommitVote order quorumWasMet block = s ∨
    s.decider.isAllSigsCollected = true ∧
      s.afterCommitVote order quorumWasMet block = s.finalCommit order ∨
    (quorumWasMet = false ∧ s.decider.isQuorumAchieved .commit = true) ∧
      (s.afterCommitVote order quorumWasMet block = s.spawn (.gracePeriod s.blockViewID) ∨
      E.isLastBlockInEpoch block.header = false ∧ s.afterCommitVote order quorumWasMet block =
        (s.preCommitAndPropose order block).spawn (.gracePeriod s.blockViewID)) := by
  unfold afterCommitVote
  dsimp only
  split_ifs with hall hquorum hlast
  · exact Or.inr (Or.inl ⟨hall, rfl⟩)
  · rw [Bool.and_eq_true, Bool.not_eq_true'] at hquorum
    exact Or.inr (Or.inr ⟨hquorum, Or.inr ⟨by simpa using hlast, rfl⟩⟩)
  · rw [Bool.and_eq_true, Bool.not_eq_true'] at hquorum
    exact Or.inr (Or.inr ⟨hquorum, Or.inl rfl⟩)
  · exact Or.inl rfl

end Consensus

end Benzene
