import Benzene.Consensus.LogSpec

/-!
# What a step leaves alone and what it does

* `ActionKind`: an action without its data, enough to say which handler does what.
* `Acts a ks s s'`: the step does things of the kinds `ks` and adds what `a` allows.
* `Quiet a ks s s'`: besides, it does not move to another block.  Every handler but the two that
  commit is quiet (`onAnnounce_quiet`, …).
-/

namespace Benzene

variable {E : Env}

/-- What an action is about. -/
inductive ActionKind
  | logged
  | signed (p : Phase)
  | constructed
  | sent (t : MessageType)
  | queued
  | blockVerified
  | commitBlock
  | insertChain
  | preCommit
  | writeCommitSig
  | postConsensusJob
  | signal
  | slash
  | nextBlock
deriving DecidableEq

def Action.kind : Action E → ActionKind
  | .logged _ => .logged
  | .signed p _ _ => .signed p
  | .constructed _ => .constructed
  | .sent network => .sent network.message.type
  | .queued _ => .queued
  | .blockVerified _ => .blockVerified
  | .commitBlock _ => .commitBlock
  | .insertChain _ => .insertChain
  | .preCommit _ => .preCommit
  | .writeCommitSig _ _ => .writeCommitSig
  | .postConsensusJob _ => .postConsensusJob
  | .verifiedNewBlock _ => .signal
  | .readySignal _ => .signal
  | .commitSig _ => .signal
  | .slash _ => .slash
  | .nextBlock _ => .nextBlock

/-- The action changes the chain. -/
def ActionKind.writesChain : ActionKind → Bool
  | .insertChain => true
  | .preCommit => true
  | .writeCommitSig => true
  | _ => false

/-- The event is the run of a goroutine. -/
def NodeEvent.isTask : NodeEvent E → Bool
  | .task _ _ => true
  | _ => false

namespace Consensus

/-- The keys of the node stay; it does only things of the kinds `ks`, and adds only messages, blocks
    and goroutines that `a` allows. -/
structure Acts (a : Contents E) (ks : List ActionKind) (s s' : Consensus E) : Prop where
  priKey : s'.priKey = s.priKey
  emits : Emits (fun e => e.action.kind ∈ ks) s s'
  grows : Grows a s s'
  blockchain : (∀ k ∈ ks, k.writesChain = false) → s'.blockchain = s.blockchain

/-- Besides, the node stays at its block, with its leader and committee. -/
structure Quiet (a : Contents E) (ks : List ActionKind) (s s' : Consensus E) : Prop
    extends Acts a ks s s' where
  blockNum : s'.blockNum = s.blockNum
  leaderPubKey : s'.leaderPubKey = s.leaderPubKey
  publicKeys : s'.decider.publicKeys = s.decider.publicKeys

variable {a : Contents E} {ks ks' : List ActionKind} {s s' s'' : Consensus E}

theorem Acts.refl (s : Consensus E) : Acts a ks s s :=
  ⟨rfl, Emits.refl s, Grows.of_eq rfl rfl, fun _ => rfl⟩

theorem Acts.trans (h : Acts a ks s s') (h' : Acts a ks s' s'') : Acts a ks s s'' :=
  ⟨h'.priKey.trans h.priKey, h.emits.trans h'.emits, h.grows.trans h'.grows,
    fun hks => (h'.blockchain hks).trans (h.blockchain hks)⟩

theorem Acts.mono (hks : ks ⊆ ks') (h : Acts a ks s s') : Acts a ks' s s' :=
  ⟨h.priKey, h.emits.mono fun _ he => hks he, h.grows,
    fun hwrites => h.blockchain fun k hk => hwrites k (hks hk)⟩

theorem Quiet.trans (h : Quiet a ks s s') (h' : Quiet a ks s' s'') : Quiet a ks s s'' :=
  ⟨h.toActs.trans h'.toActs, h'.blockNum.trans h.blockNum, h'.leaderPubKey.trans h.leaderPubKey,
    h'.publicKeys.trans h.publicKeys⟩

theorem Quiet.mono (hks : ks ⊆ ks') (h : Quiet a ks s s') : Quiet a ks' s s' :=
  ⟨h.toActs.mono hks, h.blockNum, h.leaderPubKey, h.publicKeys⟩

/-- Only fields change that the block, the leader and the committee do not depend on. -/
theorem Quiet.of_eq (h : s' = { s with
      fbftLog := s'.fbftLog
      phase := s'.phase
      mode := s'.mode
      aggregatedPrepareSig := s'.aggregatedPrepareSig
      aggregatedCommitSig := s'.aggregatedCommitSig
      prepareBitmap := s'.prepareBitmap
      commitBitmap := s'.commitBitmap
      blockchain := s'.blockchain
      blockHash := s'.blockHash
      block := s'.block
      blockNumLow := s'.blockNumLow
      tasks := s'.tasks
      trace := s'.trace
      crashed := s'.crashed })
    (hchain : (∀ k ∈ ks, k.writesChain = false) → s'.blockchain = s.blockchain)
    (hemits : Emits (fun e => e.action.kind ∈ ks) s s') (hgrows : Grows a s s') :
    Quiet a ks s s' := by
  refine ⟨⟨?_, hemits, hgrows, hchain⟩, ?_, ?_, ?_⟩ <;> rw [h]

/-- Nothing is recorded, and nothing is added to the log. -/
theorem Quiet.silent (h : s' = { s with
      phase := s'.phase
      mode := s'.mode
      aggregatedPrepareSig := s'.aggregatedPrepareSig
      aggregatedCommitSig := s'.aggregatedCommitSig
      prepareBitmap := s'.prepareBitmap
      commitBitmap := s'.commitBitmap
      blockHash := s'.blockHash
      block := s'.block
      blockNumLow := s'.blockNumLow
      crashed := s'.crashed }) : Quiet a ks s s' := by
  rw [h]
  exact .of_eq rfl (fun _ => rfl) (Emits.of_trace_eq rfl) (Grows.of_eq rfl rfl)

theorem Quiet.refl (s : Consensus E) : Quiet a ks s s := .silent rfl

theorem Quiet.emit {action : Action E} (h : action.kind ∈ ks) : Quiet a ks s (s.emit action) :=
  .of_eq rfl (fun _ => rfl) (Emits.emit s h) (Grows.of_eq rfl rfl)

theorem dropTask_grows (s : Consensus E) (i : ℕ) : Grows a s (s.dropTask i) :=
  ⟨FBFTLog.Grows.refl _, fun _ ht => Or.inl (List.mem_of_mem_eraseIdx ht)⟩

theorem dropTask_quiet (s : Consensus E) (i : ℕ) : Quiet a ks s (s.dropTask i) :=
  .of_eq rfl (fun _ => rfl) (Emits.of_trace_eq rfl) (dropTask_grows s i)

theorem spawn_quiet {t : Task E} (h : a.task t) : Quiet a ks s (s.spawn t) :=
  .of_eq rfl (fun _ => rfl) (Emits.of_trace_eq rfl) (Grows.spawn h)

variable {m : FBFTMessage E}

/-- A message is logged. -/
theorem Quiet.logged (hks : .logged ∈ ks)
    (h : s' = { s with fbftLog := s'.fbftLog, trace := s'.trace })
    (hlog : FBFTLog.Grows a s.fbftLog s'.fbftLog)
    (htrace : s'.trace = ⟨.logged m, s.blockNum, s.decider⟩ :: s.trace) : Quiet a ks s s' := by
  refine .of_eq (by rw [h]) (fun _ => by rw [h]) ⟨[_], htrace, ?_⟩ (Grows.of_log hlog (by rw [h]))
  simpa [Action.kind] using hks

variable {Q : Entry E → Prop}

theorem VotedIn.quiet {p : Phase} (h : VotedIn p Q s s') (hQ : ∀ e, Q e → e.action.kind ∈ ks) :
    Quiet a ks s s' := by
  have hkeys : s'.decider.publicKeys = s.decider.publicKeys := by
    rw [h.decider]
    cases p <;> rfl
  refine ⟨⟨?_, h.emits.mono hQ, Grows.of_eq ?_ ?_, fun _ => ?_⟩, ?_, ?_, hkeys⟩
  all_goals
    rw [h.eq]
    cases p <;> rfl

/-! ## The validator -/

theorem prepare_quiet (s : Consensus E) (order : MapOrder E) :
    Quiet a [.signed .prepare, .sent .prepare] s (s.prepare order) := by
  obtain ⟨hframe, hemits⟩ := s.prepare_spec order
  refine .of_eq (by rw [hframe]) (fun _ => by rw [hframe]) (hemits.mono ?_)
    (Grows.of_eq (by rw [hframe]) (by rw [hframe]))
  rintro e ⟨-, ⟨key, -, he⟩ | ⟨network, he, htype⟩⟩
  all_goals rw [he]
  · exact List.mem_cons_self
  · simp only [Action.kind, htype]
    decide

theorem onAnnounce_quiet {order : MapOrder E} {msg : Message}
    (hparse : s.parseFBFTMessage msg = .ok m) (hm : a.msg { m with verified := true }) :
    Quiet a [.logged, .signed .prepare, .sent .prepare] s (s.onAnnounce order msg) := by
  unfold onAnnounce
  rw [hparse]
  dsimp only
  split_ifs
  · exact .refl s
  · have hlog : Quiet a [.logged, .signed .prepare, .sent .prepare] s (s.addVerifiedMessage m) :=
      .logged (by decide) rfl (.addVerifiedMessage hm) rfl
    exact (hlog.trans (.silent rfl)).trans ((prepare_quiet _ order).mono (by decide))

theorem spinUpIfLow_quiet (s : Consensus E) (bn : UInt64) : Quiet a ks s (s.spinUpIfLow bn) :=
  .silent (by rw [s.spinUpIfLow_eq bn])

theorem markBlockVerified_quiet (s : Consensus E) (blk : Block) :
    Quiet a [.blockVerified] s (s.markBlockVerified blk) :=
  .of_eq rfl (fun _ => rfl) ⟨[_], rfl, by simp [Action.kind]⟩
    (Grows.of_log ⟨fun _ => Or.inl, fun _ _ => Or.inl⟩ rfl)

theorem onPrepared_quiet (m : FBFTMessage E) (hm : a.msg { m with block := [], verified := true })
    (hb : ∀ b, IsPreparedBlock m b → a.blk b ∧ a.task (.followUpStart b)) :
    Quiet a [.logged, .blockVerified] s (s.onPrepared m) := by
  rcases s.onPrepared_cases m with ⟨h | h, -⟩ | ⟨aggSig, mask, b, -, hchecks, h⟩
  · rw [h]
    exact .refl s
  · rw [h]
    exact s.spinUpIfLow_quiet _
  · obtain ⟨hdecode, hnum, hhash, -⟩ := preparedChecks_eq_some hchecks
    obtain ⟨hblk, htask⟩ := hb b ⟨hdecode, hnum, hhash⟩
    have hlog : ∀ t : Consensus E, Quiet a [.logged, .blockVerified] t (t.logPrepared m b) :=
      fun _ => .of_eq rfl (fun _ => rfl) ⟨[_], rfl, by simp [Action.kind]⟩
        (Grows.of_log ((FBFTLog.Grows.addBlock hblk).trans (.addVerifiedMessage hm)) rfl)
    rw [h]
    refine ((s.spinUpIfLow_quiet m.blockNum).trans (hlog _)).trans ?_
    generalize (s.spinUpIfLow m.blockNum).logPrepared m b = t
    have hmark : Quiet a [.logged, .blockVerified] t (t.markBlockVerified b) :=
      (t.markBlockVerified_quiet b).mono (by decide)
    rcases t.afterLogPrepared_cases m aggSig mask b with h | ⟨-, h | ⟨-, h⟩⟩
    all_goals rw [h]
    · exact .refl t
    · exact hmark
    · exact (hmark.trans (.silent rfl)).trans (spawn_quiet htask)

theorem writesChain_mem {k : ActionKind} {P : Prop} (hk : k ∈ ks) (hwrites : k.writesChain = true)
    (hks : ∀ k ∈ ks, k.writesChain = false) : P :=
  absurd ((hks k hk).symm.trans hwrites) Bool.false_ne_true

theorem acceptCommitted_quiet (aggSig : E.Sign) (mask : E.Mask) (blk : Block)
    (hfalse : a.msg { m with verified := false }) (htrue : a.msg { m with verified := true }) :
    Quiet a [.logged, .writeCommitSig] s (s.acceptCommitted m aggSig mask blk) := by
  obtain ⟨hframe, hemits⟩ := s.acceptCommitted_spec m aggSig mask blk
  refine .of_eq (by rw [hframe]) (writesChain_mem (k := .writeCommitSig) (by simp) rfl)
    (hemits.mono ?_) ?_
  · rintro e (he | ⟨verified, he⟩) <;> rw [he] <;> simp only [Action.kind] <;> decide
  · rw [hframe]
    exact Grows.of_log ((FBFTLog.Grows.addNotVerifiedMessage hfalse).trans
      (.addVerifiedMessage htrue)) rfl

theorem addNotVerifiedMessage_quiet (hm : a.msg { m with verified := false }) :
    Quiet a [.logged] s (s.addNotVerifiedMessage m) :=
  .logged (by decide) rfl (.addNotVerifiedMessage hm) rfl

theorem verifyUnlessMarked_quiet (s : Consensus E) (blk : Block) :
    Quiet a [.blockVerified] s (s.verifyUnlessMarked blk).1 := by
  rcases s.verifyUnlessMarked_cases blk with ⟨h, -⟩ | h | ⟨h, -⟩
  all_goals rw [h]
  · exact .refl s
  · exact .refl s
  · exact s.markBlockVerified_quiet blk

theorem postCatchup_quiet (s : Consensus E) (initBN : UInt64) :
    Quiet a [] s (s.postCatchup initBN) :=
  .silent (by rw [postCatchup_eq])

variable (order : MapOrder E)

theorem runFollowUpStart_quiet {b : Block}
    (h : ∀ msgs, (∀ m ∈ msgs, m ∈ GoMap.values s.fbftLog.messages ∧ m.messageType = .committed ∧
      m.blockNum = b.numberU64 ∧ m.blockHash = E.blockHash b) →
      a.task (.followUp s.blockNum msgs)) :
    Quiet a [] s (s.runFollowUpStart order b) := by
  refine spawn_quiet (h _ fun m hm => ?_)
  rw [(order.messages_perm _ _).mem_iff] at hm
  simp only [FBFTLog.getNotVerifiedCommittedMessages, FBFTLog.findMessages, List.mem_filter,
    Bool.and_eq_true, beq_iff_eq] at hm
  exact ⟨hm.1, hm.2.1.1.1.1, hm.2.1.1.1.2, hm.2.1.2⟩

/-! ## The leader -/

theorem announce_quiet {block : Block}
    (hm : ∀ m : FBFTMessage E, m.messageType = .announce → m.verified = true → a.msg m)
    (hb : a.blk block) :
    Quiet a [.logged, .signed .prepare, .sent .announce] s (s.announce order block) := by
  rcases s.announce_cases order block with
    h | ⟨enc, t, -, rfl, h | ⟨key, network, -, htype, hmsg, h⟩⟩
  · rw [h]
    exact .refl s
  · rw [h]
    exact .silent rfl
  · have hmtype : network.fbftMsg.messageType = .announce := by rw [hmsg]; rfl
    set t : Consensus E := { s with blockHash := E.blockHash block, block := enc } with ht
    have hset : Quiet a [.logged, .signed .prepare, .sent .announce] s t := .silent rfl
    have hlog : Quiet a [.logged, .signed .prepare, .sent .announce] t
        (t.logAnnounce network.fbftMsg block) :=
      .logged (by decide) rfl ((FBFTLog.Grows.addVerifiedMessage (hm _ hmtype rfl)).trans
        (.addBlock hb)) rfl
    have hvote := (hset.trans hlog).trans ((voteAnnounce_spec _ block).quiet ?_)
    · rcases h with h | h
      all_goals rw [h]
      · exact hvote
      · have hsent : Action.kind (.sent network) ∈
            [ActionKind.logged, .signed .prepare, .sent .announce] := by
          simp only [Action.kind, htype]
          decide
        exact (hvote.trans (.emit hsent)).trans (.silent rfl)
    · rintro e ⟨-, key', -, he⟩
      rw [he]
      simp only [Action.kind]
      decide

theorem didReachPrepareQuorum_quiet
    (hm : ∀ m : FBFTMessage E, m.messageType = .prepared → m.verified = true → a.msg m) :
    Quiet a [.constructed, .logged, .signed .commit, .sent .prepared] s
      (s.didReachPrepareQuorum order).1 := by
  rcases s.didReachPrepareQuorum_cases order with h | ⟨key, network, -, htype, hmsg, h⟩
  · rw [h]
    exact .refl s
  · have hmtype : network.fbftMsg.messageType = .prepared := by rw [hmsg]; rfl
    have hlog : Quiet a [.constructed, .logged, .signed .commit, .sent .prepared] s
        (s.logOwnPrepared network.fbftMsg) :=
      .of_eq rfl (fun _ => rfl) ⟨[_, _], rfl, by simp [Action.kind]⟩
        (Grows.of_log (.addVerifiedMessage (hm _ hmtype rfl)) rfl)
    have hvote : ∀ block, Quiet a [.constructed, .logged, .signed .commit, .sent .prepared] s
        ((s.logOwnPrepared network.fbftMsg).voteCommit block).1 := by
      intro block
      refine hlog.trans ((voteCommit_spec _ block).quiet ?_)
      rintro e ⟨-, key', -, he⟩
      rw [he]
      simp only [Action.kind]
      decide
    rcases h with ⟨-, h⟩ | ⟨block, -, h | h⟩
    all_goals rw [h]
    · exact hlog
    · exact hvote block
    · refine (hvote block).trans (.emit ?_)
      simp only [Action.kind, htype]
      decide

theorem addNewVote_publicKeys {d d' : Decider E.bls} {p : Phase} {keys : List E.PubKey}
    {sig : E.Sign} {headerHash : Hash} {height viewID : UInt64} {ballot : Ballot}
    (h : d.addNewVote p keys sig headerHash height viewID = .ok (d', ballot)) :
    d'.publicKeys = d.publicKeys := by
  rw [(addNewVote_eq_ok h).2.2]
  cases p <;> rfl

theorem onPrepare_quiet (m : FBFTMessage E)
    (hm : ∀ m : FBFTMessage E, m.messageType = .prepared → m.verified = true → a.msg m) :
    Quiet a [.constructed, .logged, .signed .commit, .sent .prepared] s (s.onPrepare order m) := by
  rcases s.onPrepare_cases order m with h | ⟨sign, decider, ballot, -, hvote, h⟩
  · rw [h]
    exact .refl s
  · have hrecord : ∀ mask, Quiet a [.constructed, .logged, .signed .commit, .sent .prepared] s
        { s with decider := decider, prepareBitmap := mask } := fun _ =>
      ⟨⟨rfl, Emits.of_trace_eq rfl, Grows.of_eq rfl rfl, fun _ => rfl⟩, rfl, rfl,
        addNewVote_publicKeys hvote⟩
    rcases h with ⟨-, h⟩ | ⟨mask, t, -, rfl, h | ⟨-, phase, h⟩⟩
    all_goals rw [h]
    · exact hrecord _
    · exact hrecord mask
    · exact ((hrecord mask).trans (didReachPrepareQuorum_quiet order hm)).trans (.silent rfl)

theorem logOwnCommitted_quiet (hm : a.msg { m with verified := true }) :
    Quiet a [.constructed, .logged] s (s.logOwnCommitted m) :=
  .of_eq rfl (fun _ => rfl) ⟨[_, _], rfl, by simp [Action.kind]⟩
    (Grows.of_log (.addVerifiedMessage hm) rfl)

theorem writeCommitSig_quiet (s : Consensus E) (blk : Block) (payload : Bytes) :
    Quiet a [.writeCommitSig] s (s.writeCommitSig blk payload) :=
  .of_eq rfl (writesChain_mem List.mem_cons_self rfl) ⟨[_], rfl, by simp [Action.kind]⟩
    (Grows.of_eq rfl rfl)

theorem afterFinalCommit_quiet (s : Consensus E) (block : Block) (network : NetworkMessage E) :
    Quiet a [.sent network.message.type, .queued, .signal] s
      (s.afterFinalCommit block network) := by
  obtain ⟨hframe, hemits⟩ := s.afterFinalCommit_spec block network
  refine .of_eq (by rw [hframe]) (fun _ => by rw [hframe]) (hemits.mono ?_)
    (Grows.of_eq (by rw [hframe]) (by rw [hframe]))
  rintro e (he | he | he | he) <;> rw [he] <;> simp [Action.kind]

theorem preCommitAndPropose_quiet (block : Block)
    (htask : ∀ network : NetworkMessage E, OwnCommitted s network.fbftMsg →
      a.task (.preCommit network block)) :
    Quiet a [.constructed] s (s.preCommitAndPropose order block) := by
  rcases s.preCommitAndPropose_cases order block with h | ⟨key, network, hkey, -, hmsg, h⟩
  · rw [h]
    exact .refl s
  · have hown : OwnCommitted s network.fbftMsg := by
      rw [hmsg]
      exact ownCommitted_ownMessage false hkey
    have hemit : Quiet a [.constructed] s (s.emit (.constructed network.fbftMsg)) :=
      .emit List.mem_cons_self
    rw [h]
    exact hemit.trans (spawn_quiet (htask network hown))

theorem runPreCommit_quiet {network : NetworkMessage E} (block : Block)
    (hm : a.msg { network.fbftMsg with verified := true }) :
    Quiet a [.logged, .preCommit, .sent network.message.type, .signal] s
      (s.runPreCommit network block) := by
  obtain ⟨hframe, hemits⟩ := s.runPreCommit_spec network block
  refine .of_eq (by rw [hframe]) (writesChain_mem (k := .preCommit) (by simp) rfl)
    (hemits.mono ?_) ?_
  · rintro e ⟨-, he | he | he | he⟩ <;> rw [he] <;> simp [Action.kind]
  · rw [hframe]
    exact Grows.of_log (.addVerifiedMessage hm) rfl

/-! ## Committing -/

theorem updateConsensusInformation_acts (s : Consensus E) :
    Acts a [.signal] s s.updateConsensusInformation.1 := by
  have hkept := s.updateConsensusInformation_kept
  refine ⟨hkept.priKey, ?_, Grows.of_eq hkept.fbftLog hkept.tasks, fun _ => hkept.blockchain⟩
  rcases s.updateConsensusInformation_cases with ⟨-, h⟩ | ⟨c, trace, -, htrace, h⟩
  · rw [h]
    exact Emits.refl s
  · refine ⟨trace, by rw [h], fun e he => ?_⟩
    show e.action.kind ∈ [ActionKind.signal]
    rw [htrace e he]
    exact List.mem_singleton_self _

theorem syncReady_acts (s : Consensus E) : Acts a [.signal] s s.syncReady := by
  unfold syncReady
  dsimp only
  split_ifs
  · have hacts := updateConsensusInformation_acts (a := a)
      { s with blockNum := (E.currentHeader s.blockchain).numberU64 + 1 }
    exact ⟨hacts.priKey, hacts.emits, ⟨hacts.grows.log, hacts.grows.tasks⟩, hacts.blockchain⟩
  · exact .refl s

theorem ChainOnly.grows (h : ChainOnly Q s s') : Grows a s s' :=
  Grows.of_eq (by rw [h.eq]) (by rw [h.eq])

theorem SetUp.grows {blk : Block} {sender : E.PubKey} (h : SetUp blk sender s s') :
    Grows a s s' := by
  refine Grows.of_log ?_ h.tasks
  rw [h.fbftLog]
  exact FBFTLog.Grows.pruneCacheBeforeBlock _

/-- The kinds of `tryCatchup`. -/
def catchupKinds : List ActionKind :=
  [.commitBlock, .insertChain, .postConsensusJob, .signal, .blockVerified]

theorem commitBlock_acts (s : Consensus E) (blk : Block) (m : FBFTMessage E) :
    Acts a catchupKinds s (s.commitBlock blk m).1 := by
  obtain ⟨t, ht, h⟩ := s.commitBlock_cases blk m
  have hchain : Acts a catchupKinds s t := by
    refine ⟨by rw [ht.eq], ht.emits.mono ?_, ht.grows,
      writesChain_mem (k := .insertChain) (by decide) rfl⟩
    rintro e ⟨he | he | he, -, -⟩ <;> rw [he] <;> simp only [Action.kind] <;> decide
  rcases h with h | ⟨sender, -, h⟩
  · rw [h]
    exact hchain
  · have hsetup := setupForNewConsensus_spec t blk sender
    rw [h]
    refine hchain.trans ⟨hsetup.priKey, hsetup.emits.mono ?_, hsetup.grows,
      fun _ => hsetup.blockchain⟩
    rintro e he
    rw [he]
    simp only [Action.kind]
    decide

theorem catchupLoop_acts (s : Consensus E) (l : List (Block × FBFTMessage E)) :
    Acts a catchupKinds s (catchupLoop s l) := by
  refine catchupLoop_rule (P := fun t _ => Acts a _ s t) (Q := Acts a _ s) (fun t h => h) ?_
    (.refl s)
  intro t blk m rest h
  have hverify := h.trans ((t.verifyUnlessMarked_quiet blk).toActs.mono (by decide))
  have hcommit := hverify.trans ((t.verifyUnlessMarked blk).1.commitBlock_acts blk m)
  refine ⟨hverify, fun _ => ⟨hcommit, fun _ => hcommit.trans (Quiet.emit ?_).toActs⟩⟩
  simp only [Action.kind]
  decide

theorem tryCatchup_acts (s : Consensus E) (order : MapOrder E) :
    Acts a catchupKinds s (s.tryCatchup order) := by
  unfold tryCatchup
  split_ifs
  · exact .refl s
  · exact (s.catchupLoop_acts _).trans ((postCatchup_quiet _ _).toActs.mono (by decide))

theorem onCommitted_acts
    (hfalse : a.msg { m with verified := false })
    (htrue : ∀ blk, s.fbftLog.getBlockByHash m.blockHash = some blk →
      a.msg { m with verified := true }) :
    Acts a (.logged :: .writeCommitSig :: catchupKinds) s (s.onCommitted order m) := by
  rcases s.onCommitted_cases order m with ⟨-, h⟩ | ⟨-, h | ⟨aggSig, mask, blk, hchecks, h⟩⟩
  all_goals rw [h]
  · exact .refl s
  · exact ((s.spinUpIfLow_quiet m.blockNum).trans
      ((addNotVerifiedMessage_quiet hfalse).mono (by decide))).toActs
  · exact ((acceptCommitted_quiet aggSig mask blk hfalse
      (htrue blk (committedChecks_eq_some hchecks).1)).toActs.mono (by decide)).trans
      ((tryCatchup_acts _ order).mono (by decide))

/-- The kinds of `finalCommit`. -/
def finalCommitKinds : List ActionKind :=
  [.constructed, .logged, .writeCommitSig, .sent .committed, .queued] ++ catchupKinds

theorem finalCommit_acts (hm : ∀ m, OwnCommitted s m → a.msg m) :
    Acts a finalCommitKinds s (s.finalCommit order) := by
  rcases s.finalCommit_cases order with h | ⟨key, network, hkey, htype, hmsg, h⟩
  · rw [h]
    exact .refl s
  · have hlog : Acts a finalCommitKinds s (s.logOwnCommitted network.fbftMsg) := by
      rw [hmsg]
      exact (logOwnCommitted_quiet (hm _ (ownCommitted_ownMessage true hkey))).toActs.mono
        (by decide)
    rcases h with ⟨-, h⟩ | ⟨block, -, h⟩
    · rw [h]
      exact hlog
    · have hafter := afterFinalCommit_quiet (a := a) (((s.logOwnCommitted
        network.fbftMsg).writeCommitSig block network.fbftMsg.payload).commitBlock block
          network.fbftMsg).1 block network
      rw [htype] at hafter
      rw [h]
      exact ((hlog.trans ((writeCommitSig_quiet _ block _).toActs.mono (by decide))).trans
        ((commitBlock_acts _ block _).mono (by decide))).trans (hafter.toActs.mono (by decide))

theorem onCommit_acts (m : FBFTMessage E)
    (hm : ∀ m, OwnCommitted s m → a.msg m)
    (htask : ∀ (network : NetworkMessage E) (block : Block), OwnCommitted s network.fbftMsg →
      a.task (.preCommit network block))
    (hgrace : ∀ viewID, a.task (.gracePeriod viewID)) :
    Acts a finalCommitKinds s (s.onCommit order m) := by
  have hvote : ∀ decider mask, Acts a finalCommitKinds s
      { s with decider := decider, commitBitmap := mask } := fun _ _ =>
    ⟨rfl, Emits.of_trace_eq rfl, Grows.of_eq rfl rfl, fun _ => rfl⟩
  rcases s.onCommit_cases order m with h | ⟨sign, block, decider, ballot, -, -, -, ⟨-, h⟩ |
    ⟨mask, -, h⟩⟩
  · rw [h]
    exact .refl s
  · rw [h]
    exact hvote decider _
  · have hst := hvote decider mask
    set t : Consensus E := { s with decider := decider, commitBitmap := mask } with ht
    have hown : ∀ m, OwnCommitted t m → OwnCommitted s m := fun m h => ⟨h.1, h.2, h.3, h.4⟩
    have hspawn : ∀ (u : Consensus E) v, Acts a finalCommitKinds u (u.spawn (.gracePeriod v)) :=
      fun _ v => (spawn_quiet (hgrace v)).toActs
    rw [h]
    rcases t.afterCommitVote_cases order (s.decider.isQuorumAchieved .commit) block with
      h | ⟨-, h⟩ | ⟨-, h | ⟨-, h⟩⟩
    all_goals rw [h]
    · exact hst
    · exact hst.trans (finalCommit_acts order fun m h => hm m (hown m h))
    · exact hst.trans (hspawn t _)
    · exact (hst.trans ((preCommitAndPropose_quiet order block fun network h =>
        htask network block (hown _ h)).toActs.mono (by decide))).trans (hspawn _ _)

theorem runFollowUp_acts {curBlockNum : UInt64} {msgs : List (FBFTMessage E)}
    (hmsgs : ∀ m ∈ msgs, ∀ verified, a.msg { m with verified := verified })
    (htask : ∀ m rest, msgs = m :: rest → a.task (.followUp curBlockNum rest)) :
    Acts a (.logged :: .writeCommitSig :: catchupKinds) s
      (s.runFollowUp order curBlockNum msgs) := by
  cases msgs with
  | nil => exact .refl s
  | cons m rest =>
    have hm := hmsgs m List.mem_cons_self
    have hcommitted := onCommitted_acts (s := s) order (hm false) fun _ _ => hm true
    unfold runFollowUp
    dsimp only
    split_ifs
    · exact hcommitted
    · exact hcommitted.trans (spawn_quiet (htask m rest rfl)).toActs

variable {order}

/-- Only the two announcements make a node sign a PREPARE, and no event makes it send a slash
    record. -/
theorem Dispatch.acts {e : NodeEvent E} (hd : Dispatch s e s') :
    (∃ ks : List ActionKind, .slash ∉ ks ∧ .signed .prepare ∉ ks ∧ Acts .any ks s s') ∨
    (∃ order msg senderKey m, e = .message order msg senderKey ∧ msg.type = .announce ∧
      s.parseFBFTMessage msg = .ok m ∧ s' = s.onAnnounce order msg) ∨
    ∃ order newBlock, e = .propose order newBlock ∧ s' = s.announce order newBlock := by
  have hdrop : ∀ i ks, Acts .any ks s (s.dropTask i) := fun i _ => (s.dropTask_quiet i).toActs
  cases hd with
  | announce hparse _ htype _ => exact Or.inr (Or.inl ⟨_, _, _, _, rfl, htype, hparse, rfl⟩)
  | propose _ => exact Or.inr (Or.inr ⟨_, _, rfl, rfl⟩)
  | idle h => exact Or.inl ⟨[], by decide, by decide, (Quiet.silent (by rw [h])).toActs⟩
  | dropTask => exact Or.inl ⟨[], by decide, by decide, hdrop _ _⟩
  | prepared =>
    exact Or.inl ⟨_, by decide, by decide,
      (onPrepared_quiet _ trivial fun _ _ => ⟨trivial, trivial⟩).toActs⟩
  | committed =>
    exact Or.inl ⟨_, by decide, by decide, onCommitted_acts _ trivial fun _ _ => trivial⟩
  | prepare =>
    exact Or.inl ⟨_, by decide, by decide, (onPrepare_quiet _ _ fun _ _ _ => trivial).toActs⟩
  | commit =>
    exact Or.inl ⟨_, by decide, by decide, onCommit_acts _ _ (fun _ _ => trivial)
      (fun _ _ _ => trivial) fun _ => trivial⟩
  | preCommit =>
    exact Or.inl ⟨_, by simp, by simp, (hdrop _ _).trans (runPreCommit_quiet _ trivial).toActs⟩
  | gracePeriod =>
    exact Or.inl ⟨_, by decide, by decide,
      (hdrop _ _).trans (finalCommit_acts _ fun _ _ => trivial)⟩
  | followUpStart =>
    exact Or.inl ⟨_, by decide, by decide,
      (hdrop _ _).trans (runFollowUpStart_quiet _ fun _ _ => trivial).toActs⟩
  | followUp =>
    exact Or.inl ⟨_, by decide, by decide, (hdrop _ _).trans
      (runFollowUp_acts _ (fun _ _ _ => trivial) fun _ _ _ => trivial)⟩
  | syncReady => exact Or.inl ⟨_, by decide, by decide, s.syncReady_acts⟩
  | syncNotReady | takeBlockNumLow | chainChanged =>
    exact Or.inl ⟨[.insertChain], by decide, by decide, rfl, Emits.of_trace_eq rfl,
      Grows.of_eq rfl rfl, writesChain_mem List.mem_cons_self rfl⟩

end Consensus

end Benzene
