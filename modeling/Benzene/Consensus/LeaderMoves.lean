import Benzene.Consensus.StepSpec

/-!
# The moves of a leader

Once a vote is recorded or a block is set, all that the handlers of a leader do is a sequence of a
few moves.  An invariant of a leader follows from what one move does to it.

* `Move`: a move that leaves votes and block alone, the PREPARED message, an own vote, and the
  set-up of the next round.
* `Path.keeps`: what every move keeps, a path keeps.
* `announce_path`, `onPrepare_path`, `afterCommitVote_path`, `finalCommit_path`: the handlers.
-/

namespace Benzene

variable {E : Env}

/-- The block that an action of `finalCommit` inserts or stores a certificate for. -/
def Action.commits : Action E → Option Block
  | .insertChain blk => some blk
  | .writeCommitSig blk _ => some blk
  | _ => none

namespace Consensus

/-- Messages other than PREPARED, and the goroutines of a leader. -/
def noPrepared : Contents E where
  msg m := m.messageType ≠ .prepared
  blk _ := True
  task
    | .preCommit network _ => network.fbftMsg.messageType ≠ .prepared
    | .gracePeriod _ => True
    | _ => False

/-- The votes and the block stay; no PREPARED message is logged, and only goroutines of a leader are
    started. -/
structure Frame (s s' : Consensus E) : Prop where
  eq : s' = { s with
    fbftLog := s'.fbftLog
    phase := s'.phase
    blockchain := s'.blockchain
    tasks := s'.tasks
    trace := s'.trace
    crashed := s'.crashed }
  grows : Grows noPrepared s s'

/-- What an own vote for the block signs. -/
def votePayload (s : Consensus E) (block : Block) : Phase → Bytes
  | .prepare => s.blockHash.toList
  | _ => E.commitPayload block

/-- A move of a leader; `G` holds where a PREPARED message is logged. -/
inductive Move (G : Consensus E → Prop) (s : Consensus E) : Consensus E → Prop
  | frame {s' : Consensus E} (h : Frame s s') : Move G s s'
  | logPrepared (order : MapOrder E) (key : E.PriKey) (hG : G s) :
      Move G s (s.logOwnPrepared (s.ownMessage order .prepared [] key))
  /-- The bit of a key is set again, and its vote is refused. -/
  | refused {p : Phase} {key : E.PriKey} {mask : E.Mask} (hp : p ≠ .viewChange)
      (hset : E.masks.setKey (s.bitmap p) key.pub.bytes true = some mask)
      (hvoted : key.pub.bytes ∈ s.decider.signers p) : Move G s (s.setBitmap mask p)
  | voted {p : Phase} {keys : List E.PubKey} {sig : E.Sign} {mask : E.Mask} {block : Block}
      {decider : Decider E.bls} {ballot : Ballot} (hp : p ≠ .viewChange)
      (hdecode : E.decodeBlock s.block = some block)
      (hmask : E.masks.setKeysAtomic (s.bitmap p) keys true = some mask)
      (hsig : sig = E.bls.sigOf (s.votePayload block p) (keys.map (·.object)).sum)
      (hvote : s.decider.addNewVote p keys sig (E.blockHash block) block.numberU64 0 =
        .ok (decider, ballot)) :
      Move G s (({ s with decider := decider } : Consensus E).setBitmap mask p)
  | setUp {s' : Consensus E} {block : Block} {sender : E.PubKey}
      (hblock : s.fbftLog.getBlockByHash s.blockHash = some block)
      (h : SetUp block sender s s') : Move G s s'

/-- A sequence of moves. -/
abbrev Path (G : Consensus E → Prop) : Consensus E → Consensus E → Prop :=
  Relation.ReflTransGen (Move G)

variable {G : Consensus E → Prop} {s s' s'' : Consensus E}

theorem Path.keeps {P : Consensus E → Prop} (h : Path G s s')
    (hmove : ∀ {t t'}, P t → Move G t t' → P t') (hs : P s) : P s' := by
  induction h with
  | refl => exact hs
  | tail _ hm ih => exact hmove ih hm

theorem Path.frame (h : Path G s s') (hf : Frame s' s'') : Path G s s'' := h.tail (.frame hf)

theorem Frame.of_eq (h : s' = { s with phase := s'.phase, trace := s'.trace }) : Frame s s' := by
  rw [h]
  exact ⟨rfl, Grows.of_eq rfl rfl⟩

/-! ## The handlers -/

theorem voteWithOwnKeys_path {p : Phase} (hp : p ≠ .viewChange) {block : Block}
    (hdecode : E.decodeBlock s.block = some block) (keys : List E.PriKey) :
    Path G s (voteWithOwnKeys p (s.votePayload block p) (E.blockHash block) block.numberU64 s
      keys).1 := by
  refine (voteWithOwnKeys_rule (P := fun t => Path G s t ∧ t.block = s.block ∧
    t.blockHash = s.blockHash) ?_ ⟨.refl, rfl, rfl⟩).1
  rintro t key mask - ⟨ht, hblock, hhash⟩ hset t' rfl
  have hpayload : t.votePayload block p = s.votePayload block p := by
    unfold votePayload
    rw [hhash]
  have hdecider : ((t.setBitmap mask p).emit
      (.signed p key.pub.bytes (E.blockHash block))).decider = t.decider := by
    cases p <;> rfl
  rw [hdecider]
  split
  · rename_i err herr
    refine ⟨Path.frame (ht.tail (.refused hp hset (addNewVote_single_error herr)))
      (.of_eq rfl), ?_⟩
    cases p <;> exact ⟨hblock, hhash⟩
  · rename_i decider ballot hok
    rw [← hblock] at hdecode
    have hatomic : E.masks.setKeysAtomic (t.bitmap p) [key.pub] true = some mask := by
      rw [E.masks.setKeysAtomic_eq]
      simpa using hset
    have hsig : E.bls.signHash key.pri (s.votePayload block p) =
        E.bls.sigOf (t.votePayload block p) ([key.pub].map (·.object)).sum := by
      rw [E.bls.signHash_eq, ← key.wf, hpayload]
      simp
    refine ⟨Path.frame (ht.tail (.voted hp hdecode hatomic hsig hok)) (.of_eq ?_), ?_⟩
    · cases p <;> rfl
    · cases p <;> exact ⟨hblock, hhash⟩

/-- `announce` does nothing, or sets the block and moves on from there. -/
theorem announce_path (s : Consensus E) (order : MapOrder E) (block : Block) :
    s.announce order block = s ∨ ∃ enc, E.encodeBlock block = some enc ∧
      Path G { s with blockHash := E.blockHash block, block := enc } (s.announce order block) := by
  rcases s.announce_cases order block with
    heq | ⟨enc, t, hencode, rfl, heq | ⟨key, network, -, -, hmsg, heq⟩⟩
  · exact Or.inl heq
  · exact Or.inr ⟨enc, hencode, heq ▸ .refl⟩
  · refine Or.inr ⟨enc, hencode, ?_⟩
    set t : Consensus E := { s with blockHash := E.blockHash block, block := enc }
    have hlog : Frame t (t.logAnnounce network.fbftMsg block) := by
      refine ⟨rfl, Grows.of_log ((FBFTLog.Grows.addVerifiedMessage ?_).trans
        (FBFTLog.Grows.addBlock trivial)) rfl⟩
      rw [hmsg]
      exact MessageType.noConfusion
    have hdecode : E.decodeBlock (t.logAnnounce network.fbftMsg block).block = some block :=
      E.decodeBlock_encodeBlock _ _ hencode
    have hvote : Path G t ((t.logAnnounce network.fbftMsg block).voteAnnounce block).1 :=
      .head (.frame hlog) (voteWithOwnKeys_path (by simp) hdecode _)
    rcases heq with heq | heq
    all_goals rw [heq]
    · exact hvote
    · exact Path.frame hvote (.of_eq rfl)

theorem didReachPrepareQuorum_path (order : MapOrder E) (hG : G s) :
    Path G s (s.didReachPrepareQuorum order).1 := by
  rcases s.didReachPrepareQuorum_cases order with heq | ⟨key, network, -, -, hmsg, heq⟩
  · rw [heq]
  · have hlog : Path G s (s.logOwnPrepared network.fbftMsg) := by
      rw [hmsg]
      exact .single (.logPrepared order key hG)
    rcases heq with ⟨-, heq⟩ | ⟨block, hdecode, heq⟩
    · rw [heq]
      exact hlog
    · have hdecode' : E.decodeBlock (s.logOwnPrepared network.fbftMsg).block = some block := hdecode
      have hvote : Path G s ((s.logOwnPrepared network.fbftMsg).voteCommit block).1 :=
        hlog.trans (voteWithOwnKeys_path (p := .commit) (by simp) hdecode' _)
      rcases heq with heq | heq
      all_goals rw [heq]
      · exact hvote
      · exact Path.frame hvote (.of_eq rfl)

/-- `onPrepare` after the vote is recorded in the state `s`. -/
theorem onPrepare_path {order : MapOrder E}
    (hG : s.decider.isQuorumAchieved .prepare = true → G s)
    (h : s' = s ∨ s.decider.isQuorumAchieved .prepare = true ∧ ∃ phase,
      s' = { (s.didReachPrepareQuorum order).1 with phase := phase }) : Path G s s' := by
  rcases h with heq | ⟨hquorum, phase, heq⟩
  · rw [heq]
  · rw [heq]
    exact Path.frame (didReachPrepareQuorum_path order (hG hquorum)) (.of_eq rfl)

theorem ChainOnly.frame {Q : Entry E → Prop} (h : ChainOnly Q s s') : Frame s s' := by
  refine ⟨?_, h.grows⟩
  rw [h.eq]

theorem finalCommit_path (s : Consensus E) (order : MapOrder E) :
    Path G s (s.finalCommit order) := by
  rcases s.finalCommit_cases order with heq | ⟨key, network, -, -, hmsg, heq⟩
  · rw [heq]
  · have hlog : Frame s (s.logOwnCommitted network.fbftMsg) := by
      refine ⟨rfl, (logOwnCommitted_quiet ?_).grows⟩
      rw [hmsg]
      exact MessageType.noConfusion
    rcases heq with ⟨-, heq⟩ | ⟨block, hblock, heq⟩
    · rw [heq]
      exact .single (.frame hlog)
    · set t := (s.logOwnCommitted network.fbftMsg).writeCommitSig block network.fbftMsg.payload
      have hwrite : Path G s t := Path.frame (.single (.frame hlog)) ⟨rfl, Grows.of_eq rfl rfl⟩
      have hafter : ∀ u : Consensus E, Frame u (u.afterFinalCommit block network) := by
        intro u
        rw [(u.afterFinalCommit_spec block network).1]
        exact .of_eq rfl
      obtain ⟨u, hu, hfail | ⟨sender, -, hsetup⟩⟩ := t.commitBlock_cases block network.fbftMsg
      · rw [heq, hfail]
        exact Path.frame (Path.frame hwrite hu.frame) (hafter u)
      · have hblock' : u.fbftLog.getBlockByHash u.blockHash = some block := by
          rw [hu.eq]
          exact hblock
        have hset : Move G u (u.setupForNewConsensus block sender) :=
          .setUp hblock' (setupForNewConsensus_spec u block sender)
        rw [heq, hsetup]
        exact Path.frame ((Path.frame hwrite hu.frame).tail hset) (hafter _)

theorem afterCommitVote_path (s : Consensus E) (order : MapOrder E) (quorumWasMet : Bool)
    (block : Block) : Path G s (s.afterCommitVote order quorumWasMet block) := by
  have hspawn : ∀ (t : Consensus E) viewID, Frame t (t.spawn (.gracePeriod viewID)) :=
    fun _ _ => ⟨rfl, Grows.spawn trivial⟩
  rcases s.afterCommitVote_cases order quorumWasMet block with heq | ⟨-, heq⟩ |
    ⟨-, heq | ⟨-, heq⟩⟩
  · rw [heq]
  · rw [heq]
    exact s.finalCommit_path order
  · rw [heq]
    exact .single (.frame (hspawn s _))
  · rw [heq]
    refine Path.frame ?_ (hspawn _ _)
    rcases s.preCommitAndPropose_cases order block with hpre | ⟨key, network, -, -, hmsg, hpre⟩
    · rw [hpre]
    · have hemit : Grows noPrepared s (s.emit (.constructed network.fbftMsg)) := Grows.of_eq rfl rfl
      have htask : noPrepared.task (.preCommit network block) := by
        show network.fbftMsg.messageType ≠ .prepared
        rw [hmsg]
        exact MessageType.noConfusion
      rw [hpre]
      exact .single (.frame ⟨rfl, hemit.trans (Grows.spawn htask)⟩)

theorem dropTask_frame (s : Consensus E) (i : ℕ) : Frame s (s.dropTask i) :=
  ⟨rfl, dropTask_grows s i⟩

theorem runPreCommit_frame {network : NetworkMessage E}
    (hm : network.fbftMsg.messageType ≠ .prepared) (blk : Block) :
    Frame s (s.runPreCommit network blk) := by
  refine ⟨?_, (runPreCommit_quiet blk hm).grows⟩
  rw [(s.runPreCommit_spec network blk).1]

/-! ## What the handlers enter into the trace -/

section Emits

variable {Q : Entry E → Prop} {order : MapOrder E}
  (hbuilt : ∀ key bn, Q ⟨.constructed (s.ownMessage order .committed [] key), bn, s.decider⟩)

include hbuilt

theorem finalCommit_emits
    (hother : ∀ e : Entry E, e.action.kind ∉ [.constructed, .insertChain, .writeCommitSig] → Q e)
    (hcommit : ∀ block e,
      s.fbftLog.getBlockByHash s.blockHash = some block → e.action.commits = some block →
      e.decider = s.decider → Q e) : Emits Q s (s.finalCommit order) := by
  rcases s.finalCommit_cases order with heq | ⟨key, network, -, htype, hmsg, heq⟩
  · rw [heq]
    exact Emits.refl s
  · have hlog : Emits Q s (s.logOwnCommitted network.fbftMsg) := by
      refine ⟨[_, _], rfl, List.forall_mem_cons.2 ⟨?_, List.forall_mem_singleton.2 ?_⟩⟩
      · exact hother _ (by simp [Action.kind])
      · rw [hmsg]
        exact hbuilt key _
    rcases heq with ⟨-, heq⟩ | ⟨block, hblock, heq⟩
    · rw [heq]
      exact hlog
    · set t := (s.logOwnCommitted network.fbftMsg).writeCommitSig block network.fbftMsg.payload
      have hwrite : Emits Q s t := hlog.trans ⟨[_], rfl,
        List.forall_mem_singleton.2 (hcommit block _ hblock rfl rfl)⟩
      have hchain : ∀ {u}, ChainOnly (CommitEntry t.blockNum t.decider block) t u →
          Emits Q t u := by
        intro u hu
        refine hu.emits.mono ?_
        rintro ⟨action, bn, d⟩ ⟨rfl | rfl | rfl, -, rfl⟩
        · exact hother _ (by simp [Action.kind])
        · exact hcommit block _ hblock rfl rfl
        · exact hother _ (by simp [Action.kind])
      have hafter : ∀ u : Consensus E, Emits Q u (u.afterFinalCommit block network) := by
        intro u
        refine (u.afterFinalCommit_quiet (a := .any) block network).emits.mono fun e he =>
          hother e ?_
        rw [htype] at he
        intro hmem
        simp only [List.mem_cons, List.not_mem_nil, or_false] at he hmem
        rcases he with he | he | he <;> simp [he] at hmem
      rw [heq]
      refine (hwrite.trans ?_).trans (hafter _)
      obtain ⟨u, hu, heq | ⟨sender, -, heq⟩⟩ := t.commitBlock_cases block network.fbftMsg
      all_goals rw [heq]
      · exact hchain hu
      · refine (hchain hu).trans ((setupForNewConsensus_spec u block sender).emits.mono ?_)
        rintro ⟨action, bn, d⟩ rfl
        exact hother _ (by simp [Action.kind])

theorem afterCommitVote_emits
    (hfinal : s.decider.isAllSigsCollected = true → Emits Q s (s.finalCommit order))
    (quorumWasMet : Bool) (block : Block) :
    Emits Q s (s.afterCommitVote order quorumWasMet block) := by
  have hspawn : ∀ (u : Consensus E) viewID, Emits Q u (u.spawn (.gracePeriod viewID)) :=
    fun _ _ => Emits.of_trace_eq rfl
  rcases s.afterCommitVote_cases order quorumWasMet block with heq | ⟨hall, heq⟩ |
    ⟨-, heq | ⟨-, heq⟩⟩
  all_goals rw [heq]
  · exact Emits.refl s
  · exact hfinal hall
  · exact hspawn s _
  · refine Emits.trans ?_ (hspawn _ _)
    rcases s.preCommitAndPropose_cases order block with hpre | ⟨key, network, -, -, hmsg, hpre⟩
    · rw [hpre]
      exact Emits.refl s
    · rw [hpre, hmsg]
      exact Emits.emit s (hbuilt key _)

end Emits

end Consensus

end Benzene
