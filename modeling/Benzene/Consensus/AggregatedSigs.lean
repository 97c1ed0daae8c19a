import Benzene.Consensus.LateCertificate
import Benzene.Consensus.LeaderMoves
import Benzene.Consensus.LogQueries
import Benzene.Consensus.Payload

/-!
# Aggregated signatures and their bitmaps

`aggregatedPrepareSig` and `aggregatedCommitSig` are set by a validator, from the certificate of a
PREPARED or a COMMITTED message, together with the bitmap.  The leader sets the first to the
aggregate signature of the message it built, which `construct` never fills in, so it is nil.

* `Attributed`: a node that leads has neither signature; a signature of another node is the one of
  a logged message and verifies under the bitmap.  A change of leader always resets the round.
* Two steps break it: the stored bitmap that `onCommitted` reads into its mask, and the follow-up
  of `onPrepared` on a node that has become the leader, whose bitmap the votes change.  Without
  them the signatures match in every state but those of a leader in the commit phase
  (`signaturesMatch_iff`).
-/

namespace Benzene

variable {E : Env}

namespace Consensus

/-- A message of a type with the signature `sig` has been logged. -/
structure CollectedFrom (s : Consensus E) (t : MessageType) (sig : E.Sign) (m : FBFTMessage E) :
    Prop where
  logged : ∃ e ∈ s.trace, e.action = .logged m
  messageType : m.messageType = t
  signature : E.bls.deserialize (m.payload.take blsSignatureSizeInBytes) = some sig

/-- The prepare signature verifies under the prepare bitmap for the hash of the message it came
    with. -/
def PrepareSigMatches (s : Consensus E) : Prop :=
  ∀ sig, s.aggregatedPrepareSig = some sig → ∃ m, CollectedFrom s .prepared sig m ∧
    E.bls.verifyHash sig (E.masks.aggregatePublic s.prepareBitmap) m.blockHash.toList = true

/-- The commit signature verifies under the commit bitmap for the block of the message it came
    with. -/
def CommitSigMatches (s : Consensus E) : Prop :=
  ∀ sig, s.aggregatedCommitSig = some sig → ∃ m blk, CollectedFrom s .committed sig m ∧
    E.blockHash blk = m.blockHash ∧
    E.bls.verifyHash sig (E.masks.aggregatePublic s.commitBitmap) (E.commitPayload blk) = true

/-- Both signatures match, and a leader in the commit phase has the prepare signature. -/
structure SignaturesMatch (s : Consensus E) : Prop where
  prepare : PrepareSigMatches s
  commit : CommitSigMatches s
  leader : s.isLeader = true → s.phase = .commit → s.aggregatedPrepareSig ≠ none

/-- The stored certificate of the block of `m`, if there is one that `onCommitted` reads, has the
    bitmap of `m`. -/
def StoredAgrees (s : Consensus E) (m : FBFTMessage E) : Prop :=
  ∀ aggSig mask blk, s.committedChecks m = some (aggSig, mask, blk) →
    E.masks.bitmap (s.committedBitmap m mask blk) = E.masks.bitmap mask

/-- A COMMITTED message finds no stored certificate with another bitmap, and the follow-up of
    `onPrepared` handles messages only while the node does not lead. -/
def KeepsSignatures (s : Consensus E) : NodeEvent E → Prop
  | .message _ msg _ =>
    ∀ m, s.parseFBFTMessage msg = .ok m → m.messageType = .committed → StoredAgrees s m
  | .task _ i =>
    ∀ curBlockNum m rest, s.tasks[i]? = some (.followUp curBlockNum (m :: rest)) →
      s.isLeader = false ∧ StoredAgrees s m
  | _ => True

/-! ## The invariant -/

/-- The node has no aggregated signature. -/
def NoSigs (s : Consensus E) : Prop :=
  s.aggregatedPrepareSig = none ∧ s.aggregatedCommitSig = none

/-- Each signature belongs to a logged message, and a leader has none. -/
structure Attributed (s : Consensus E) : Prop where
  prepare : PrepareSigMatches s
  commit : CommitSigMatches s
  leader : s.isLeader = true → NoSigs s

/-- What the signatures depend on is the same. -/
structure SameSigs (s s' : Consensus E) : Prop where
  same : (s'.aggregatedPrepareSig, s'.aggregatedCommitSig, s'.prepareBitmap, s'.commitBitmap,
      s'.leaderPubKey, s'.priKey) =
    (s.aggregatedPrepareSig, s.aggregatedCommitSig, s.prepareBitmap, s.commitBitmap,
      s.leaderPubKey, s.priKey)
  trace : ∀ e ∈ s.trace, e ∈ s'.trace

variable {s s' : Consensus E} {m : FBFTMessage E}

theorem NoSigs.attributed (h : NoSigs s) : Attributed s where
  prepare sig hsig := by
    rw [h.1] at hsig
    cases hsig
  commit sig hsig := by
    rw [h.2] at hsig
    cases hsig
  leader _ := h

theorem CollectedFrom.mono {t : MessageType} {sig : E.Sign} (h : CollectedFrom s t sig m)
    (htrace : ∀ e ∈ s.trace, e ∈ s'.trace) : CollectedFrom s' t sig m := by
  obtain ⟨⟨e, he, haction⟩, htype, hsig⟩ := h
  exact ⟨⟨e, htrace e he, haction⟩, htype, hsig⟩

theorem PrepareSigMatches.congr (hs : PrepareSigMatches s)
    (hsig : s'.aggregatedPrepareSig = s.aggregatedPrepareSig)
    (hmask : s'.prepareBitmap = s.prepareBitmap) (htrace : ∀ e ∈ s.trace, e ∈ s'.trace) :
    PrepareSigMatches s' := by
  intro sig h
  rw [hsig] at h
  obtain ⟨m, hm, hverify⟩ := hs sig h
  rw [← hmask] at hverify
  exact ⟨m, hm.mono htrace, hverify⟩

theorem CommitSigMatches.congr (hs : CommitSigMatches s)
    (hsig : s'.aggregatedCommitSig = s.aggregatedCommitSig)
    (hmask : s'.commitBitmap = s.commitBitmap) (htrace : ∀ e ∈ s.trace, e ∈ s'.trace) :
    CommitSigMatches s' := by
  intro sig h
  rw [hsig] at h
  obtain ⟨m, blk, hm, hhash, hverify⟩ := hs sig h
  rw [← hmask] at hverify
  exact ⟨m, blk, hm.mono htrace, hhash, hverify⟩

theorem isLeader_of_privateKey {key : E.PriKey} (h : s.getConsensusLeaderPrivateKey = some key) :
    s.isLeader = true := by
  have hfound := List.find?_some h
  exact List.any_eq_true.2 ⟨key, List.mem_of_find?_eq_some h, hfound⟩

theorem Attributed.of_same (hs : Attributed s) (h : SameSigs s s') : Attributed s' := by
  obtain ⟨hprepare, hcommit, hprepareMask, hcommitMask, hleader, hkeys⟩ :
      _ ∧ _ ∧ _ ∧ _ ∧ _ ∧ _ := by
    simpa only [Prod.mk.injEq] using h.same
  refine ⟨hs.prepare.congr hprepare hprepareMask h.trace,
    hs.commit.congr hcommit hcommitMask h.trace, fun hl => ?_⟩
  have hnone := hs.leader (by rwa [isLeader, hleader, hkeys] at hl)
  exact ⟨hprepare.trans hnone.1, hcommit.trans hnone.2⟩

/-! ## Committing -/

theorem commitBlock_attributed (h : Attributed s) (blk : Block) (m : FBFTMessage E) :
    Attributed (s.commitBlock blk m).1 := by
  obtain ⟨t, ht, heq | ⟨sender, -, heq⟩⟩ := s.commitBlock_cases blk m
  all_goals rw [heq]
  · exact h.of_same ⟨by rw [ht.eq], ht.emits.mem_trace⟩
  · exact NoSigs.attributed ⟨rfl, rfl⟩

theorem verifyUnlessMarked_attributed (h : Attributed s) (blk : Block) :
    Attributed (s.verifyUnlessMarked blk).1 := by
  rcases s.verifyUnlessMarked_cases blk with ⟨heq, -⟩ | heq | ⟨heq, -⟩
  all_goals rw [heq]
  · exact h
  · exact h
  · exact h.of_same ⟨rfl, fun _ => List.mem_cons_of_mem _⟩

theorem tryCatchup_attributed (h : Attributed s) (order : MapOrder E) :
    Attributed (s.tryCatchup order) := by
  unfold tryCatchup
  split_ifs
  · exact h
  · dsimp only
    have hloop : Attributed (catchupLoop s (s.getLastMileBlocksAndMsg order s.blockNum)) := by
      refine catchupLoop_rule (P := fun t _ => Attributed t) (Q := Attributed) (fun _ => id) ?_ h
      intro t blk m rest ht
      have hverify := verifyUnlessMarked_attributed ht blk
      have hcommit := commitBlock_attributed hverify blk m
      exact ⟨hverify, fun _ => ⟨hcommit, fun _ => hcommit.of_same
        ⟨rfl, fun _ => List.mem_cons_of_mem _⟩⟩⟩
    rw [postCatchup_eq]
    exact hloop.of_same ⟨rfl, fun _ => id⟩

/-! ## The leader -/

/-- The prepare signature that a leader sets is nil. -/
theorem NoSigs.move {G : Consensus E → Prop} (h : NoSigs s) (hmove : Move G s s') : NoSigs s' := by
  cases hmove with
  | frame hframe =>
    rw [hframe.eq]
    exact h
  | logPrepared order key hG => exact ⟨rfl, h.2⟩
  | @refused p | @voted p => cases p <;> exact h
  | setUp hblock hsetup => exact hsetup.sigs

theorem NoSigs.path (h : NoSigs s) (hpath : Path (fun _ => True) s s') : NoSigs s' :=
  hpath.keeps NoSigs.move h

theorem onPrepare_noSigs (h : NoSigs s) (order : MapOrder E) (m : FBFTMessage E) :
    NoSigs (s.onPrepare order m) := by
  rcases s.onPrepare_cases order m with heq | ⟨sign, decider, ballot, -, -, ⟨-, heq⟩ |
    ⟨mask, t, -, rfl, heq⟩⟩
  · rw [heq]
    exact h
  · rw [heq]
    exact h
  · have hvote : NoSigs { s with decider := decider, prepareBitmap := mask } := h
    exact hvote.path (onPrepare_path (fun _ => trivial) heq)

theorem onCommit_noSigs (h : NoSigs s) (order : MapOrder E) (m : FBFTMessage E) :
    NoSigs (s.onCommit order m) := by
  rcases s.onCommit_cases order m with heq | ⟨sign, block, decider, ballot, -, -, -, ⟨-, heq⟩ |
    ⟨mask, -, heq⟩⟩
  all_goals rw [heq]
  · exact h
  · exact h
  · have hvote : NoSigs { s with decider := decider, commitBitmap := mask } := h
    exact hvote.path (afterCommitVote_path _ order _ block)

theorem announce_noSigs (h : NoSigs s) (order : MapOrder E) (block : Block) :
    NoSigs (s.announce order block) := by
  rcases s.announce_path order block with heq | ⟨enc, -, hpath⟩
  · rw [heq]
    exact h
  · have hset : NoSigs { s with blockHash := E.blockHash block, block := enc } := h
    exact hset.path hpath

/-! ## The validator -/

theorem onAnnounce_attributed (h : Attributed s) (order : MapOrder E) (msg : Message) :
    Attributed (s.onAnnounce order msg) := by
  unfold onAnnounce
  split
  · exact h.of_same ⟨rfl, fun _ => id⟩
  · rename_i m _
    split_ifs
    · exact h
    · have hlog : Attributed { s.addVerifiedMessage m with blockHash := m.blockHash } :=
        h.of_same ⟨rfl, fun _ => List.mem_cons_of_mem _⟩
      obtain ⟨hframe, hemits⟩ := prepare_spec
        { s.addVerifiedMessage m with blockHash := m.blockHash } order
      exact hlog.of_same ⟨by rw [hframe], hemits.mem_trace⟩

theorem spinUpIfLow_attributed (h : Attributed s) (bn : UInt64) :
    Attributed (s.spinUpIfLow bn) := by
  rw [s.spinUpIfLow_eq bn]
  exact h.of_same ⟨rfl, fun _ => id⟩

/-- An accepted PREPARED message brings its signature and its bitmap. -/
theorem onPrepared_attributed (h : Attributed s) (hleader : s.isLeader = false)
    (hm : m.messageType = .prepared) : Attributed (s.onPrepared m) := by
  rcases s.onPrepared_cases m with ⟨heq | heq, -⟩ | ⟨aggSig, mask, blk, -, hchecks, heq⟩
  · rw [heq]
    exact h
  · rw [heq]
    exact spinUpIfLow_attributed h _
  · obtain ⟨-, -, -, -, hread, hverify⟩ := preparedChecks_eq_some hchecks
    have hnot : (s.spinUpIfLow m.blockNum).isLeader = false := by
      rw [s.spinUpIfLow_eq]
      exact hleader
    set t := (s.spinUpIfLow m.blockNum).logPrepared m blk with ht
    have hlog : Attributed t :=
      (spinUpIfLow_attributed h _).of_same ⟨rfl, fun _ => List.mem_cons_of_mem _⟩
    have hmark : Attributed (t.markBlockVerified blk) :=
      hlog.of_same ⟨rfl, fun _ => List.mem_cons_of_mem _⟩
    rw [heq]
    rcases t.afterLogPrepared_cases m aggSig mask blk with heq | ⟨-, heq | ⟨-, heq⟩⟩
    all_goals rw [heq]
    · exact hlog
    · exact hmark
    · refine ⟨?_, hmark.commit.congr rfl rfl fun _ => id, fun hl => ?_⟩
      · rintro sig hsig
        obtain rfl := Option.some.inj hsig
        refine ⟨{ m with block := [], verified := true }, ⟨?_, hm,
          (readSignatureBitmapPayload_eq_some hread).2.1⟩, hverify⟩
        exact ⟨_, List.mem_cons_of_mem _ List.mem_cons_self, rfl⟩
      · exact absurd (hnot.symm.trans hl) Bool.false_ne_true

theorem aggregatePublic_committedBitmap {mask : E.Mask} {blk : Block}
    (h : E.masks.bitmap (s.committedBitmap m mask blk) = E.masks.bitmap mask) :
    E.masks.aggregatePublic (s.committedBitmap m mask blk) = E.masks.aggregatePublic mask := by
  have hpublics : E.masks.publics (s.committedBitmap m mask blk) = E.masks.publics mask := by
    unfold committedBitmap
    split
    · split_ifs
      · rename_i stored _ _ _ _
        cases hset : E.masks.setMask mask (stored.drop blsSignatureSizeInBytes) with
        | none => rfl
        | some mask' => exact E.masks.setMask_publics _ _ _ hset
      · rfl
    · rfl
  rw [E.masks.aggregatePublic_eq, E.masks.aggregatePublic_eq, hpublics, h]

/-- An accepted COMMITTED message brings its signature, and a bitmap that is its own as far as the
    stored certificate agrees. -/
theorem acceptCommitted_attributed (h : Attributed s) (hleader : s.isLeader = false)
    (hcontents : Holds waitingContents s) (hm : m.messageType = .committed)
    (hstored : StoredAgrees s m)
    {aggSig : E.Sign} {mask : E.Mask} {blk : Block}
    (hchecks : s.committedChecks m = some (aggSig, mask, blk)) :
    Attributed (s.acceptCommitted m aggSig mask blk) := by
  obtain ⟨hblk, hread, hverify⟩ := committedChecks_eq_some hchecks
  obtain ⟨hframe, hemits⟩ := s.acceptCommitted_spec m aggSig mask blk
  have hlogged : ∃ e ∈ (s.acceptCommitted m aggSig mask blk).trace,
      e.action = .logged { m with verified := true } :=
    ⟨_, (overrideCommitSig_spec _ m mask blk).2.mem_trace _ List.mem_cons_self, rfl⟩
  refine ⟨h.prepare.congr (by rw [hframe]) (by rw [hframe]) hemits.mem_trace, ?_, ?_⟩
  · intro sig hsig
    have hsig' : some aggSig = some sig := by rw [← hsig, hframe]
    obtain rfl := Option.some.inj hsig'
    refine ⟨{ m with verified := true }, blk, ⟨hlogged, hm,
      (readSignatureBitmapPayload_eq_some hread).2.1⟩, (hcontents.blocks _ _ hblk).1, ?_⟩
    have hmask : (s.acceptCommitted m aggSig mask blk).commitBitmap =
        s.committedBitmap m mask blk := by
      rw [hframe]
    rw [hmask, aggregatePublic_committedBitmap (hstored _ _ _ hchecks)]
    exact hverify
  · intro hl
    have hnot : (s.acceptCommitted m aggSig mask blk).isLeader = false := by
      rw [hframe]
      exact hleader
    exact absurd (hnot.symm.trans hl) Bool.false_ne_true

theorem onCommitted_attributed (h : Attributed s) (hleader : s.isLeader = false)
    (hcontents : Holds waitingContents s) (order : MapOrder E) (hm : m.messageType = .committed)
    (hstored : StoredAgrees s m) : Attributed (s.onCommitted order m) := by
  rcases s.onCommitted_cases order m with ⟨-, heq⟩ | ⟨-, heq | ⟨aggSig, mask, blk, hchecks, heq⟩⟩
  all_goals rw [heq]
  · exact h
  · exact (spinUpIfLow_attributed h _).of_same ⟨rfl, fun _ => List.mem_cons_of_mem _⟩
  · exact tryCatchup_attributed
      (acceptCommitted_attributed h hleader hcontents hm hstored hchecks) order

/-! ## Steps and runs -/

theorem syncReady_attributed (h : Attributed s) : Attributed s.syncReady := by
  unfold syncReady
  dsimp only
  split_ifs
  · rcases updateConsensusInformation_cases
      { s with blockNum := (E.currentHeader s.blockchain).numberU64 + 1 } with
      ⟨-, heq⟩ | ⟨c, trace, -, -, heq⟩
    · rw [heq]
      exact h.of_same ⟨rfl, fun _ => id⟩
    · rw [heq, updatePublicKeys_eq]
      exact NoSigs.attributed ⟨rfl, rfl⟩
  · exact h

theorem finalCommit_attributed (h : Attributed s) (order : MapOrder E) :
    Attributed (s.finalCommit order) := by
  by_cases hleader : s.isLeader = true
  · exact ((h.leader hleader).path (s.finalCommit_path order)).attributed
  · rcases s.finalCommit_cases order with heq | ⟨key, network, hkey, -⟩
    · rw [heq]
      exact h
    · exact absurd (isLeader_of_privateKey hkey) hleader

/-- Without the key of the leader `announce` only sets the block. -/
theorem announce_attributed (h : Attributed s) (order : MapOrder E) (block : Block) :
    Attributed (s.announce order block) := by
  by_cases hleader : s.isLeader = true
  · exact (announce_noSigs (h.leader hleader) order block).attributed
  · rcases s.announce_cases order block with heq | ⟨enc, t, -, rfl, heq | ⟨key, network, hkey, -⟩⟩
    · rw [heq]
      exact h
    · rw [heq]
      exact h.of_same ⟨rfl, fun _ => id⟩
    · exact absurd (isLeader_of_privateKey hkey) hleader

theorem Dispatch.attributed {e : NodeEvent E} (hd : Dispatch s e s') (h : Attributed s)
    (hcontents : Holds waitingContents s) (he : KeepsSignatures s e) : Attributed s' := by
  have hdrop : ∀ i, Attributed (s.dropTask i) := fun _ => h.of_same ⟨rfl, fun _ => id⟩
  cases hd with
  | idle heq =>
    rw [heq]
    exact h.of_same ⟨rfl, fun _ => id⟩
  | dropTask => exact hdrop _
  | announce => exact onAnnounce_attributed h _ _
  | prepared _ hm _ hleader => exact onPrepared_attributed h hleader hm
  | committed hparse hm _ hleader =>
    exact onCommitted_attributed h hleader hcontents _ hm (he _ hparse hm)
  | prepare _ _ hleader => exact (onPrepare_noSigs (h.leader hleader) _ _).attributed
  | commit _ _ hleader => exact (onCommit_noSigs (h.leader hleader) _ _).attributed
  | propose => exact announce_attributed h _ _
  | @preCommit _ i network blk =>
    obtain ⟨hframe, hemits⟩ := (s.dropTask i).runPreCommit_spec network blk
    exact (hdrop i).of_same ⟨by rw [hframe], hemits.mem_trace⟩
  | gracePeriod => exact finalCommit_attributed (hdrop _) _
  | @followUp order i n m rest hget =>
    obtain ⟨hleader, hstored⟩ := he n m rest hget
    have hm := hcontents.tasks _ (List.mem_of_getElem? hget) m List.mem_cons_self
    have hcommitted := onCommitted_attributed (hdrop i) hleader
      ((dropTask_grows s i).holds hcontents) order hm hstored
    dsimp only [runFollowUp]
    split_ifs
    · exact hcommitted
    · exact hcommitted.of_same ⟨rfl, fun _ => id⟩
  | syncReady => exact syncReady_attributed h
  | followUpStart | syncNotReady | takeBlockNumLow | chainChanged =>
    exact h.of_same ⟨rfl, fun _ => id⟩

/-- Without the two steps, the signatures match exactly while the node is not a leader in the
    commit phase. -/
theorem signaturesMatch_iff (s : Consensus E) (hstart : StartUp s) (hsigs : NoSigs s)
    (events : List (NodeEvent E)) (hkeeps : Run.Steps step KeepsSignatures s events) :
    SignaturesMatch (Run.run step s events) ↔
      ¬ ((Run.run step s events).isLeader = true ∧ (Run.run step s events).phase = .commit) := by
  have hinv : Attributed (Run.run step s events) ∧
      Holds waitingContents (Run.run step s events) := by
    refine Run.run_invariant (fun t => Attributed t ∧ Holds waitingContents t) ?_
      ⟨hsigs.attributed, hstart.holds _⟩ hkeeps
    exact fun t e h he => ⟨(t.step_dispatch e).attributed h.1 h.2 he, step_waiting h.2 e⟩
  set t := Run.run step s events
  constructor
  · rintro h ⟨hleader, hphase⟩
    exact h.leader hleader hphase (hinv.1.leader hleader).1
  · intro h
    exact ⟨hinv.1.prepare, hinv.1.commit, fun hleader hphase => absurd ⟨hleader, hphase⟩ h⟩

end Consensus

namespace Concrete

open Consensus

/-- The leader has proposed block 1 and two members have voted for it. -/
def leaderAtCommit : Consensus env :=
  Run.run step (node [1] 1 [1, 2, 3, 4] 1)
    [.propose order (blk 1 0 0), deliver (prepareMsg 2 (blk 1 0 0) 1) 2,
      deliver (prepareMsg 3 (blk 1 0 0) 1) 3]

/-- The chain up to block 1, with the certificate of three members. -/
def chainWithCertificate : env.Chain :=
  { chainTo 1 with
    commitSigs := [(1, certificate [1, 2, 3, 4] [1, 2, 3] (env.commitPayload (blk 1 0 0)))] }

/-- A validator that has the certificate of three members in its chain takes the one of four. -/
def tookOverStored : Consensus env :=
  Run.run step (node [4] 1 [1, 2, 3, 4] 1)
    [deliver (preparedMsg [1, 2, 3, 4] [1, 2, 3] 1 (blk 1 0 0) 1) 1,
      deliver (committedMsg [1, 2, 3, 4] [1, 2, 3] 1 1 (blk 1 0 0) 1) 1,
      .chainChanged chainWithCertificate,
      deliver (committedMsg [1, 2, 3, 4] [1, 2, 3, 4] 1 1 (blk 1 0 0) 1) 1]

/-- Every COMMITTED message that the validator logged is for block 1. -/
theorem tookOverStored_committed {m : FBFTMessage env} {sig : env.Sign}
    (h : CollectedFrom tookOverStored .committed sig m) :
    m.blockHash = env.blockHash (blk 1 0 0) := by
  have hall : (tookOverStored.trace.all fun e => match e.action with
      | .logged m => m.messageType != .committed || m.blockHash == env.blockHash (blk 1 0 0)
      | _ => true) = true := by decide +kernel
  obtain ⟨⟨e, he, haction⟩, htype, -⟩ := h
  have hm := List.all_eq_true.1 hall e he
  rw [haction] at hm
  simpa [htype] using hm

/-- The leader is in the commit phase without a prepare signature, and the commit signature of the
    validator, of four members, does not verify under its commit bitmap, of three. -/
theorem signatures_do_not_match :
    (leaderAtCommit.isLeader, leaderAtCommit.phase, leaderAtCommit.aggregatedPrepareSig.isSome) =
        (true, .commit, false) ∧
      ¬ SignaturesMatch leaderAtCommit ∧
      (tookOverStored.aggregatedCommitSig.map fun sig => env.bls.verifyHash sig
        (env.masks.aggregatePublic tookOverStored.commitBitmap) (env.commitPayload (blk 1 0 0))) =
        some false ∧
      ¬ SignaturesMatch tookOverStored := by
  have hleader : (leaderAtCommit.isLeader, leaderAtCommit.phase,
      leaderAtCommit.aggregatedPrepareSig.isSome) = (true, .commit, false) := by decide +kernel
  have hcommit : (tookOverStored.aggregatedCommitSig.map fun sig => env.bls.verifyHash sig
      (env.masks.aggregatePublic tookOverStored.commitBitmap) (env.commitPayload (blk 1 0 0))) =
      some false := by decide +kernel
  refine ⟨hleader, fun h => ?_, hcommit, fun h => ?_⟩
  · simp only [Prod.mk.injEq, Option.isSome_eq_false_iff, Option.isNone_iff_eq_none] at hleader
    exact h.leader hleader.1 hleader.2.1 hleader.2.2
  · obtain ⟨sig, hsig, hfalse⟩ := Option.map_eq_some_iff.1 hcommit
    obtain ⟨m, b, hm, hhash, hverify⟩ := h.commit sig hsig
    rw [idealHash.commitPayload_eq (hhash.trans (tookOverStored_committed hm)), hfalse] at hverify
    cases hverify

/-- A validator takes the certificate of block 1 with four signatures, and is prepared for block
    2. -/
def preparedForTwo : List (NodeEvent env) :=
  [deliver (preparedMsg [1, 2, 3, 4] [1, 2, 3] 1 (blk 1 0 0) 1) 1,
    deliver (committedMsg [1, 2, 3, 4] [1, 2, 3] 1 1 (blk 1 0 0) 1) 1,
    deliver (committedMsg [1, 2, 3, 4] [1, 2, 3, 4] 1 1 (blk 1 0 0) 1) 1,
    deliver (preparedMsg [1, 2, 3, 4] [1, 2, 4] 1 (blk 2 0 0) 2) 1]

theorem keepsSignatures_deliver {s : Consensus env} (h : s.blockchain.commitSigs = [])
    (msg : Message) (sender : UInt8) : KeepsSignatures s (deliver msg sender) := by
  intro m _ _ aggSig mask b _
  rw [committedBitmap_of_not_stored]
  show (s.blockchain.commitSigs.find? _).map Prod.snd = none
  rw [h]
  rfl

/-- The validator holds both signatures, and they match. -/
theorem validator_signatures_match :
    ((Run.run step (node [4] 1 [1, 2, 3, 4] 1) preparedForTwo).aggregatedPrepareSig.isSome,
      (Run.run step (node [4] 1 [1, 2, 3, 4] 1) preparedForTwo).aggregatedCommitSig.isSome) =
        (true, true) ∧
      SignaturesMatch (Run.run step (node [4] 1 [1, 2, 3, 4] 1) preparedForTwo) := by
  refine ⟨by decide +kernel, (signaturesMatch_iff (node [4] 1 [1, 2, 3, 4] 1) ⟨rfl, rfl, rfl⟩
    ⟨rfl, rfl⟩ preparedForTwo ?_).2 (by decide +kernel)⟩
  have hempty : ∀ n < 4, (Run.run step (node [4] 1 [1, 2, 3, 4] 1)
      (preparedForTwo.take n)).blockchain.commitSigs = [] := by decide +kernel
  refine Run.Steps.of_prefix fun pre e hpre => ?_
  have hlen : pre.length < 4 := by simpa [preparedForTwo] using hpre.length_le
  have htake : pre = preparedForTwo.take pre.length :=
    List.prefix_iff_eq_take.1 ((List.prefix_append pre [e]).trans hpre)
  have hmem : e ∈ preparedForTwo := hpre.subset (by simp)
  obtain ⟨msg, sender, rfl⟩ : ∃ msg sender, e = deliver msg sender := by
    simp only [preparedForTwo, List.mem_cons, List.not_mem_nil, or_false] at hmem
    rcases hmem with rfl | rfl | rfl | rfl <;> exact ⟨_, _, rfl⟩
  rw [htake]
  exact keepsSignatures_deliver (hempty pre.length hlen) msg sender

end Concrete

end Benzene
