import Benzene.Common.Run
import Benzene.Consensus.Concrete
import Benzene.Consensus.StepSpec

/-!
# The block number of a node

`commitBlock` sets the block number of the node to the successor of the number in the header of
the block, while `tryCatchup` finds the block through the block number that a COMMITTED message
claims and the hash it carries.  `onCommitted` checks the certificate against the block but
never the number of the block against the number of the message.

* `height_matches_and_grows`: as long as no COMMITTED message claims a number other than the one
  of its block, every committed block has the number that the node is at, and no message takes
  the node back.
* `height_decreases`: a certificate of block 1, sent with the block number 3, takes a node from
  3 to 2.
-/

namespace Benzene

variable {E : Env}

namespace Consensus

/-! ## The invariant -/

/-- Every block with the hash of the message has the block number of the message. -/
def Fits (m : FBFTMessage E) : Prop := ∀ b, E.blockHash b = m.blockHash → b.numberU64 = m.blockNum

variable {m : FBFTMessage E}

theorem fits_of_block (hbind : E.HashBindsNumber) {b : Block}
    (hhash : E.blockHash b = m.blockHash) (hnum : b.numberU64 = m.blockNum) : Fits m := by
  intro b' hb'
  rw [← hnum]
  exact hbind _ _ (hb'.trans hhash.symm)

/-- The verified COMMITTED messages of the log, and those that a goroutine is going to log, fit
    their block; no block has the last number.  All COMMITTED messages satisfy `pre`. -/
def heightContents (pre : FBFTMessage E → Prop) : Contents E where
  msg m := m.messageType = .committed → (m.verified = true → Fits m) ∧ pre m
  blk b := b.numberU64 ≠ maxBlockNum
  task t := ∀ m ∈ t.messages, Fits m ∧ pre m

/-- Committed blocks have the number that the node was at, and the node does not go back. -/
structure HeightStep (s s' : Consensus E) : Prop where
  le : s.blockNum ≤ s'.blockNum
  emits : Emits (fun e => ∀ b, e.action = .commitBlock b → b.numberU64 = e.blockNum) s s'

variable {s s' s'' : Consensus E}

theorem HeightStep.trans (h : HeightStep s s') (h' : HeightStep s' s'') : HeightStep s s'' :=
  ⟨UInt64.le_trans h.le h'.le, h.emits.trans h'.emits⟩

theorem HeightStep.refl (s : Consensus E) : HeightStep s s := ⟨UInt64.le_refl _, Emits.refl s⟩

variable {ks : List ActionKind}

theorem Quiet.heightStep {a : Contents E} (h : Quiet a ks s s')
    (hks : ActionKind.commitBlock ∉ ks) : HeightStep s s' := by
  refine ⟨h.blockNum ▸ UInt64.le_refl _, h.emits.mono ?_⟩
  intro e he b hb
  rw [hb] at he
  exact absurd he hks

/-- A condition on COMMITTED messages and one on the node that the parts of a step keep. -/
structure CommitRule (pre : Consensus E → FBFTMessage E → Prop) (side : Consensus E → Prop) :
    Prop where
  quiet : ∀ {a ks s s'}, Quiet a ks s s' → (∀ m, pre s m → pre s' m) ∧ (side s → side s')
  setUp : ∀ {blk sender s s' m}, SetUp blk sender s s' → blk.numberU64 = s.blockNum →
    blk.numberU64 ≠ maxBlockNum → m.blockNum = s.blockNum → m.senderPubkeys = [sender] → pre s m →
    (∀ m, pre s m → pre s' m) ∧ (side s → side s')
  own : ∀ {s m}, side s → OwnCommitted s m → pre s m
  flag : ∀ {s m}, pre s m → ∀ verified, pre s { m with verified := verified }

variable {pre : Consensus E → FBFTMessage E → Prop} {side : Consensus E → Prop}

/-- What the parts of a step do. -/
structure CommitStep (pre : Consensus E → FBFTMessage E → Prop) (side : Consensus E → Prop)
    (s s' : Consensus E) : Prop extends HeightStep s s' where
  passes : ∀ m, pre s m → pre s' m
  keeps : side s → side s'

structure CommitInv (pre : Consensus E → FBFTMessage E → Prop) (side : Consensus E → Prop)
    (s : Consensus E) : Prop where
  holds : Holds (heightContents (pre s)) s
  side : side s

/-- A part of a step keeps the invariant. -/
abbrev CommitKept (pre : Consensus E → FBFTMessage E → Prop) (side : Consensus E → Prop)
    (s s' : Consensus E) : Prop := CommitInv pre side s' ∧ CommitStep pre side s s'

theorem CommitStep.refl (s : Consensus E) : CommitStep pre side s s :=
  ⟨HeightStep.refl s, fun _ => id, id⟩

theorem CommitStep.trans (h : CommitStep pre side s s') (h' : CommitStep pre side s' s'') :
    CommitStep pre side s s'' :=
  ⟨h.toHeightStep.trans h'.toHeightStep, fun m hm => h'.passes m (h.passes m hm),
    fun hs => h'.keeps (h.keeps hs)⟩

theorem Quiet.commitStep {a : Contents E} (h : Quiet a ks s s') (hrule : CommitRule pre side)
    (hks : ActionKind.commitBlock ∉ ks) : CommitStep pre side s s' :=
  ⟨h.heightStep hks, (hrule.quiet h).1, (hrule.quiet h).2⟩

theorem CommitInv.step (h : CommitInv pre side s) (hstep : CommitStep pre side s s')
    (hgrows : Grows (heightContents (pre s)) s s') :
    CommitKept pre side s s' := by
  refine ⟨⟨(hgrows.holds h.holds).mono ?_ (fun _ => id) ?_, hstep.keeps h.side⟩, hstep⟩
  · exact fun m hm hcommitted => (hm hcommitted).imp_right (hstep.passes m)
  · exact fun t ht m hm => (ht m hm).imp_right (hstep.passes m)

theorem CommitKept.after (h' : CommitKept pre side s' s'') (h : CommitStep pre side s s') :
    CommitKept pre side s s'' :=
  ⟨h'.1, h.trans h'.2⟩

theorem CommitInv.of_quiet (hrule : CommitRule pre side) (h : CommitInv pre side s)
    (hquiet : Quiet (heightContents (pre s)) ks s s') (hks : ActionKind.commitBlock ∉ ks) :
    CommitKept pre side s s' :=
  h.step (hquiet.commitStep hrule hks) hquiet.grows

section Rule

variable (hrule : CommitRule pre side)

include hrule

/-! ## Committing one block -/

theorem commitBlock_height {blk : Block} (hnum : blk.numberU64 = s.blockNum)
    (hmax : blk.numberU64 ≠ maxBlockNum) (hmnum : m.blockNum = s.blockNum) (hm : pre s m) :
    CommitStep pre side s (s.commitBlock blk m).1 ∧
      ((s.commitBlock blk m).2 = true → (s.commitBlock blk m).1.blockNum = s.blockNum + 1) := by
  obtain ⟨t, ht, h⟩ := s.commitBlock_cases blk m
  have htnum : t.blockNum = s.blockNum := by rw [ht.eq]
  have hquiet : Quiet .any [.commitBlock, .insertChain, .postConsensusJob] s t := by
    refine .of_eq (by rw [ht.eq]) (writesChain_mem (k := .insertChain) (by simp) rfl)
      (ht.emits.mono ?_) ht.grows
    rintro e ⟨he | he | he, -, -⟩ <;> rw [he] <;> simp [Action.kind]
  have hchain : CommitStep pre side s t := by
    refine ⟨⟨htnum ▸ UInt64.le_refl _, ht.emits.mono ?_⟩, (hrule.quiet hquiet).1,
      (hrule.quiet hquiet).2⟩
    rintro e ⟨haction, hblockNum, -⟩ b hb
    rw [hblockNum, ← hnum]
    rw [hb] at haction
    rcases haction with h | h | h <;> cases h
    rfl
  rcases h with h | ⟨sender, hsender, h⟩
  · rw [h]
    exact ⟨hchain, fun hfalse => by cases hfalse⟩
  · have hsetup := setupForNewConsensus_spec t blk sender
    rw [← htnum] at hnum hmnum
    obtain ⟨hpasses, hkeeps⟩ :=
      hrule.setUp hsetup hnum hmax hmnum hsender (hchain.passes m hm)
    rw [h]
    refine ⟨hchain.trans ⟨⟨?_, hsetup.emits.mono ?_⟩, hpasses, hkeeps⟩, fun _ => ?_⟩
    · rw [hsetup.blockNum, ← hnum]
      exact le_add_one_of_ne_max hmax
    · intro e he b hb
      rw [hb] at he
      cases he
    · rw [← htnum, ← hnum]
      exact hsetup.blockNum

/-! ## Catching up -/

/-- The blocks and their messages have the numbers `bn, bn + 1, …`, none of them the last. -/
def Consecutive : UInt64 → List (Block × FBFTMessage E) → Prop
  | _, [] => True
  | bn, (blk, m) :: rest =>
    blk.numberU64 = bn ∧ m.blockNum = bn ∧ blk.numberU64 ≠ maxBlockNum ∧ Consecutive (bn + 1) rest

omit hrule in
theorem consecutive_of_isLastMile (h : Holds (heightContents (pre s)) s) {bn : UInt64}
    {l : List (Block × FBFTMessage E)} (hl : IsLastMile s.fbftLog bn l) :
    Consecutive bn l ∧ ∀ p ∈ l, pre s p.2 := by
  induction l generalizing bn with
  | nil => exact ⟨trivial, List.forall_mem_nil _⟩
  | cons p rest ih =>
    obtain ⟨blk, m⟩ := p
    obtain ⟨⟨hmem, htype, hverified, hnum, hblk⟩, hrest⟩ := hl
    obtain ⟨hhash, hmax⟩ := h.blocks _ _ hblk
    obtain ⟨hfits, hm⟩ := h.messages m hmem htype
    obtain ⟨hconsecutive, hpre⟩ := ih hrest
    exact ⟨⟨(hfits hverified blk hhash).trans hnum, hnum, hmax, hconsecutive⟩,
      List.forall_mem_cons.2 ⟨hm, hpre⟩⟩

theorem catchupLoop_height {l : List (Block × FBFTMessage E)} (hl : Consecutive s.blockNum l)
    (hpre : ∀ p ∈ l, pre s p.2) : CommitStep pre side s (catchupLoop s l) := by
  -- at the head of the loop the next block has the number that the node is at; the messages were
  -- read from the log before the loop
  refine catchupLoop_rule (P := fun t rest => CommitStep pre side s t ∧
    Consecutive t.blockNum rest ∧ ∀ p ∈ rest, pre t p.2)
    (Q := CommitStep pre side s) (fun t h => h.1) ?_ ⟨CommitStep.refl s, hl, hpre⟩
  rintro t blk m rest ⟨ht, ⟨hnum, hmnum, hmax, hrest⟩, hpre⟩
  obtain ⟨hm, hpre⟩ := List.forall_mem_cons.1 hpre
  have hquiet := t.verifyUnlessMarked_quiet (a := .any) blk
  have hverify := hquiet.commitStep hrule (by decide)
  rw [← hquiet.blockNum] at hnum hmnum hrest
  obtain ⟨hcommit, hnext⟩ := commitBlock_height hrule hnum hmax hmnum (hverify.passes m hm)
  have hemit : ∀ u : Consensus E, Quiet .any [.signal] u (u.emit (.verifiedNewBlock blk)) :=
    fun _ => .emit (List.mem_singleton_self _)
  have hstep := (hverify.trans hcommit).trans ((hemit _).commitStep hrule (by decide))
  refine ⟨ht.trans hverify, fun _ => ⟨ht.trans (hverify.trans hcommit), fun hok =>
    ⟨ht.trans hstep, ?_, fun p hp => hstep.passes p.2 (hpre p hp)⟩⟩⟩
  rw [← hnext hok] at hrest
  exact hrest

theorem tryCatchup_height (h : CommitInv pre side s) (order : MapOrder E) :
    CommitStep pre side s (s.tryCatchup order) := by
  obtain ⟨hconsecutive, hpre⟩ := consecutive_of_isLastMile h.holds
    (s.getLastMileBlocksAndMsg_isLastMile order s.blockNum)
  unfold tryCatchup
  split_ifs
  · exact CommitStep.refl s
  · exact (catchupLoop_height hrule hconsecutive hpre).trans
      ((postCatchup_quiet (a := .any) _ s.blockNum).commitStep hrule (by simp))

/-! ## The handlers that commit -/

theorem onCommitted_height (h : CommitInv pre side s) (order : MapOrder E)
    (hfits : ∀ blk, s.fbftLog.getBlockByHash m.blockHash = some blk → Fits m) (hm : pre s m) :
    CommitKept pre side s (s.onCommitted order m) := by
  have hfalse : (heightContents (pre s)).msg { m with verified := false } :=
    fun _ => ⟨nofun, hrule.flag hm false⟩
  have htrue : ∀ blk, s.fbftLog.getBlockByHash m.blockHash = some blk →
      (heightContents (pre s)).msg { m with verified := true } :=
    fun blk hblk _ => ⟨fun _ => hfits blk hblk, hrule.flag hm true⟩
  refine h.step ?_ (onCommitted_acts order hfalse htrue).grows
  rcases s.onCommitted_cases order m with ⟨-, heq⟩ | ⟨-, heq | ⟨aggSig, mask, blk, hchecks, heq⟩⟩
  · rw [heq]
    exact CommitStep.refl s
  · rw [heq]
    exact ((s.spinUpIfLow_quiet m.blockNum).trans (addNotVerifiedMessage_quiet hfalse)).commitStep
      hrule (by decide)
  · obtain ⟨haccept, hstep⟩ := h.of_quiet hrule (acceptCommitted_quiet aggSig mask blk hfalse
      (htrue blk (committedChecks_eq_some hchecks).1)) (by decide)
    rw [heq]
    exact hstep.trans (tryCatchup_height hrule haccept order)

/-- The block that the leader works on has the number that it is at. -/
def WorksOnHeight (s : Consensus E) : Prop :=
  ∀ b, E.blockHash b = s.blockHash → b.numberU64 = s.blockNum

omit hrule in
theorem WorksOnHeight.fits (h : WorksOnHeight s) (hm : OwnCommitted s m) :
    Fits m := by
  intro b hb
  rw [hm.blockHash] at hb
  rw [hm.blockNum]
  exact h b hb

theorem CommitInv.own (h : CommitInv pre side s) (hwork : WorksOnHeight s) (hm : OwnCommitted s m) :
    Fits m ∧ pre s m :=
  ⟨hwork.fits hm, hrule.own h.side hm⟩

theorem finalCommit_height (h : CommitInv pre side s) (hwork : WorksOnHeight s)
    (order : MapOrder E) : CommitKept pre side s (s.finalCommit order) := by
  refine h.step ?_ (finalCommit_acts order fun m hm _ =>
    (h.own hrule hwork hm).imp_left fun hfits _ => hfits).grows
  rcases s.finalCommit_cases order with heq | ⟨key, network, hkey, htype, hmsg, heq⟩
  · rw [heq]
    exact CommitStep.refl s
  · have hlog := (logOwnCommitted_quiet (a := .any) (s := s) (m := network.fbftMsg)
      trivial).commitStep hrule (by decide)
    rcases heq with ⟨-, heq⟩ | ⟨block, hblock, heq⟩
    · rw [heq]
      exact hlog
    · obtain ⟨hhash, hmax⟩ := h.holds.blocks _ _ hblock
      have hown : OwnCommitted s network.fbftMsg := by
        rw [hmsg]
        exact ownCommitted_ownMessage false hkey
      rw [heq]
      set t := (s.logOwnCommitted network.fbftMsg).writeCommitSig block network.fbftMsg.payload
      have ht : CommitStep pre side s t :=
        hlog.trans ((writeCommitSig_quiet (a := .any) _ block _).commitStep hrule (by decide))
      have hcommit := (commitBlock_height hrule (s := t) (hwork block hhash) hmax hown.blockNum
        (ht.passes _ (hrule.own h.side hown))).1
      have hafter := afterFinalCommit_quiet (a := .any) (t.commitBlock block network.fbftMsg).1
        block network
      rw [htype] at hafter
      exact (ht.trans hcommit).trans (hafter.commitStep hrule (by decide))

theorem onCommit_height (h : CommitInv pre side s) (hwork : WorksOnHeight s)
    (order : MapOrder E) (m : FBFTMessage E) : CommitKept pre side s (s.onCommit order m) := by
  refine h.step ?_ (onCommit_acts (a := heightContents (pre s)) order m (fun m hm _ =>
      (h.own hrule hwork hm).imp_left fun hfits _ => hfits)
    (fun network _ hm => List.forall_mem_singleton.2 (h.own hrule hwork hm))
    fun _ => List.forall_mem_nil _).grows
  have hvoted : ∀ {decider ballot sign}, s.decider.addNewVote .commit m.senderPubkeys sign
      m.blockHash m.blockNum 0 = .ok (decider, ballot) → ∀ mask,
      Quiet (heightContents (pre s)) [] s { s with decider := decider, commitBitmap := mask } :=
    fun hvote _ => ⟨⟨rfl, Emits.of_trace_eq rfl, Grows.of_eq rfl rfl, fun _ => rfl⟩, rfl, rfl,
      addNewVote_publicKeys hvote⟩
  rcases s.onCommit_cases order m with heq | ⟨sign, block, decider, ballot, -, -, hvote, ⟨-, heq⟩ |
    ⟨mask, -, heq⟩⟩
  · rw [heq]
    exact CommitStep.refl s
  · rw [heq]
    exact (hvoted hvote s.commitBitmap).commitStep hrule (by simp)
  · obtain ⟨ht, hst⟩ := h.of_quiet hrule (hvoted hvote mask) (by simp)
    set t : Consensus E := { s with decider := decider, commitBitmap := mask }
    have hspawn : ∀ (u : Consensus E) task, CommitStep pre side u (u.spawn task) := fun u task =>
      (spawn_quiet (a := .any) trivial).commitStep hrule List.not_mem_nil
    rw [heq]
    rcases t.afterCommitVote_cases order (s.decider.isQuorumAchieved .commit) block with
      heq | ⟨-, heq⟩ | ⟨-, heq | ⟨-, heq⟩⟩
    all_goals rw [heq]
    · exact hst
    · exact hst.trans (finalCommit_height hrule ht hwork order).2
    · exact hst.trans (hspawn t _)
    · exact (hst.trans ((preCommitAndPropose_quiet (a := .any) order block fun _ _ =>
        trivial).commitStep hrule (by decide))).trans (hspawn _ _)

/-! ## Goroutines -/

theorem runFollowUp_height (h : CommitInv pre side s) (order : MapOrder E)
    (curBlockNum : UInt64) {msgs : List (FBFTMessage E)} (hmsgs : ∀ m ∈ msgs, Fits m ∧ pre s m) :
    CommitKept pre side s (s.runFollowUp order curBlockNum msgs) := by
  cases msgs with
  | nil => exact ⟨h, CommitStep.refl s⟩
  | cons m rest =>
    obtain ⟨⟨hfits, hm⟩, hrest⟩ := List.forall_mem_cons.1 hmsgs
    obtain ⟨hinv, hstep⟩ := onCommitted_height hrule h order (fun _ _ => hfits) hm
    unfold runFollowUp
    dsimp only
    split_ifs
    · exact ⟨hinv, hstep⟩
    · exact (hinv.of_quiet hrule (spawn_quiet (t := .followUp curBlockNum rest) fun m' hm' =>
        (hrest m' hm').imp_right (hstep.passes m')) List.not_mem_nil).after hstep

end Rule

/-! ## Runs -/

/-- The condition on a step: a COMMITTED message that names a cached block has the number of that
    block, a leader collects commit votes for a block of the number it is at, and no block has
    the last number. -/
def FitsHeight (s : Consensus E) : NodeEvent E → Prop
  | .message _ msg _ => ∀ m, s.parseFBFTMessage msg = .ok m →
    match msg.type with
    | .prepared => m.blockNum ≠ maxBlockNum
    | .committed => ∀ b, s.fbftLog.getBlockByHash m.blockHash = some b → b.numberU64 = m.blockNum
    | .commit => s.isLeader = true → WorksOnHeight s
    | _ => True
  | .propose _ newBlock => newBlock.numberU64 ≠ maxBlockNum
  | .task _ i =>
    match s.tasks[i]? with
    | some (.gracePeriod _) => WorksOnHeight s
    | _ => True
  | _ => True

section Rule

variable (hrule : CommitRule pre side) (hbind : E.HashBindsNumber)

include hrule hbind

/-- One step keeps the invariant, except that the sync signals move the node. -/
theorem Dispatch.commitInv {e : NodeEvent E} (hd : Dispatch s e s') (h : CommitInv pre side s)
    (hok : FitsHeight s e)
    (hpre : ∀ order msg senderKey, e = .message order msg senderKey → ∀ m,
      s.parseFBFTMessage msg = .ok m → msg.type = .committed → pre s m)
    (hready : e ≠ .syncReady) (hnotReady : e ≠ .syncNotReady) :
    CommitKept pre side s s' := by
  have hother : ∀ {t : MessageType}, t ≠ .committed → ∀ m : FBFTMessage E, m.messageType = t →
      (heightContents (pre s)).msg m := fun ht m hm hm' => absurd (hm.symm.trans hm') ht
  have hdrop : ∀ i, CommitKept pre side s (s.dropTask i) :=
    fun i => h.of_quiet hrule (s.dropTask_quiet i) List.not_mem_nil
  have htask : ∀ {i : ℕ} {t : Task E}, s.tasks[i]? = some t → ∀ m ∈ t.messages,
      Fits m ∧ pre (s.dropTask i) m := fun hget m hm =>
    (h.holds.tasks _ (List.mem_of_getElem? hget) m hm).imp_right ((hdrop _).2.passes m)
  cases hd with
  | idle heq => exact h.of_quiet hrule (.silent (by rw [heq])) List.not_mem_nil
  | dropTask => exact hdrop _
  | announce hparse hm =>
    exact h.of_quiet hrule (onAnnounce_quiet hparse (hother (by decide) _ hm)) (by decide)
  | @prepared _ _ _ m hparse hm htype =>
    refine h.of_quiet hrule (onPrepared_quiet m (hother (by decide) _ hm) fun b hb =>
      ⟨?_, List.forall_mem_nil _⟩) (by decide)
    have hmax := hok m hparse
    rw [htype] at hmax
    show b.numberU64 ≠ maxBlockNum
    rw [hb.2.1]
    exact hmax
  | @committed order _ _ m hparse _ htype =>
    refine onCommitted_height hrule h order (fun blk hblk => ?_) (hpre _ _ _ rfl m hparse htype)
    have hnum := hok m hparse
    rw [htype] at hnum
    exact fits_of_block hbind (h.holds.blocks _ _ hblk).1 (hnum blk hblk)
  | prepare =>
    exact h.of_quiet hrule (onPrepare_quiet _ _ fun m hm _ => hother (by decide) m hm) (by decide)
  | @commit order _ _ m hparse htype hleader =>
    have hwork := hok m hparse
    rw [htype] at hwork
    exact onCommit_height hrule h (hwork hleader) order m
  | propose =>
    exact h.of_quiet hrule (announce_quiet _ (fun m hm _ => hother (by decide) m hm) hok)
      (by decide)
  | @preCommit _ i network blk hget =>
    obtain ⟨hfits, hm⟩ := List.forall_mem_singleton.1 (htask hget)
    exact ((hdrop i).1.of_quiet hrule (runPreCommit_quiet blk fun _ =>
      ⟨fun _ => hfits, hrule.flag hm true⟩) (by simp)).after (hdrop i).2
  | @gracePeriod order i viewID hget =>
    have hwork : WorksOnHeight s := by simpa only [FitsHeight, hget] using hok
    exact (finalCommit_height hrule (hdrop i).1 hwork order).after (hdrop i).2
  | @followUpStart order i blk hget =>
    have hquiet : Quiet (heightContents (pre (s.dropTask i))) [] (s.dropTask i)
        ((s.dropTask i).runFollowUpStart order blk) := by
      refine runFollowUpStart_quiet order fun msgs hmsgs m hm => ?_
      obtain ⟨hmem, htype, hnum, hhash⟩ := hmsgs m hm
      exact ⟨fits_of_block hbind hhash.symm hnum.symm,
        ((hdrop i).1.holds.messages m hmem htype).2⟩
    exact ((hdrop i).1.of_quiet hrule hquiet List.not_mem_nil).after (hdrop i).2
  | @followUp order i n m rest hget =>
    exact (runFollowUp_height hrule (hdrop i).1 order n (htask hget)).after (hdrop i).2
  | syncReady => exact absurd rfl hready
  | syncNotReady => exact absurd rfl hnotReady
  | takeBlockNumLow => exact h.of_quiet hrule (.silent rfl) List.not_mem_nil
  | @chainChanged blockchain =>
    have hquiet : Quiet (heightContents (pre s)) [.insertChain] s
        { s with blockchain := blockchain } :=
      .of_eq rfl (writesChain_mem List.mem_cons_self rfl) (Emits.of_trace_eq rfl)
        (Grows.of_eq rfl rfl)
    exact h.of_quiet hrule hquiet (by decide)

end Rule

/-- The rule without conditions. -/
theorem commitRule_true : CommitRule (E := E) (fun _ _ => True) (fun _ => True) :=
  ⟨fun _ => ⟨fun _ => id, id⟩, fun _ _ _ _ _ _ => ⟨fun _ => id, id⟩, fun _ _ => trivial,
    fun _ _ => trivial⟩

abbrev HeightInv : Consensus E → Prop := CommitInv (fun _ _ => True) (fun _ => True)

/-- One step keeps the invariant; only `syncNotReady` may take the node back. -/
theorem step_height (hbind : E.HashBindsNumber) (h : HeightInv s) {e : NodeEvent E}
    (hok : FitsHeight s e) :
    HeightInv (s.step e) ∧
      Emits (fun e => ∀ b, e.action = .commitBlock b → b.numberU64 = e.blockNum) s (s.step e) ∧
      (e ≠ .syncNotReady → s.blockNum ≤ (s.step e).blockNum) := by
  by_cases hsync : e = .syncReady ∨ e = .syncNotReady
  · rcases hsync with rfl | rfl
    · unfold step
      split_ifs
      · exact ⟨h, Emits.refl s, fun _ => UInt64.le_refl _⟩
      · dsimp only
        unfold syncReady
        dsimp only
        split_ifs with hlow
        · set t : Consensus E :=
            { s with blockNum := (E.currentHeader s.blockchain).numberU64 + 1 } with ht
          have hkept := t.updateConsensusInformation_kept
          have hsignal : Emits (fun e => ∀ b, e.action = .commitBlock b →
              b.numberU64 = e.blockNum) t t.updateConsensusInformation.1 := by
            refine (t.updateConsensusInformation_acts (a := .any)).emits.mono fun e he b hb => ?_
            rw [hb] at he
            simp [Action.kind] at he
          refine ⟨⟨⟨?_, ?_, ?_⟩, trivial⟩, hsignal, fun _ => ?_⟩
          · exact hkept.fbftLog ▸ h.holds.messages
          · exact hkept.fbftLog ▸ h.holds.blocks
          · exact hkept.tasks ▸ h.holds.tasks
          · show s.blockNum ≤ t.updateConsensusInformation.1.blockNum
            rw [hkept.blockNum]
            exact UInt64.le_of_lt hlow
        · exact ⟨h, Emits.refl s, fun _ => UInt64.le_refl _⟩
    · unfold step
      split_ifs
      · exact ⟨h, Emits.refl s, fun _ => UInt64.le_refl _⟩
      · exact ⟨⟨⟨h.holds.messages, h.holds.blocks, h.holds.tasks⟩, trivial⟩, Emits.of_trace_eq rfl,
          fun hne => absurd rfl hne⟩
  · obtain ⟨hready, hnotReady⟩ := not_or.1 hsync
    obtain ⟨hinv, hstep⟩ := (s.step_dispatch e).commitInv commitRule_true hbind h hok
      (fun _ _ _ _ _ _ _ => trivial) hready hnotReady
    exact ⟨hinv, hstep.emits, fun _ => hstep.le⟩

/-- In every run from start-up whose steps meet `FitsHeight`, each block given to `commitBlock`
    has the number that the node is at, and no step but `syncNotReady` takes the node back. -/
theorem height_matches_and_grows (hbind : E.HashBindsNumber) (h0 : StartUp s)
    {es : List (NodeEvent E)} (hes : Run.Steps step FitsHeight s es) :
    (∀ e ∈ (Run.run step s es).trace, ∀ b, e.action = .commitBlock b →
      b.numberU64 = e.blockNum) ∧
    ∀ es₁ ev es₂, es = es₁ ++ ev :: es₂ → ev ≠ .syncNotReady →
      (Run.run step s es₁).blockNum ≤ (Run.run step s (es₁ ++ [ev])).blockNum := by
  have hinv : ∀ es', Run.Steps step FitsHeight s es' →
      HeightInv (Run.run step s es') ∧ ∀ e ∈ (Run.run step s es').trace,
        ∀ b, e.action = .commitBlock b → b.numberU64 = e.blockNum := by
    intro es' hes'
    refine Run.run_invariant (fun t => HeightInv t ∧ ∀ e ∈ t.trace, ∀ b,
      e.action = .commitBlock b → b.numberU64 = e.blockNum) ?_ ⟨⟨h0.holds _, trivial⟩, ?_⟩ hes'
    · rintro t e ⟨ht, htrace⟩ hok
      obtain ⟨hinv, hemits, -⟩ := step_height hbind ht hok
      exact ⟨hinv, hemits.forall_mem htrace⟩
    · rw [h0.trace]
      intro e he
      cases he
  refine ⟨(hinv es hes).2, ?_⟩
  rintro es₁ ev es₂ rfl hne
  rw [Run.run_concat]
  exact (step_height hbind (hinv es₁ hes.of_append).1 hes.ok_at).2.2 hne

end Consensus

namespace Concrete

open Consensus

/-- The PREPARED message of the block with a number, from the leader, key 1. -/
def prepared (number : UInt8) : NodeEvent env :=
  deliver (preparedMsg [1, 2, 3, 4] [1, 2, 3] 1 (blk number 0 0) number) 1

/-- A COMMITTED message of that leader with the certificate of the block `number`. -/
def committed (number blockNum : UInt8) : NodeEvent env :=
  deliver (committedMsg [1, 2, 3, 4] [1, 2, 3] 1 1 (blk number 0 0) blockNum) 1

/-- The messages that settle the block with a number. -/
def settle (number : UInt8) : List (NodeEvent env) := [prepared number, committed number number]

theorem steps_settle_one :
    Run.Steps step FitsHeight (node [2] 1 [1, 2, 3, 4] 1) (settle 1) := by
  refine ⟨?_, ?_, trivial⟩
  · intro m hm
    obtain ⟨req, hreq, -, -, hnum, -⟩ := parseFBFTMessage_eq_ok hm
    obtain rfl := Option.some.inj hreq
    show m.blockNum ≠ maxBlockNum
    rw [hnum]
    decide
  · intro m hm b hb
    obtain ⟨req, hreq, -, -, hnum, hhash⟩ := parseFBFTMessage_eq_ok hm
    obtain rfl := Option.some.inj hreq
    have hcached : ((node [2] 1 [1, 2, 3, 4] 1).step (prepared 1)).fbftLog.getBlockByHash
        (copyBytes 32 (env.blockHash (blk 1 0 0)).toList) = some (blk 1 0 0) := by
      decide +kernel
    rw [hhash] at hb
    obtain rfl := Option.some.inj (hcached.symm.trans hb)
    rw [hnum]
    rfl

/-- A node commits block 1. -/
theorem height_matches_and_grows_one :
    (∀ e ∈ (Run.run step (node [2] 1 [1, 2, 3, 4] 1) (settle 1)).trace, ∀ b,
      e.action = .commitBlock b → b.numberU64 = e.blockNum) ∧
    (Run.run step (node [2] 1 [1, 2, 3, 4] 1) (settle 1)).blockNum = 2 :=
  ⟨(height_matches_and_grows hashBindsNumber ⟨rfl, rfl, rfl⟩ steps_settle_one).1,
    by decide +kernel⟩

/-- A node that has committed the blocks 1 and 2 is at 3. A COMMITTED message with the hash and
    the certificate of block 1 and the block number 3 makes it commit block 1 again, and it
    goes back to 2. -/
theorem height_decreases :
    StartUp (node [2] 1 [1, 2, 3, 4] 1) ∧
    (Run.run step (node [2] 1 [1, 2, 3, 4] 1) (settle 1 ++ settle 2)).blockNum = 3 ∧
    (Run.run step (node [2] 1 [1, 2, 3, 4] 1) (settle 1 ++ settle 2 ++
      [committed 1 3])).blockNum = 2 :=
  ⟨⟨rfl, rfl, rfl⟩, by decide +kernel, by decide +kernel⟩

end Concrete

end Benzene
