import Benzene.Consensus.LeaderVotes

/-!
# Finality of the leader

`finalCommit` stores a certificate for the block under the current hash and commits it.  It
does not look at the ballot box: that is left to its callers, and the end of a grace period
does not look either.

* `HasCommitQuorum d b`: the commit ballots of the decider sign the block with a quorum of
  the committee.
* `leader_finality`: in every run of a leader whose steps meet `VotesOfMembers`,
  `OneBlockPerRound` and `InOwnRound`, `finalCommit` only commits blocks with such a quorum.
* `grace_period_without_votes`: a grace period that ends in the next round commits the next
  block without a vote.
-/

namespace Benzene

variable {E : Env}

open Threshold

/-- The key has a commit ballot that is a signature of its signers over the payload. -/
def signedCommit (d : Decider E.bls) (payload : Bytes) (k : SerializedPublicKey) : Bool :=
  match d.readBallot .commit k with
  | none => false
  | some b =>
    match E.bls.deserialize b.signature with
    | none => false
    | some sig => decide (k ∈ b.signerPubKeys) &&
        E.bls.verifyHash sig (E.bls.keySum b.signerPubKeys) payload

/-- At least two thirds of the committee, and one more, have signed the commit payload of the
    block. -/
def HasCommitQuorum (d : Decider E.bls) (blk : Block) : Prop :=
  twoThirds d.publicKeys.length ≤
    ((committeeKeys d.publicKeys).filter fun k => signedCommit d (E.commitPayload blk) k).card

instance (d : Decider E.bls) (blk : Block) : Decidable (HasCommitQuorum d blk) :=
  inferInstanceAs (Decidable (_ ≤ _))

/-- The entry commits only a block with a quorum. -/
def Entry.HasQuorum (e : Entry E) : Prop := ∀ blk, e.action.commits = some blk →
  HasCommitQuorum e.decider blk

variable {d : Decider E.bls}

theorem signedCommit_of_valid {payload : Bytes}
    (h : BallotBox.Valid d.publicKeys payload d.commit) {k : SerializedPublicKey}
    (hk : k ∈ d.signers .commit) : signedCommit d payload k = true := by
  obtain ⟨b, hb⟩ := mem_signers.1 hk
  have hread : d.readBallot .commit k = some b := hb
  simp only [signedCommit, hread, (h k b hb).signature, (h k b hb).signer, decide_true,
    Bool.true_and]
  rw [E.bls.verifyHash_iff]

theorem hasCommitQuorum_of_valid {blk : Block}
    (h : BallotBox.Valid d.publicKeys (E.commitPayload blk) d.commit)
    (hquorum : d.isQuorumAchieved .commit = true) : HasCommitQuorum d blk := by
  rw [isQuorumAchieved_iff] at hquorum
  refine le_trans hquorum (Finset.card_le_card fun k hk => Finset.mem_filter.2 ⟨?_, ?_⟩)
  · exact h.signers_subset (p := .commit) hk
  · exact signedCommit_of_valid h hk

/-- When everybody has signed, the quorum is reached. -/
theorem isQuorumAchieved_of_isAllSigsCollected (hne : d.publicKeys ≠ [])
    (h : d.isAllSigsCollected = true) : d.isQuorumAchieved .commit = true := by
  have hall : d.signersCount .commit = d.publicKeys.length := of_decide_eq_true h
  have hpos : 1 ≤ d.publicKeys.length := List.length_pos_iff.2 hne
  refine decide_eq_true ?_
  rw [hall]
  exact le_trans (twoThirds_le_sub_faultBound hpos) (Nat.sub_le _ _)

namespace Consensus

variable {s s' : Consensus E} {ks : List ActionKind} {ph : Phase → Prop}

theorem hasQuorum_of_kind {e : Entry E} (hinsert : e.action.kind ≠ .insertChain)
    (hwrite : e.action.kind ≠ .writeCommitSig) : e.HasQuorum := by
  intro blk hblk
  cases haction : e.action
  all_goals
    rw [haction] at hinsert hwrite hblk
    first
      | exact absurd rfl hinsert
      | exact absurd rfl hwrite
      | cases hblk

theorem Acts.hasQuorum (h : Acts .any ks s s')
    (hks : ActionKind.insertChain ∉ ks ∧ ActionKind.writeCommitSig ∉ ks) :
    Emits Entry.HasQuorum s s' :=
  h.emits.mono fun _ he => hasQuorum_of_kind (fun hkind => hks.1 (hkind ▸ he))
    fun hkind => hks.2 (hkind ▸ he)

/-- `finalCommit` with a quorum, or without a block. -/
theorem finalCommit_hasQuorum (h : LeaderInv ph s) (hph : ph .commit) (order : MapOrder E)
    (hquorum : s.decider.isQuorumAchieved .commit = true ∨
      s.fbftLog.getBlockByHash s.blockHash = none) :
    Emits Entry.HasQuorum s (s.finalCommit order) := by
  refine finalCommit_emits (fun key bn blk hblk => by cases hblk)
    (fun e he => hasQuorum_of_kind (by grind) (by grind))
    fun block e hblock hcommits hdecider blk hblk => ?_
  obtain rfl := Option.some.inj (hcommits.symm.trans hblk)
  rw [hdecider]
  refine hasCommitQuorum_of_valid
    ((h.phases .commit (by simp) hph).votes _ ⟨block, h.blocks hblock, rfl⟩) ?_
  rcases hquorum with hquorum | hnone
  · exact hquorum
  · rw [hblock] at hnone
    cases hnone

/-- Without an announced block there is none under the current hash. -/
theorem LeaderInv.lookup_eq_none (hideal : E.IdealHash) (h : LeaderInv ph s)
    (hblock : s.block = []) :
    s.fbftLog.getBlockByHash s.blockHash = none := by
  rcases h.current with ⟨hzero, -⟩ | ⟨b, hb⟩
  · cases hlookup : s.fbftLog.getBlockByHash s.blockHash with
    | none => rfl
    | some block => exact absurd ((h.blocks hlookup).trans hzero) (hideal.ne_zero _)
  · have hdecode := hb.decode
    rw [hblock, E.decodeBlock_nil] at hdecode
    cases hdecode

theorem step_hasQuorum (hideal : E.IdealHash) (h : LeaderInv ph s) (hph : ph .commit)
    {e : NodeEvent E} (hevent : IsLeaderEvent e) (hround : InOwnRound s e) :
    Emits Entry.HasQuorum s (s.step e) := by
  have hsame : ∀ i, Emits Entry.HasQuorum s (s.dropTask i) := fun _ => Emits.of_trace_eq rfl
  rcases step_leader_cases h hevent with ⟨-, htrace⟩ | ⟨order, msg, senderKey, m, rfl, -,
    ⟨-, heq⟩ | ⟨-, heq⟩⟩ | ⟨order, newBlock, rfl, -, heq⟩ | ⟨order, i, network, blk, -, -, heq⟩ |
    ⟨order, i, viewID, rfl, hget, heq⟩
  · exact Emits.of_trace_eq htrace
  all_goals rw [heq]
  · exact (onPrepare_quiet order m fun _ _ _ => trivial).toActs.hasQuorum (by decide)
  · refine onCommit_emits hideal h order m fun t ht => afterCommitVote_emits
      (fun key bn blk hblk => by cases hblk) fun hall => ?_
    exact finalCommit_hasQuorum ht hph order
      (Or.inl (isQuorumAchieved_of_isAllSigsCollected ht.committee.ne_nil hall))
  · exact (announce_quiet order (fun _ _ _ => trivial) trivial).toActs.hasQuorum (by decide)
  · exact (hsame i).trans ((runPreCommit_quiet blk trivial).toActs.hasQuorum (by simp))
  · exact (hsame i).trans (finalCommit_hasQuorum (h.eraseTask i) hph order
      ((hround viewID hget).imp_right ((h.eraseTask i).lookup_eq_none hideal)))

/-- **Finality.** In every run of a leader in which commit votes come from members, a second
    block is announced only before the first vote, and no grace period ends in the middle of
    another round, `finalCommit` inserts a block, or stores a certificate for it, only with
    the signatures of a quorum of the committee over the block. -/
theorem leader_finality (hideal : E.IdealHash) (hproper : CommitteesProper E)
    (hstart : LeaderStart s) {es : List (NodeEvent E)}
    (hes : Run.Steps step (fun s e => IsLeaderEvent e ∧ VotesOfMembers .commit s e ∧
      OneBlockPerRound s e ∧ InOwnRound s e) s es) :
    ∀ e ∈ (Run.run step s es).trace, ∀ blk, e.action.commits = some blk →
      HasCommitQuorum e.decider blk := by
  have hinit : ∀ e ∈ s.trace, e.HasQuorum := by
    rw [hstart.trace]
    exact List.forall_mem_nil _
  refine (Run.run_invariant (fun t => LeaderInv (· = .commit) t ∧ ∀ e ∈ t.trace, e.HasQuorum) ?_
    ⟨hstart.leaderInv, hinit⟩ hes).2
  rintro t e ⟨ht, htrace⟩ ⟨hevent, hmembers, hone, hround⟩
  exact ⟨step_leaderInv hideal hproper ht rfl hevent nofun hmembers hone,
    (step_hasQuorum hideal ht rfl hevent hround).forall_mem htrace⟩

end Consensus

namespace Concrete

open Consensus

/-- The round of block 5 ends with the block committed by a quorum. -/
theorem leader_finality_round5 :
    (∃ e ∈ (Run.run step leader5 round5).trace, e.action.commits = some (blk 5 0 0)) ∧
    ∀ e ∈ (Run.run step leader5 round5).trace, ∀ b, e.action.commits = some b →
      HasCommitQuorum e.decider b :=
  ⟨by decide +kernel, leader_finality idealHash committeesProper leaderStart_leader5
    (steps_round5.mono fun _ _ h => ⟨h.1, h.2.2.1, h.2.2.2.1, h.2.2.2.2⟩)⟩

/-- The grace period of block 5 ends after block 6 is announced: block 6 is committed without
    a single commit vote. -/
theorem grace_period_without_votes :
    ∃ e ∈ (Run.run step leader5 (round5 ++ [proposed 6, .task order 1])).trace,
      e.action.commits = some (blk 6 0 0) ∧ e.decider.signersCount .commit = 0 ∧
        ¬ HasCommitQuorum e.decider (blk 6 0 0) := by
  decide +kernel

end Concrete

end Benzene
