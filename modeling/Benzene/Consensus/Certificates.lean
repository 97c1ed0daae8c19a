import Benzene.Consensus.LeaderVotes

/-!
# The certificates of the leader

A PREPARED or COMMITTED message carries the aggregate of the ballots and the bitmap of the
phase.  The two are updated apart from each other, `onPrepare` and `onCommit` record a ballot
before they know that the bits can be set, and `announce` replaces the block hash that the
ballots are over.

* `accepted_of_votes`: valid ballots of a quorum are accepted; `LeaderInv` keeps them valid.
* `certificates_accepted`: in every run of a leader whose steps meet `VotesOfMembers` and
  `OneBlockPerRound`, every certificate built with a quorum passes the checks of a validator
  with the same committee.
* `certificate_with_outsider`: the vote of a key outside the committee makes the certificate
  unusable.
-/

namespace Benzene

variable {E : Env}

/-! ## Accepted certificates -/

/-- Every node with the committee takes the certificate for one over the payload. -/
def Accepted (committee : List E.PubKey) (certificate payload : Bytes) : Prop :=
  ∀ v : Consensus E, v.decider.publicKeys = committee →
    v.acceptsCertificate certificate payload = true

variable {mask : E.Mask}

/-- A bitmap that is read into a fresh mask marks the same keys. -/
theorem setMask_tracks {committee : List E.PubKey} {A : Finset SerializedPublicKey}
    (h : Tracks E.masks committee A mask) :
    ∃ mask', E.masks.setMask (E.masks.newMask committee) (E.masks.bitmap mask) = some mask' ∧
      Tracks E.masks committee A mask' := by
  have hlength : (E.masks.bitmap mask).length =
      (E.masks.bitmap (E.masks.newMask committee)).length := by
    rw [E.masks.bitmap_length, E.masks.bitmap_length, E.masks.newMask_publics, h.publics]
  obtain ⟨mask', hset⟩ := Option.isSome_iff_exists.1 ((E.masks.setMask_isSome _ _).2 hlength)
  refine ⟨mask', hset, Tracks.of_bit ?_ fun i hi => ?_⟩
  · exact (E.masks.setMask_publics _ _ _ hset).trans (E.masks.newMask_publics _)
  · rw [E.masks.setMask_bit _ _ _ i hset (by rwa [E.masks.newMask_publics])]
    exact h.marks.bit i hi

/-- Valid ballots of a quorum, with the bitmap of their keys, are accepted. -/
theorem accepted_of_votes {d : Decider E.bls} {p : Phase} {payload : Bytes} (order : MapOrder E)
    (hnd : (d.publicKeys.map (·.bytes)).Nodup)
    (hvotes : BallotBox.Valid d.publicKeys payload (d.ballotBox p))
    (hmask : Tracks E.masks d.publicKeys (d.signers p) mask)
    (hquorum : d.isQuorumAchieved p = true) :
    Accepted d.publicKeys
      (E.bls.serialize (d.aggregateVotes order.ballots p) ++ E.masks.bitmap mask) payload := by
  intro v hv
  obtain ⟨mask', hset, htracks⟩ := setMask_tracks hmask
  have hread : v.readSignatureBitmapPayload (E.bls.serialize (d.aggregateVotes order.ballots p) ++
      E.masks.bitmap mask) = some (d.aggregateVotes order.ballots p, mask') := by
    rw [Consensus.readSignatureBitmapPayload_append, Decider.participants, hv, hset]
    rfl
  simp only [Consensus.acceptsCertificate, hread, Bool.and_eq_true]
  constructor
  · rw [isQuorumAchieved_iff] at hquorum
    rw [isQuorumAchievedByMask_iff v.decider (A := d.signers p)]
    · rwa [hv]
    · rwa [hv]
    · rw [hv]
      exact hvotes.signers_subset
    · rw [hv]
      exact htracks.marks
  · exact verifyHash_of_tracks d order.ballots_perm hvotes hnd htracks

/-- A certificate built with a quorum is accepted: a PREPARED one for the hash of the message,
    a COMMITTED one for the commit payload of its block. -/
def Entry.Acceptable (e : Entry E) : Prop := ∀ m, e.action = .constructed m →
  (m.messageType = .prepared → e.decider.isQuorumAchieved .prepare = true →
    Accepted e.decider.publicKeys m.payload m.blockHash.toList) ∧
  (m.messageType = .committed → e.decider.isQuorumAchieved .commit = true →
    (∃ b, E.blockHash b = m.blockHash) ∧ ∀ b, E.blockHash b = m.blockHash →
      Accepted e.decider.publicKeys m.payload (E.commitPayload b))

namespace Consensus

variable {s s' : Consensus E} {ks : List ActionKind} {ph : Phase → Prop}

/-! ## Building certificates -/

/-- An own PREPARED message is acceptable. -/
theorem acceptable_prepared (hinv : LeaderInv ph s) (hph : ph .prepare) (order : MapOrder E)
    (key : E.PriKey) (bn : UInt64) :
    Entry.Acceptable ⟨.constructed (s.ownMessage order .prepared [] key), bn, s.decider⟩ := by
  intro m hm
  obtain rfl := Action.constructed.inj hm
  refine ⟨fun _ hquorum => ?_, fun htype => by cases htype⟩
  have hv := hinv.phases .prepare (by simp) hph
  exact accepted_of_votes order hinv.committee.nodup (hv.votes _ rfl) hv.mask hquorum

/-- An own COMMITTED message is acceptable. -/
theorem acceptable_committed (hinv : LeaderInv ph s) (hph : ph .commit) (order : MapOrder E)
    (key : E.PriKey) (bn : UInt64) :
    Entry.Acceptable ⟨.constructed (s.ownMessage order .committed [] key), bn, s.decider⟩ := by
  intro m hm
  obtain rfl := Action.constructed.inj hm
  refine ⟨fun htype => (by cases htype), fun _ hquorum => ⟨?_, fun b hb => ?_⟩⟩
  · rcases hinv.current with ⟨-, -, hnone⟩ | ⟨b, hb⟩
    · have hvotes := nonempty_of_isQuorumAchieved hquorum
      rw [hnone] at hvotes
      exact absurd hvotes Finset.not_nonempty_empty
    · exact ⟨b, hb.hash⟩
  · have hv := hinv.phases .commit (by simp) hph
    exact accepted_of_votes order hinv.committee.nodup (hv.votes _ ⟨b, hb, rfl⟩) hv.mask hquorum

theorem acceptable_of_kind {e : Entry E} (h : e.action.kind ≠ .constructed) : e.Acceptable := by
  intro m hm
  rw [hm] at h
  exact absurd rfl h

theorem Acts.acceptable (h : Acts .any ks s s') (hks : ActionKind.constructed ∉ ks) :
    Emits Entry.Acceptable s s' :=
  h.emits.mono fun _ he => acceptable_of_kind fun hkind => hks (hkind ▸ he)

theorem didReachPrepareQuorum_acceptable (hinv : LeaderInv ph s) (hph : ph .prepare)
    (order : MapOrder E) : Emits Entry.Acceptable s (s.didReachPrepareQuorum order).1 := by
  rcases s.didReachPrepareQuorum_cases order with heq | ⟨key, network, -, -, hmsg, heq⟩
  · rw [heq]
    exact Emits.refl s
  · have hlog : Emits Entry.Acceptable s (s.logOwnPrepared network.fbftMsg) := by
      refine ⟨[_, _], rfl, List.forall_mem_cons.2 ⟨?_, List.forall_mem_singleton.2 ?_⟩⟩
      · exact acceptable_of_kind ActionKind.noConfusion
      · rw [hmsg]
        exact acceptable_prepared hinv hph order key _
    have hvote : ∀ block, Emits Entry.Acceptable s
        ((s.logOwnPrepared network.fbftMsg).voteCommit block).1 := by
      intro block
      refine hlog.trans ((voteCommit_spec _ block).emits.mono ?_)
      rintro e ⟨-, key', -, haction⟩
      refine acceptable_of_kind ?_
      rw [haction]
      exact ActionKind.noConfusion
    rcases heq with ⟨-, heq⟩ | ⟨block, -, heq | heq⟩
    all_goals rw [heq]
    · exact hlog
    · exact hvote block
    · exact (hvote block).trans (Emits.emit _ (acceptable_of_kind ActionKind.noConfusion))

theorem onPrepare_acceptable (hideal : E.IdealHash) (hinv : LeaderInv ph s) (hph : ph .prepare)
    (order : MapOrder E) (m : FBFTMessage E) : Emits Entry.Acceptable s (s.onPrepare order m) := by
  rcases s.onPrepare_cases order m with heq | ⟨sign, decider, ballot, hchecks, hvote, ⟨-, heq⟩ |
    ⟨mask, t, hmask, rfl, heq | ⟨-, phase, heq⟩⟩⟩
  · rw [heq]
    exact Emits.refl s
  · rw [heq]
    exact Emits.of_trace_eq rfl
  · rw [heq]
    exact Emits.of_trace_eq rfl
  · have hst : Emits Entry.Acceptable s { s with decider := decider, prepareBitmap := mask } :=
      Emits.of_trace_eq rfl
    rw [heq]
    exact (hst.trans (didReachPrepareQuorum_acceptable
      (hinv.record_prepare_vote hideal hchecks hvote hmask) hph order)).trans
      (Emits.of_trace_eq rfl)

theorem finalCommit_acceptable (hinv : LeaderInv ph s) (hph : ph .commit) (order : MapOrder E) :
    Emits Entry.Acceptable s (s.finalCommit order) := by
  refine finalCommit_emits (acceptable_committed hinv hph order)
    (fun e he => acceptable_of_kind (by grind)) fun block e _ hcommits _ m hm => ?_
  rw [hm] at hcommits
  cases hcommits

theorem step_acceptable (hideal : E.IdealHash) (hinv : LeaderInv ph s) (hph : ∀ p, ph p)
    {e : NodeEvent E} (hevent : IsLeaderEvent e) : Emits Entry.Acceptable s (s.step e) := by
  have hsame : ∀ i, Emits Entry.Acceptable s (s.dropTask i) := fun _ => Emits.of_trace_eq rfl
  rcases step_leader_cases hinv hevent with ⟨-, htrace⟩ | ⟨order, msg, senderKey, m, rfl, -,
    ⟨-, heq⟩ | ⟨-, heq⟩⟩ | ⟨order, newBlock, rfl, -, heq⟩ | ⟨order, i, network, blk, -, -, heq⟩ |
    ⟨order, i, viewID, -, -, heq⟩
  · exact Emits.of_trace_eq htrace
  all_goals rw [heq]
  · exact onPrepare_acceptable hideal hinv (hph _) order m
  · exact onCommit_emits hideal hinv order m fun _ ht => afterCommitVote_emits
      (acceptable_committed ht (hph _) order) fun _ => finalCommit_acceptable ht (hph _) order
  · exact (announce_quiet order (fun _ _ _ => trivial) trivial).toActs.acceptable (by decide)
  · exact (hsame i).trans ((runPreCommit_quiet blk trivial).toActs.acceptable (by simp))
  · exact (hsame i).trans (finalCommit_acceptable (hinv.eraseTask i) (hph _) order)

/-- **Certificates.** In every run of a leader in which votes come from members and a second
    block is announced only before the first vote, every PREPARED or COMMITTED message built
    with a quorum of its phase is accepted by every node with the same committee. -/
theorem certificates_accepted (hideal : E.IdealHash) (hproper : CommitteesProper E)
    (hstart : LeaderStart s) {es : List (NodeEvent E)}
    (hes : Run.Steps step (fun s e => IsLeaderEvent e ∧ VotesOfMembers .prepare s e ∧
      VotesOfMembers .commit s e ∧ OneBlockPerRound s e) s es) :
    ∀ e ∈ (Run.run step s es).trace, e.Acceptable := by
  have hinit : ∀ e ∈ s.trace, e.Acceptable := by
    rw [hstart.trace]
    exact List.forall_mem_nil _
  refine (Run.run_invariant (fun t => LeaderInv (fun _ => True) t ∧ ∀ e ∈ t.trace, e.Acceptable) ?_
    ⟨hstart.leaderInv, hinit⟩ hes).2
  rintro t e ⟨hinv, htrace⟩ ⟨hevent, hprepare, hcommit, hone⟩
  exact ⟨step_leaderInv hideal hproper hinv trivial hevent (fun _ => hprepare) hcommit hone,
    (step_acceptable hideal hinv (fun _ => trivial) hevent).forall_mem htrace⟩

end Consensus

namespace Concrete

open Consensus

/-- The round of block 5: a PREPARED and two COMMITTED messages are built, and are accepted. -/
theorem certificates_accepted_round5 :
    (∃ e ∈ (Run.run step leader5 round5).trace, e.action.kind = .constructed) ∧
    ∀ e ∈ (Run.run step leader5 round5).trace, e.Acceptable :=
  ⟨by decide +kernel, certificates_accepted idealHash committeesProper leaderStart_leader5
    (steps_round5.mono fun _ _ h => ⟨h.1, h.2.1, h.2.2.1, h.2.2.2.1⟩)⟩

/-- The entry is a PREPARED message, built with a quorum, that a validator refuses. -/
def refused (v : Consensus env) (e : Entry env) : Bool :=
  match e.action with
  | .constructed m => m.messageType == .prepared && e.decider.isQuorumAchieved .prepare &&
      decide (v.decider.publicKeys = e.decider.publicKeys) &&
      !v.acceptsCertificate m.payload m.blockHash.toList
  | _ => false

theorem not_acceptable_of_refused {v : Consensus env} {e : Entry env} (h : refused v e = true) :
    ¬ e.Acceptable := by
  intro haccept
  unfold refused at h
  split at h
  · rename_i m hm
    simp only [Bool.and_eq_true, beq_iff_eq, decide_eq_true_eq, Bool.not_eq_true'] at h
    obtain ⟨⟨⟨htype, hquorum⟩, hkeys⟩, hrefuse⟩ := h
    rw [(haccept m hm).1 htype hquorum v hkeys] at hrefuse
    cases hrefuse
  · cases h

/-- Key 9 is not a member, but its ballot counts for the quorum and its signature goes into the
    certificate. -/
theorem certificate_with_outsider :
    ∃ e ∈ (Run.run step leader5 [proposed 5, prepareVote 9 5, prepareVote 2 5]).trace,
      ¬ e.Acceptable := by
  have hrefused : ∃ e ∈ (Run.run step leader5 [proposed 5, prepareVote 9 5, prepareVote 2 5]).trace,
      refused (node [2] 1 [1, 2, 3, 4] 5) e = true := by
    decide +kernel
  obtain ⟨e, he, hrefuse⟩ := hrefused
  exact ⟨e, he, not_acceptable_of_refused hrefuse⟩

end Concrete

end Benzene
