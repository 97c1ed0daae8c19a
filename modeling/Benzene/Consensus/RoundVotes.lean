import Benzene.Consensus.VoteMirror

/-!
# Votes of the round in progress

The block number, the block hash and the ballots of a leader are changed by different events:
proposals, votes, commits and the two sync signals.  Only a commit and a change of committee reset
the ballots.

* `InRound`: a ballot has the current number and hash, and its signature verifies for that block.
* `RoundStep`: the condition on an event.  `onPrepare` compares neither the number nor the hash of
  the message, `onCommit` not the hash, a proposal is announced whatever votes there are, and the
  sync signals move the number.
* `votes_in_round`: in a run of events that meet the condition all ballots are of the round.
-/

namespace Benzene

variable {E : Env}

namespace Consensus

/-! ## Ballots of a round -/

/-- The ballot belongs to the round of the node. -/
structure InRound (s : Consensus E) (p : Phase) (ballot : Ballot) : Prop where
  height : ballot.height = s.blockNum
  blockHeaderHash : ballot.blockHeaderHash = s.blockHash
  verifies : ∃ sig payload, E.bls.deserialize ballot.signature = some sig ∧ s.PayloadOf p payload ∧
    E.bls.verifyHash sig (E.bls.keySum ballot.signerPubKeys) payload = true

/-- Every prepare and commit ballot belongs to the round. -/
def VotesInRound (s : Consensus E) : Prop :=
  ∀ p, p ≠ .viewChange → ∀ k ballot, (s.decider.ballotBox p).lookup k = some ballot →
    s.InRound p ballot

/-- There are no ballots. -/
def NoBallots (s : Consensus E) : Prop := s.decider.prepare = ∅ ∧ s.decider.commit = ∅

/-- The events of a leader: votes, proposals, goroutines, the sync signals, and blocks that come
    into the chain by state sync. -/
def IsRoundEvent : NodeEvent E → Prop
  | .message _ msg _ => msg.type = .prepare ∨ msg.type = .commit
  | _ => True

/-- The condition on an event. -/
def RoundStep (s : Consensus E) : NodeEvent E → Prop
  | .message _ msg _ => ∀ m, s.parseFBFTMessage msg = .ok m →
      (msg.type = .prepare → (s.prepareChecks m).isSome →
        m.blockNum = s.blockNum ∧ m.blockHash = s.blockHash) ∧
      (msg.type = .commit → (s.commitChecks m).isSome → m.blockHash = s.blockHash)
  | .propose _ newBlock => s.blockNum ≤ newBlock.numberU64 →
      newBlock.numberU64 = s.blockNum ∧ (s.NoBallots ∨ E.blockHash newBlock = s.blockHash)
  | .syncReady => s.blockNum < (E.currentHeader s.blockchain).numberU64 + 1 →
      (s.block = [] ∧ s.NoBallots) ∨
      (committeeToSet { s with blockNum := (E.currentHeader s.blockchain).numberU64 + 1 }).isSome
  | .syncNotReady => s.blockNum = (E.currentHeader s.blockchain).numberU64 + 1 ∨
      (s.block = [] ∧ s.NoBallots)
  | .task _ _ | .takeBlockNumLow | .chainChanged _ => True

/-! ## The invariant -/

/-- The ballots, the announced block and the log of a leader. -/
structure RoundVotesInv (s : Consensus E) : Prop where
  holds : Holds leaderTasks s
  current : ∀ b, E.decodeBlock s.block = some b →
    E.blockHash b = s.blockHash ∧ b.numberU64 = s.blockNum
  votes : VotesInRound s

variable {s s' : Consensus E} {p : Phase}

theorem InRound.congr {ballot : Ballot} (hnum : s'.blockNum = s.blockNum)
    (hhash : s'.blockHash = s.blockHash) (h : s.InRound p ballot) : s'.InRound p ballot := by
  obtain ⟨hheight, hheader, sig, payload, hsig, hpayload, hverify⟩ := h
  exact ⟨hheight.trans hnum.symm, hheader.trans hhash.symm, sig, payload, hsig,
    hpayload.congr hhash, hverify⟩

/-- The step leaves the round alone. -/
theorem RoundVotesInv.of_same (h : RoundVotesInv s)
    (hsame : (s'.decider, s'.blockNum, s'.blockHash, s'.block) =
      (s.decider, s.blockNum, s.blockHash, s.block))
    (hgrows : Grows leaderTasks s s') : RoundVotesInv s' := by
  obtain ⟨hdecider, hnum, hhash, hblock⟩ : _ ∧ _ ∧ _ ∧ _ := by
    simpa only [Prod.mk.injEq] using hsame
  refine ⟨hgrows.holds h.holds, fun b hb => ?_, fun p hp k ballot hlookup => ?_⟩
  · rw [hblock] at hb
    rw [hhash, hnum]
    exact h.current b hb
  · rw [hdecider] at hlookup
    exact (h.votes p hp k ballot hlookup).congr hnum hhash

theorem votesInRound_of_noBallots (h : s.NoBallots) : VotesInRound s := by
  intro p hp k ballot hlookup
  cases p with
  | prepare => simp [Decider.ballotBox, h.1] at hlookup
  | commit => simp [Decider.ballotBox, h.2] at hlookup
  | viewChange => exact absurd rfl hp

section

variable (h : RoundVotesInv s)

include h

/-- A vote for the number and the hash of the round, with a signature over its payload. -/
theorem RoundVotesInv.record {keys : List E.PubKey} {sig : E.Sign} {headerHash : Hash}
    {height viewID : UInt64} {decider : Decider E.bls} {ballot : Ballot} {payload : Bytes}
    (hvote : s.decider.addNewVote p keys sig headerHash height viewID = .ok (decider, ballot))
    (hheight : height = s.blockNum) (hhash : headerHash = s.blockHash)
    (hpayload : s.PayloadOf p payload)
    (hsig : sig = E.bls.sigOf payload (keys.map (·.object)).sum) :
    RoundVotesInv { s with decider := decider } := by
  refine ⟨⟨h.holds.messages, h.holds.blocks, h.holds.tasks⟩, h.current, fun q hq k b hlookup => ?_⟩
  obtain ⟨hballot, -, hdecider⟩ := addNewVote_eq_ok hvote
  refine InRound.congr rfl rfl (s := s) ?_
  by_cases hqp : q = p
  · subst hqp
    have hbox : (({ s with decider := decider } : Consensus E).decider.ballotBox q) =
        GoMap.insertAll (s.decider.ballotBox q) (keys.map (·.bytes)) ballot := by
      rw [hdecider]
      exact ballotBox_setBallotBox _ _ _
    rw [hbox, GoMap.lookup_insertAll] at hlookup
    split_ifs at hlookup with hk
    · obtain rfl := Option.some.inj hlookup
      rw [hballot]
      refine ⟨hheight, hhash, sig, payload, E.bls.deserialize_serialize sig, hpayload, ?_⟩
      rw [E.bls.verifyHash_iff, E.bls.keySum_bytes]
      exact hsig
    · exact h.votes q hq k b hlookup
  · have hbox : (({ s with decider := decider } : Consensus E).decider.ballotBox q) =
        s.decider.ballotBox q := by
      rw [hdecider]
      cases p <;> cases q <;> first | rfl | exact absurd rfl hqp
    rw [hbox] at hlookup
    exact h.votes q hq k b hlookup

/-- The next round starts without ballots and without a block. -/
theorem SetUp.roundVotesInv {block : Block} {sender : E.PubKey} (hset : SetUp block sender s s') :
    RoundVotesInv s' where
  holds := hset.grows.holds h.holds
  current b hb := by
    rw [hset.block, E.decodeBlock_nil] at hb
    cases hb
  votes := votesInRound_of_noBallots ⟨hset.prepare, hset.commit⟩

theorem RoundVotesInv.setBitmap (mask : E.Mask) (p : Phase) :
    RoundVotesInv (s.setBitmap mask p) := by
  cases p <;> exact h.of_same rfl (Grows.of_eq rfl rfl)

theorem RoundVotesInv.of_move {G : Consensus E → Prop} (hmove : Move G s s') :
    RoundVotesInv s' := by
  cases hmove with
  | frame hf => exact h.of_same (by rw [hf.eq]) hf.grows.leaderTasks
  | logPrepared order key =>
    exact h.of_same rfl (Grows.of_log (FBFTLog.Grows.addVerifiedMessage trivial) rfl)
  | @refused p key mask => exact h.setBitmap mask p
  | @voted p keys sig mask block decider ballot hp hdecode hmask hsig hvote =>
    obtain ⟨hhash, hnum⟩ := h.current block hdecode
    exact (h.record hvote hnum hhash (payloadOf_votePayload hp hhash) hsig).setBitmap mask p
  | setUp hblock hset => exact hset.roundVotesInv h

theorem RoundVotesInv.path (hpath : Path (fun _ => True) s s') : RoundVotesInv s' :=
  hpath.keeps (fun ht hmove => ht.of_move hmove) h

/-! ## The handlers -/

/-- A proposal of the current number, while there are no ballots or for the same block. -/
theorem RoundVotesInv.announce (order : MapOrder E) {block : Block}
    (hnum : block.numberU64 = s.blockNum) (hfresh : s.NoBallots ∨ E.blockHash block = s.blockHash) :
    RoundVotesInv (s.announce order block) := by
  rcases s.announce_path order block with heq | ⟨enc, hencode, hpath⟩
  · rw [heq]
    exact h
  · refine RoundVotesInv.path (s := { s with blockHash := E.blockHash block, block := enc })
      ⟨⟨h.holds.messages, h.holds.blocks, h.holds.tasks⟩, fun b hb => ?_, ?_⟩ hpath
    · have hdecode := E.decodeBlock_encodeBlock _ _ hencode
      obtain rfl := Option.some.inj (hdecode.symm.trans hb)
      exact ⟨rfl, hnum⟩
    · rcases hfresh with hnone | hsame
      · exact votesInRound_of_noBallots hnone
      · exact fun p hp k b hlookup => InRound.congr (s := s) rfl hsame (h.votes p hp k b hlookup)

/-- A PREPARE that passes the checks is signed for the current hash; its number and its hash are
    not checked. -/
theorem RoundVotesInv.onPrepare (order : MapOrder E) {m : FBFTMessage E}
    (hround : (s.prepareChecks m).isSome → m.blockNum = s.blockNum ∧ m.blockHash = s.blockHash) :
    RoundVotesInv (s.onPrepare order m) := by
  rcases s.onPrepare_cases order m with heq | ⟨sign, decider, ballot, hchecks, hvote, hrest⟩
  · rw [heq]
    exact h
  obtain ⟨hnum, hhash⟩ := hround (Option.isSome_iff_exists.2 ⟨sign, hchecks⟩)
  have hpayload : s.PayloadOf .prepare s.blockHash.toList := rfl
  have hrecord : RoundVotesInv { s with decider := decider } :=
    h.record hvote hnum hhash hpayload (prepareChecks_eq_some hchecks).2.2
  rcases hrest with ⟨-, heq⟩ | ⟨mask, t, -, rfl, hrest⟩
  · rw [heq]
    exact hrecord
  · exact (hrecord.setBitmap mask .prepare).path (onPrepare_path (fun _ => trivial) hrest)

/-- A COMMIT that passes the checks has the current number and is signed for the block of its own
    hash. -/
theorem RoundVotesInv.onCommit (order : MapOrder E) {m : FBFTMessage E}
    (hround : (s.commitChecks m).isSome → m.blockHash = s.blockHash) :
    RoundVotesInv (s.onCommit order m) := by
  rcases s.onCommit_cases order m with heq | ⟨sign, block, decider, ballot, hchecks, -, hvote,
    hrest⟩
  · rw [heq]
    exact h
  obtain ⟨hnum, -, hblock, hsign⟩ := commitChecks_eq_some hchecks
  have hhash := hround (Option.isSome_iff_exists.2 ⟨_, hchecks⟩)
  have hpayload : s.PayloadOf .commit (E.commitPayload block) :=
    ⟨block, (h.holds.blocks _ _ hblock).1.trans hhash, rfl⟩
  have hrecord : RoundVotesInv { s with decider := decider } :=
    h.record hvote hnum hhash hpayload hsign
  rcases hrest with ⟨-, heq⟩ | ⟨mask, -, heq⟩
  all_goals rw [heq]
  · exact hrecord
  · exact (hrecord.setBitmap mask .commit).path (afterCommitVote_path _ order _ block)

/-! ## Sync signals and goroutines -/

/-- The number moves while nothing is announced and there are no ballots. -/
theorem RoundVotesInv.move (hidle : s.block = [] ∧ s.NoBallots) (number : UInt64) :
    RoundVotesInv { s with blockNum := number } := by
  refine ⟨⟨h.holds.messages, h.holds.blocks, h.holds.tasks⟩, fun b hb => ?_,
    votesInRound_of_noBallots hidle.2⟩
  rw [show ({ s with blockNum := number } : Consensus E).block = [] from hidle.1,
    E.decodeBlock_nil] at hb
  cases hb

theorem RoundVotesInv.syncReady (hok : RoundStep s .syncReady) : RoundVotesInv s.syncReady := by
  unfold Consensus.syncReady
  dsimp only
  split_ifs with hnew
  · have hcond := hok hnew
    set t : Consensus E := { s with blockNum := (E.currentHeader s.blockchain).numberU64 + 1 }
    suffices hinfo : RoundVotesInv t.updateConsensusInformation.1 from
      hinfo.of_same rfl (Grows.of_eq rfl rfl)
    rcases t.updateConsensusInformation_cases with ⟨hnone, heq⟩ | ⟨c, trace, -, -, heq⟩
    · rw [heq]
      refine h.move (hcond.resolve_right fun hsome => ?_) _
      rw [hnone] at hsome
      cases hsome
    · -- a change of committee resets the state
      rw [heq, updatePublicKeys_eq]
      refine ⟨⟨h.holds.messages, h.holds.blocks, h.holds.tasks⟩, fun b hb => ?_,
        votesInRound_of_noBallots ⟨rfl, rfl⟩⟩
      exact absurd ((E.decodeBlock_nil).symm.trans hb) (by simp)
  · exact h

theorem RoundVotesInv.syncNotReady (hok : RoundStep s .syncNotReady) :
    RoundVotesInv s.syncNotReady := by
  rcases hok with hsame | hidle
  · exact h.of_same (by rw [hsame]; rfl) (Grows.of_eq rfl rfl)
  · exact (h.move hidle _).of_same rfl (Grows.of_eq rfl rfl)

end

/-! ## Runs -/

theorem Dispatch.roundVotesInv {e : NodeEvent E} (hd : Dispatch s e s') (h : RoundVotesInv s)
    (hevent : IsRoundEvent e) (hok : RoundStep s e) : RoundVotesInv s' := by
  have hdrop : ∀ i, RoundVotesInv (s.dropTask i) := fun i =>
    h.of_same rfl (dropTask_grows s i)
  cases hd with
  | idle heq =>
    rw [heq]
    exact h.of_same rfl (Grows.of_eq rfl rfl)
  | dropTask => exact hdrop _
  | announce _ _ htype | prepared _ _ htype | committed _ _ htype =>
    simp [IsRoundEvent, htype] at hevent
  | prepare hparse htype => exact h.onPrepare _ ((hok _ hparse).1 htype)
  | commit hparse htype => exact h.onCommit _ ((hok _ hparse).2 htype)
  | propose hlt =>
    obtain ⟨hnum, hfresh⟩ := hok (UInt64.not_lt.1 hlt)
    exact h.announce _ hnum hfresh
  | preCommit _ =>
    rw [(runPreCommit_spec _ _ _).1]
    exact (hdrop _).of_same rfl (Grows.of_log (.addVerifiedMessage trivial) rfl)
  | gracePeriod _ => exact (hdrop _).path (finalCommit_path _ _)
  | followUpStart hget | followUp hget => exact (h.holds.tasks _ (List.mem_of_getElem? hget)).elim
  | syncReady => exact h.syncReady hok
  | syncNotReady => exact h.syncNotReady hok
  | takeBlockNumLow | chainChanged => exact h.of_same rfl (Grows.of_eq rfl rfl)

theorem LeaderStart.roundVotesInv (h : LeaderStart s) : RoundVotesInv s := by
  obtain ⟨t, keys, hstart, -, rfl⟩ := h
  rw [updatePublicKeys_eq]
  have hholds := hstart.holds (leaderTasks (E := E))
  refine ⟨⟨hholds.messages, hholds.blocks, hholds.tasks⟩, fun b hb => ?_,
    votesInRound_of_noBallots ⟨rfl, rfl⟩⟩
  exact absurd ((E.decodeBlock_nil).symm.trans hb) (by simp)

/-- **Votes of the round.**  In every run of a leader from a new node, over proposals, votes,
    goroutines and sync signals whose events all meet `RoundStep`, in every state of the run every
    prepare and commit ballot has the current block number and block hash, and its signature
    verifies for that block under the sum of its signers. -/
theorem votes_in_round (s : Consensus E) (hstart : LeaderStart s) (es : List (NodeEvent E))
    (hevents : ∀ e ∈ es, IsRoundEvent e) (hes : Run.Steps step RoundStep s es) :
    ∀ pre, pre <+: es → VotesInRound (Run.run step s pre) := by
  rintro pre ⟨post, rfl⟩
  have hsteps : Run.Steps step (fun t e => IsRoundEvent e ∧ RoundStep t e) s pre := by
    refine Run.Steps.of_prefix fun pre' e hpre => ⟨hevents e ?_, ?_⟩
    · exact List.mem_append_left _ (hpre.subset (by simp))
    · obtain ⟨rest, rfl⟩ := hpre
      have hsplit : Run.Steps step RoundStep s (pre' ++ e :: (rest ++ post)) := by simpa using hes
      exact hsplit.ok_at
  exact (Run.run_invariant RoundVotesInv (fun t e ht hok =>
    (t.step_dispatch e).roundVotesInv ht hok.1 hok.2) hstart.roundVotesInv hsteps).votes

end Consensus

namespace Concrete

open Consensus

/-- Block 5 is announced and two members vote. -/
theorem votes_in_round_five :
    VotesInRound (Run.run step leader5 [proposed 5, prepareVote 2 5, prepareVote 3 5]) := by
  refine votes_in_round leader5 leaderStart_leader5 [proposed 5, prepareVote 2 5, prepareVote 3 5]
    ?_ ?_ _ List.prefix_rfl
  · simp [IsRoundEvent, proposed, prepareVote, deliver, prepareMsg]
  · have hvote : ∀ (s : Consensus env) (member : UInt8), s.blockNum = 5 →
        s.blockHash = env.blockHash (blk 5 0 0) → RoundStep s (prepareVote member 5) := by
      intro s member hnum hhash m hm
      obtain ⟨req, hreq, -, -, hmnum, hmhash⟩ := parseFBFTMessage_eq_ok hm
      obtain rfl := Option.some.inj hreq
      refine ⟨fun _ _ => ⟨hmnum.trans hnum.symm, ?_⟩, fun htype => by cases htype⟩
      rw [hmhash, hhash]
      exact copyBytes_toList _
    refine ⟨fun _ => ⟨by decide +kernel, Or.inl ⟨rfl, rfl⟩⟩, hvote _ 2 ?_ ?_, hvote _ 3 ?_ ?_,
      trivial⟩
    all_goals decide +kernel

/-- A PREPARE for block 5 that names the number 7 is recorded with the height 7 by a leader at
    block 5; and after a second proposal for block 5 the own ballot is for the first. -/
theorem votes_of_other_rounds :
    (∃ b, ((Run.run step leader5 [proposed 5,
        deliver (prepareMsg 2 (blk 5 0 0) 7) 2]).decider.prepare.lookup (pub 2).bytes) = some b ∧
      b.height ≠ (Run.run step leader5 [proposed 5,
        deliver (prepareMsg 2 (blk 5 0 0) 7) 2]).blockNum) ∧
    ∃ b, ((Run.run step leader5 [proposed 5,
        .propose order (blk 5 1 0)]).decider.prepare.lookup (pub 1).bytes) = some b ∧
      b.blockHeaderHash ≠ (Run.run step leader5 [proposed 5,
        .propose order (blk 5 1 0)]).blockHash := by
  refine ⟨⟨_, (Option.some_get ?_).symm, ?_⟩, ⟨_, (Option.some_get ?_).symm, ?_⟩⟩
  all_goals decide +kernel

end Concrete

end Benzene
