import Benzene.Consensus.LeaderVotes

/-!
# Ballots and bitmaps

A leader keeps the votes of a phase twice, as ballots of the decider and as bits of a mask.  The
handlers write the ballot first and the bits after it (consensus/leader.go:168-191 and 263-294),
and the second write fails for a key outside the committee, while the ballot stays.

* `MembersOnly`: the condition on a call, that a vote which it records is one of members.
* `ballots_mirrored_iff`: the votes are mirrored in every state of a run exactly when every call
  of it meets the condition.
* `quorum_of_outsiders`: a prepare quorum with one vote of the committee.
-/

namespace Benzene

variable {E : Env}

/-- The calls of a leader: the handlers, `ResetState`, and the goroutines of `onCommit`. -/
inductive LeaderCall (E : Env)
  | announce (order : MapOrder E) (block : Block)
  | onPrepare (order : MapOrder E) (recvMsg : FBFTMessage E)
  | onCommit (order : MapOrder E) (recvMsg : FBFTMessage E)
  | didReachPrepareQuorum (order : MapOrder E)
  | resetState
  | task (order : MapOrder E) (i : ℕ)

namespace Consensus

/-- The state after a call. -/
def call (s : Consensus E) : LeaderCall E → Consensus E
  | .announce order block => s.announce order block
  | .onPrepare order recvMsg => s.onPrepare order recvMsg
  | .onCommit order recvMsg => s.onCommit order recvMsg
  | .didReachPrepareQuorum order => (s.didReachPrepareQuorum order).1
  | .resetState => s.resetState
  | .task order i => s.schedule order i

/-- The prepare and the commit votes are mirrored, so a quorum is one of members, and all
    signatures are those of the whole committee. -/
structure BallotsMirrored (s : Consensus E) : Prop where
  mirrored : ∀ p, p ≠ .viewChange → s.Mirrored p
  quorum : ∀ p, p ≠ .viewChange → s.decider.isQuorumAchieved p = true →
    s.decider.twoThirdsSignersCount ≤
      ((committeeKeys s.decider.participants).filter (· ∈ s.decider.signers p)).card
  all : s.decider.isAllSigsCollected = true →
    ∀ k ∈ s.decider.participants, k.bytes ∈ s.decider.signers .commit

/-- A vote that the call records names members of the committee only. -/
def MembersOnly (s : Consensus E) : LeaderCall E → Prop
  | .onPrepare _ m => (s.prepareChecks m).isSome →
      s.decider.voteError .prepare [] (m.senderPubkeys.map (·.bytes)) = none →
      ∀ k ∈ m.senderPubkeys, k ∈ s.decider.participants
  | .onCommit _ m => (s.commitChecks m).isSome → s.couldThisBeADoubleSigner m = false →
      s.decider.voteError .commit [] (m.senderPubkeys.map (·.bytes)) = none →
      ∀ k ∈ m.senderPubkeys, k ∈ s.decider.participants
  | _ => True

/-! ## The invariant -/

/-- A proper committee, and its votes mirrored. -/
structure VotesInv (s : Consensus E) : Prop where
  committee : ProperCommittee s.decider.participants
  mirrored : ∀ p, p ≠ .viewChange → s.Mirrored p

variable {s s' : Consensus E}

theorem VotesInv.ballotsMirrored (h : VotesInv s) : BallotsMirrored s := by
  have hfilter : ∀ p, p ≠ .viewChange →
      (committeeKeys s.decider.participants).filter (· ∈ s.decider.signers p) =
        s.decider.signers p := by
    intro p hp
    rw [Finset.filter_mem_eq_inter, Finset.inter_eq_right]
    exact (h.mirrored p hp).members
  refine ⟨h.mirrored, fun p hp hquorum => ?_, fun hall k hk => ?_⟩
  · rw [hfilter p hp, ← s.decider.signersCount_eq_card p]
    exact of_decide_eq_true hquorum
  · have hcard : (s.decider.signers .commit).card =
        (committeeKeys s.decider.participants).card := by
      rw [← s.decider.signersCount_eq_card, committeeKeys_card h.committee.nodup]
      exact of_decide_eq_true hall
    rw [Finset.eq_of_subset_of_card_le (h.mirrored .commit (by simp)).members hcard.ge]
    exact mem_committeeKeys hk

theorem VotesInv.of_same (h : VotesInv s) (hsame : ∀ p, SameVotes p s s') : VotesInv s' := by
  obtain ⟨hkeys, -⟩ := Prod.mk.inj (hsame .prepare)
  exact ⟨hkeys ▸ h.committee, fun p hp => (h.mirrored p hp).congr (hsame p)⟩

variable {p : Phase} {keys : List E.PubKey} {m : FBFTMessage E} {height viewID : UInt64}
  {decider : Decider E.bls}

theorem tasks_setBitmap (p : Phase) (mask : E.Mask) : (s.setBitmap mask p).tasks = s.tasks := by
  cases p <;> rfl

/-- A vote whose ballot and bits are both written. -/
theorem VotesInv.record (h : VotesInv s) (hp : p ≠ .viewChange) {sig : E.Sign} {headerHash : Hash}
    {ballot : Ballot} {mask : E.Mask}
    (hvote : s.decider.addNewVote p keys sig headerHash height viewID = .ok (decider, ballot))
    (hmask : E.masks.setKeysAtomic (s.bitmap p) keys true = some mask) :
    VotesInv (({ s with decider := decider } : Consensus E).setBitmap mask p) := by
  refine ⟨?_, fun q hq => ?_⟩
  · have hkeys : decider.participants = s.decider.participants := addNewVote_publicKeys hvote
    rw [decider_setBitmap]
    exact hkeys ▸ h.committee
  · by_cases hqp : q = p
    · subst hqp
      exact (h.mirrored q hq).record hvote hq h.committee hmask
    · exact (h.mirrored q hq).congr (sameVotes_vote hvote hqp mask)

theorem VotesInv.setBitmap (h : VotesInv s) (hp : p ≠ .viewChange) {k : SerializedPublicKey}
    {mask : E.Mask} (hset : E.masks.setKey (s.bitmap p) k true = some mask)
    (hvoted : k ∈ s.decider.signers p) : VotesInv (s.setBitmap mask p) := by
  refine ⟨(s.decider_setBitmap p mask).symm ▸ h.committee, fun q hq => ?_⟩
  by_cases hqp : q = p
  · subst hqp
    exact (h.mirrored q hq).refused hq h.committee hset hvoted
  · exact (h.mirrored q hq).congr (sameVotes_setBitmap hqp mask)

theorem VotesInv.resetState (h : VotesInv s) : VotesInv s.resetState := by
  refine ⟨h.committee, fun p hp => NoVotes.phaseVotes ?_ |>.toMirrored⟩
  have hpublics := (h.mirrored p hp).mask.publics
  cases p with
  | prepare | commit => exact ⟨rfl, (E.masks.clear_publics _).trans hpublics, E.masks.clear_bit _⟩
  | viewChange => exact absurd rfl hp

/-! ## Runs -/

/-- The invariant of a run. -/
structure MirrorInv (s : Consensus E) : Prop where
  votes : VotesInv s
  tasks : ∀ t ∈ s.tasks, leaderTasks.task t

theorem MirrorInv.of_same (h : MirrorInv s) (hsame : ∀ p, SameVotes p s s')
    (htasks : s'.tasks = s.tasks) : MirrorInv s' :=
  ⟨h.votes.of_same hsame, htasks ▸ h.tasks⟩

theorem MirrorInv.move (hproper : CommitteesProper E) (h : MirrorInv s) {G : Consensus E → Prop}
    (hmove : Move G s s') : MirrorInv s' := by
  cases hmove with
  | frame hf =>
    exact ⟨h.votes.of_same hf.sameVotes, fun t ht => (hf.grows.tasks t ht).elim (h.tasks t) id⟩
  | logPrepared order key => exact h.of_same (fun _ => rfl) rfl
  | @refused p key mask hp hset hvoted =>
    exact ⟨h.votes.setBitmap hp hset hvoted, (tasks_setBitmap p mask).symm ▸ h.tasks⟩
  | @voted p keys sig mask block decider ballot hp hdecode hmask hsig hvote =>
    exact ⟨h.votes.record hp hvote hmask, (tasks_setBitmap p mask).symm ▸ h.tasks⟩
  | setUp hblock hset =>
    obtain ⟨hcommittee, hnone⟩ := hset.noVotes hproper h.votes.committee
    exact ⟨⟨hcommittee, fun p hp => (hnone p hp (h.votes.mirrored p hp)).phaseVotes.toMirrored⟩,
      hset.tasks ▸ h.tasks⟩

theorem MirrorInv.path (hproper : CommitteesProper E) (h : MirrorInv s)
    (hpath : Path (fun _ => True) s s') : MirrorInv s' :=
  hpath.keeps (fun ht hmove => ht.move hproper hmove) h

theorem MirrorInv.onPrepare (hproper : CommitteesProper E) (h : MirrorInv s) (order : MapOrder E)
    (hmembers : s.MembersOnly (.onPrepare order m)) : MirrorInv (s.onPrepare order m) := by
  rcases s.onPrepare_cases order m with heq | ⟨sign, decider, ballot, hchecks, hvote, hrest⟩
  · rw [heq]
    exact h
  have hmem := hmembers (Option.isSome_iff_exists.2 ⟨sign, hchecks⟩) (addNewVote_eq_ok hvote).2.1
  have hpublics := (h.votes.mirrored .prepare (by simp)).mask.publics
  rcases hrest with ⟨hnone, -⟩ | ⟨mask, t, hmask, rfl, hrest⟩
  · exact absurd hnone (setKeysAtomic_ne_none hpublics hmem)
  · have hrecord : VotesInv { s with decider := decider, prepareBitmap := mask } :=
      h.votes.record (by simp) hvote hmask
    exact MirrorInv.path hproper ⟨hrecord, h.tasks⟩ (onPrepare_path (fun _ => trivial) hrest)

/-- A suspicious vote is not recorded. -/
theorem onCommit_sameVotes_of_suspect {order : MapOrder E}
    (h : s.couldThisBeADoubleSigner m = true) :
    (∀ p, SameVotes p s (s.onCommit order m)) ∧ (s.onCommit order m).tasks = s.tasks := by
  unfold onCommit
  split
  · exact ⟨fun _ => rfl, rfl⟩
  · rename_i hchecks
    dsimp only
    rw [checkDoubleSign_of_no_ballot order (commitChecks_eq_some hchecks).2.1, h]
    exact ⟨fun _ => rfl, rfl⟩

theorem MirrorInv.onCommit (hproper : CommitteesProper E) (h : MirrorInv s) (order : MapOrder E)
    (hmembers : s.MembersOnly (.onCommit order m)) : MirrorInv (s.onCommit order m) := by
  by_cases hsuspect : s.couldThisBeADoubleSigner m = true
  · obtain ⟨hsame, htasks⟩ := onCommit_sameVotes_of_suspect hsuspect
    exact h.of_same hsame htasks
  rcases s.onCommit_cases order m with heq | ⟨sign, block, decider, ballot, hchecks, -, hvote,
    hrest⟩
  · rw [heq]
    exact h
  have hmem := hmembers (Option.isSome_iff_exists.2 ⟨_, hchecks⟩) (by simpa using hsuspect)
    (addNewVote_eq_ok hvote).2.1
  have hpublics := (h.votes.mirrored .commit (by simp)).mask.publics
  rcases hrest with ⟨hnone, -⟩ | ⟨mask, hmask, heq⟩
  · exact absurd hnone (setKeysAtomic_ne_none hpublics hmem)
  · have hrecord : VotesInv { s with decider := decider, commitBitmap := mask } :=
      h.votes.record (by simp) hvote hmask
    rw [heq]
    exact MirrorInv.path hproper ⟨hrecord, h.tasks⟩ (afterCommitVote_path _ order _ block)

theorem MirrorInv.task (hproper : CommitteesProper E) (h : MirrorInv s) (order : MapOrder E)
    (i : ℕ) : MirrorInv (s.schedule order i) := by
  have hdrop : MirrorInv (s.dropTask i) :=
    ⟨h.votes.of_same fun _ => rfl, fun t ht => h.tasks t (List.mem_of_mem_eraseIdx ht)⟩
  have hd := s.schedule_dispatch order i
  generalize s.schedule order i = s' at hd
  cases hd with
  | idle heq =>
    rw [heq]
    exact h.of_same (fun _ => rfl) rfl
  | dropTask => exact hdrop
  | preCommit _ =>
    rw [(runPreCommit_spec _ _ _).1]
    exact hdrop.of_same (fun _ => rfl) rfl
  | gracePeriod _ => exact hdrop.path hproper (finalCommit_path _ order)
  | followUpStart hget | followUp hget => exact (h.tasks _ (List.mem_of_getElem? hget)).elim

theorem MirrorInv.call (hproper : CommitteesProper E) (h : MirrorInv s) {c : LeaderCall E}
    (hmembers : s.MembersOnly c) : MirrorInv (s.call c) := by
  cases c with
  | announce order block =>
    dsimp only [Consensus.call]
    rcases s.announce_path order block with heq | ⟨enc, -, hpath⟩
    · rw [heq]
      exact h
    · have hset : MirrorInv { s with blockHash := E.blockHash block, block := enc } :=
        h.of_same (fun _ => rfl) rfl
      exact hset.path hproper hpath
  | onPrepare order m => exact h.onPrepare hproper order hmembers
  | onCommit order m => exact h.onCommit hproper order hmembers
  | didReachPrepareQuorum order => exact h.path hproper (didReachPrepareQuorum_path order trivial)
  | resetState => exact ⟨h.votes.resetState, h.tasks⟩
  | task order i => exact h.task hproper order i

theorem LeaderStart.mirrorInv (h : LeaderStart s) : MirrorInv s := by
  obtain ⟨hcommittee, hnone⟩ := h.noVotes
  obtain ⟨t, keys, hstart, -, rfl⟩ := h
  refine ⟨⟨hcommittee, fun p hp => (hnone p hp).phaseVotes.toMirrored⟩, ?_⟩
  rw [updatePublicKeys_eq]
  exact (hstart.holds leaderTasks).tasks

/-- A ballot of an outsider is recorded, and no bit is set. -/
theorem not_mirrored_of_outsider {sig : E.Sign} {headerHash : Hash} {ballot : Ballot}
    {k : E.PubKey} (hk : k ∈ keys) (hout : k ∉ s.decider.participants)
    (hvote : s.decider.addNewVote p keys sig headerHash height viewID = .ok (decider, ballot)) :
    ¬({ s with decider := decider } : Consensus E).Mirrored p := by
  intro hmirrored
  have hmem : k.bytes ∈ decider.signers p := by
    rw [addNewVote_signers hvote]
    exact Finset.mem_union_right _ (List.mem_toFinset.2 (List.mem_map_of_mem hk))
  obtain ⟨k', hk', hbytes⟩ := List.mem_map.1 (List.mem_toFinset.1 (hmirrored.members hmem))
  rw [show decider.participants = s.decider.participants from addNewVote_publicKeys hvote] at hk'
  exact hout (PublicKeyWrapper.eq_of_bytes hbytes ▸ hk')

theorem exists_addNewVote {d : Decider E.bls} (h : d.voteError p [] (keys.map (·.bytes)) = none)
    (sig : E.Sign) (headerHash : Hash) (height viewID : UInt64) :
    ∃ d' ballot, d.addNewVote p keys sig headerHash height viewID = .ok (d', ballot) := by
  unfold Decider.addNewVote Decider.submitVote
  rw [h]
  exact ⟨_, _, rfl⟩

/-- A mask over the participants does not take the key of an outsider. -/
theorem Mirrored.setKeysAtomic_eq_none (h : s.Mirrored p) {k : E.PubKey} (hk : k ∈ keys)
    (hout : k ∉ s.decider.participants) : E.masks.setKeysAtomic (s.bitmap p) keys true = none := by
  by_contra hsome
  obtain ⟨mask, hmask⟩ := Option.ne_none_iff_exists'.1 hsome
  exact hout (mem_of_setKeysAtomic h.mask.publics hmask k hk)

/-- A call that leaves the votes mirrored records votes of members only. -/
theorem membersOnly_of_mirrored {c : LeaderCall E} (h : BallotsMirrored s)
    (hcall : BallotsMirrored (s.call c)) : s.MembersOnly c := by
  cases c with
  | onPrepare order m =>
    intro hchecks hnew k hk
    by_contra hout
    obtain ⟨sign, hsign⟩ := Option.isSome_iff_exists.1 hchecks
    obtain ⟨decider, ballot, hvote⟩ := exists_addNewVote hnew sign m.blockHash m.blockNum m.viewID
    have hnone : E.masks.setKeysAtomic s.prepareBitmap m.senderPubkeys true = none :=
      (h.mirrored .prepare (by simp)).setKeysAtomic_eq_none hk hout
    have hstate : s.call (.onPrepare order m) = { s with decider := decider } := by
      simp only [call, Consensus.onPrepare, hsign, hvote, hnone]
    exact not_mirrored_of_outsider hk hout hvote (hstate ▸ hcall.mirrored .prepare (by simp))
  | onCommit order m =>
    intro hchecks hclean hnew k hk
    by_contra hout
    obtain ⟨⟨sign, block⟩, hsign⟩ := Option.isSome_iff_exists.1 hchecks
    obtain ⟨decider, ballot, hvote⟩ := exists_addNewVote hnew sign m.blockHash m.blockNum 0
    have hnone : E.masks.setKeysAtomic s.commitBitmap m.senderPubkeys true = none :=
      (h.mirrored .commit (by simp)).setKeysAtomic_eq_none hk hout
    have hcheck : s.checkDoubleSign order m = (s, false) := by
      unfold checkDoubleSign
      rw [hclean]
      rfl
    have hstate : s.call (.onCommit order m) = { s with decider := decider } := by
      simp only [call, Consensus.onCommit, hsign, hcheck, hvote, hnone,
        Bool.false_eq_true, if_false]
    exact not_mirrored_of_outsider hk hout hvote (hstate ▸ hcall.mirrored .commit (by simp))
  | announce | didReachPrepareQuorum | resetState | task => trivial

/-- **Ballots and bitmaps.**  In every run of a leader from a new node with a committee of distinct
    keys, with arbitrary messages: in every state of the run the keys with a prepare or a commit
    ballot are members and exactly those enabled in the bitmap of the phase, and the two quorum
    tests count members only, if and only if every vote that a call of the run records is one of
    members. -/
theorem ballots_mirrored_iff (hproper : CommitteesProper E) (s : Consensus E)
    (hstart : LeaderStart s) (calls : List (LeaderCall E)) :
    (∀ pre, pre <+: calls → BallotsMirrored (Run.run call s pre)) ↔
      Run.Steps call MembersOnly s calls := by
  constructor
  · intro h
    refine Run.Steps.of_prefix fun pre c hpre => ?_
    have hcall := h _ hpre
    rw [Run.run_concat] at hcall
    exact membersOnly_of_mirrored (h pre ((List.prefix_append _ _).trans hpre)) hcall
  · rintro h pre ⟨post, rfl⟩
    exact (Run.run_invariant MirrorInv (fun _ _ ht hok => ht.call hproper hok) hstart.mirrorInv
      h.of_append).votes.ballotsMirrored

end Consensus

namespace Concrete

open Consensus

/-- The PREPARE of a key for block 5, as the leader parses it. -/
def prepareFive (k : UInt8) : FBFTMessage env where
  messageType := .prepare
  viewID := 0
  blockNum := 5
  blockHash := env.blockHash (blk 5 0 0)
  block := []
  senderPubkeys := [pub k]
  senderPubkeyBitmap := []
  payload := bls.serialize (bls.signHash (key k).pri (env.blockHash (blk 5 0 0)).toList)
  verified := false

/-- The leader announces block 5, and a member votes. -/
theorem ballots_mirrored_two :
    BallotsMirrored (Run.run call leader5
      [.announce order (blk 5 0 0), .onPrepare order (prepareFive 2)]) := by
  refine (ballots_mirrored_iff committeesProper leader5 leaderStart_leader5
    [.announce order (blk 5 0 0), .onPrepare order (prepareFive 2)]).2 ?_ _ List.prefix_rfl
  refine ⟨trivial, fun _ _ k hk => ?_, trivial⟩
  obtain rfl : k = pub 2 := List.mem_singleton.1 hk
  have hbytes : (pub 2).bytes ∈
      (leader5.call (.announce order (blk 5 0 0))).decider.participants.map
      (·.bytes) := by decide +kernel
  obtain ⟨k', hk', heq⟩ := List.mem_map.1 hbytes
  exact PublicKeyWrapper.eq_of_bytes heq ▸ hk'

/-- The keys 8 and 9 are not in the committee of four.  Their votes and the leader's own are a
    prepare quorum, with one ballot of a member and one bit in the bitmap. -/
theorem quorum_of_outsiders :
    (Run.run call leader5 [.announce order (blk 5 0 0), .onPrepare order (prepareFive 8),
      .onPrepare order (prepareFive 9)]).decider.isQuorumAchieved .prepare = true ∧
    ((committeeKeys leader5.decider.participants).filter (· ∈ (Run.run call leader5
      [.announce order (blk 5 0 0), .onPrepare order (prepareFive 8),
        .onPrepare order (prepareFive 9)]).decider.signers .prepare)).card = 1 := by
  refine ⟨?_, ?_⟩ <;> decide +kernel

end Concrete

end Benzene
