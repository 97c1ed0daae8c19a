import Benzene.Common.Run
import Benzene.Consensus.Concrete
import Benzene.Consensus.LeaderMoves

/-!
# The votes of a round

What a leader keeps while it collects votes: the announced block, the PREPARED messages of its
log, the ballots and the bitmaps belong to one round.

* `Mirrored`, `PhaseVotes`: the ballots of a phase are mirrored by its bitmap, and sign what is
  voted on.
* `LeaderInv`: the invariant.  It needs that the votes of some phases come from members and that a
  second block is announced only before the first vote (`OneBlockPerRound`): neither
  `announce` nor `onCommit` checks this.
* `SameRound`: what a step leaves alone within a round.
* `step_leaderInv`: every step of a leader keeps the invariant, whenever the grace periods of
  earlier rounds end.
-/

namespace Benzene

variable {E : Env}

/-- A committee of at least one key, all distinct. -/
structure ProperCommittee (committee : List E.PubKey) : Prop where
  ne_nil : committee ≠ []
  nodup : (committee.map (·.bytes)).Nodup

/-- Every committee of a shard state is proper. -/
def CommitteesProper (E : Env) : Prop :=
  ∀ shardState shardID c, E.findCommitteeByID shardState shardID = some c →
    ProperCommittee (E.blsPublicKeys c)

namespace Consensus

/-! ## Runs of a leader -/

/-- A new node whose committee has been set. -/
def LeaderStart (s : Consensus E) : Prop :=
  ∃ t keys, StartUp t ∧ ProperCommittee keys ∧ s = t.updatePublicKeys keys

/-- What a leader is given: votes, blocks to propose, and its goroutines. -/
def IsLeaderEvent : NodeEvent E → Prop
  | .message _ msg _ => msg.type = .prepare ∨ msg.type = .commit
  | .propose _ _ => True
  | .task _ _ => True
  | _ => False

/-- A vote of the given type names members of the committee only. -/
def VotesOfMembers (t : MessageType) (s : Consensus E) : NodeEvent E → Prop
  | .message _ msg _ => msg.type = t → ∀ m, s.parseFBFTMessage msg = .ok m →
      ∀ k ∈ m.senderPubkeys, k ∈ s.decider.participants
  | _ => True

/-- A block is announced when no vote has been recorded in the round, or again. -/
def OneBlockPerRound (s : Consensus E) : NodeEvent E → Prop
  | .propose _ newBlock => newBlock.numberU64 ≠ maxBlockNum ∧
      (s.decider.signersCount .prepare = 0 ∧ s.decider.signersCount .commit = 0 ∨
        E.blockHash newBlock = s.blockHash)
  | _ => True

/-- A grace period ends while its round is not decided: the quorum is reached, or nothing is
    announced. -/
def InOwnRound (s : Consensus E) : NodeEvent E → Prop
  | .task _ i => ∀ viewID, s.tasks[i]? = some (.gracePeriod viewID) →
      s.decider.isQuorumAchieved .commit = true ∨ s.block = []
  | _ => True

/-! ## The votes of a phase -/

/-- The ballots of a phase are those of members, and the mask has exactly their bits. -/
structure Mirrored (p : Phase) (s : Consensus E) : Prop where
  mask : Tracks E.masks s.decider.participants (s.decider.signers p) (s.bitmap p)
  members : s.decider.signers p ⊆ committeeKeys s.decider.participants

/-- What a vote of a phase signs in the round of the node. -/
def PayloadOf (s : Consensus E) : Phase → Bytes → Prop
  | .prepare, payload => payload = s.blockHash.toList
  | .commit, payload => ∃ block, E.blockHash block = s.blockHash ∧ payload = E.commitPayload block
  | .viewChange, _ => False

/-- The ballots of a phase sign what is voted on. -/
structure PhaseVotes (p : Phase) (s : Consensus E) : Prop extends Mirrored p s where
  votes : ∀ payload, s.PayloadOf p payload →
    BallotBox.Valid s.decider.participants payload (s.decider.ballotBox p)

variable {s s' : Consensus E} {d : Decider E.bls} {p q : Phase} {block : Block} {mask : E.Mask}
  {payload : Bytes}

theorem signers_congr {d' : Decider E.bls} (h : d'.ballotBox p = d.ballotBox p) :
    d'.signers p = d.signers p := by
  rw [Decider.signers, h, Decider.signers]

theorem signersCount_eq_zero (h : d.signersCount p = 0) : d.signers p = ∅ := by
  rwa [d.signersCount_eq_card, Finset.card_eq_zero] at h

theorem PayloadOf.congr (h : s.PayloadOf p payload) (hhash : s'.blockHash = s.blockHash) :
    s'.PayloadOf p payload := by
  cases p with
  | prepare => exact h.trans (by rw [hhash])
  | commit =>
    obtain ⟨block, hblock, hpayload⟩ := h
    exact ⟨block, hblock.trans hhash.symm, hpayload⟩
  | viewChange => exact h

theorem PayloadOf.eq {payload' : Bytes} (hideal : E.IdealHash) (h : s.PayloadOf p payload)
    (h' : s.PayloadOf p payload') : payload = payload' := by
  cases p with
  | prepare => exact h.trans h'.symm
  | commit =>
    obtain ⟨b, hb, rfl⟩ := h
    obtain ⟨b', hb', rfl⟩ := h'
    exact hideal.commitPayload_eq (hb.trans hb'.symm)
  | viewChange => exact h.elim

theorem payloadOf_votePayload (hp : p ≠ .viewChange) (hhash : E.blockHash block = s.blockHash) :
    s.PayloadOf p (s.votePayload block p) := by
  cases p with
  | prepare => rfl
  | commit => exact ⟨block, hhash, rfl⟩
  | viewChange => exact absurd rfl hp

/-- The committee, and the ballots and the bits of the phase, are the same. -/
def SameVotes (p : Phase) (s s' : Consensus E) : Prop :=
  (s'.decider.participants, s'.decider.ballotBox p, s'.bitmap p) =
    (s.decider.participants, s.decider.ballotBox p, s.bitmap p)

theorem Mirrored.congr (h : s.Mirrored p) (hsame : SameVotes p s s') : s'.Mirrored p := by
  obtain ⟨hkeys, hbox, hbitmap⟩ : _ ∧ _ ∧ _ := by simpa only [SameVotes, Prod.mk.injEq] using hsame
  constructor
  · rw [hkeys, signers_congr hbox, hbitmap]
    exact h.mask
  · rw [hkeys, signers_congr hbox]
    exact h.members

theorem PhaseVotes.congr (h : PhaseVotes p s) (hsame : SameVotes p s s')
    (hhash : s'.blockHash = s.blockHash) : PhaseVotes p s' := by
  refine ⟨h.toMirrored.congr hsame, fun payload hpayload => ?_⟩
  obtain ⟨hkeys, hbox, -⟩ : _ ∧ _ ∧ _ := by simpa only [SameVotes, Prod.mk.injEq] using hsame
  rw [hkeys, hbox]
  exact h.votes payload (hpayload.congr hhash.symm)

/-- There are no votes of the phase, and the mask is over the committee. -/
structure NoVotes (p : Phase) (s : Consensus E) : Prop where
  box : s.decider.ballotBox p = ∅
  publics : E.masks.publics (s.bitmap p) = s.decider.participants
  bit : ∀ i, testBit (E.masks.bitmap (s.bitmap p)) i = false

theorem NoVotes.phaseVotes (h : NoVotes p s) : PhaseVotes p s := by
  have hnone : s.decider.signers p = ∅ := by
    rw [Decider.signers, h.box]
    rfl
  refine ⟨⟨?_, ?_⟩, fun _ _ => BallotBox.valid_of_signers_eq_empty hnone⟩
  all_goals rw [hnone]
  · exact Tracks.empty h.publics h.bit
  · exact Finset.empty_subset _

theorem bitmap_setBitmap (hp : p ≠ .viewChange) (mask : E.Mask) :
    (s.setBitmap mask p).bitmap p = mask := by
  cases p with
  | prepare | commit => rfl
  | viewChange => exact absurd rfl hp

theorem decider_setBitmap (p : Phase) (mask : E.Mask) :
    (s.setBitmap mask p).decider = s.decider := by
  cases p <;> rfl

theorem sameVotes_setBitmap (hqp : q ≠ p) (mask : E.Mask) : SameVotes q s (s.setBitmap mask p) := by
  cases p <;> cases q <;> first | rfl | exact absurd rfl hqp

/-- The bit of a key that has voted is set again. -/
theorem Mirrored.refused (h : s.Mirrored p) (hp : p ≠ .viewChange)
    (hcommittee : ProperCommittee s.decider.participants) {k : SerializedPublicKey}
    (hset : E.masks.setKey (s.bitmap p) k true = some mask) (hvoted : k ∈ s.decider.signers p) :
    (s.setBitmap mask p).Mirrored p := by
  have hmask := h.mask.setKey hcommittee.nodup hset
  rw [Finset.insert_eq_of_mem hvoted] at hmask
  constructor
  · rw [decider_setBitmap, bitmap_setBitmap hp]
    exact hmask
  · rw [decider_setBitmap]
    exact h.members

/-- The next round starts without votes. -/
theorem SetUp.noVotes (hproper : CommitteesProper E) {sender : E.PubKey}
    (hset : SetUp block sender s s') (hcommittee : ProperCommittee s.decider.participants) :
    ProperCommittee s'.decider.participants ∧ ∀ p, p ≠ .viewChange → s.Mirrored p →
      NoVotes p s' := by
  unfold Decider.participants at hcommittee ⊢
  rcases hset.committee with ⟨hkeys, -, hprepare, hcommit⟩ |
    ⟨c, hc, -, hkeys, -, hprepare, hcommit⟩
  · refine ⟨hkeys ▸ hcommittee, fun p hp h => ?_⟩
    cases p with
    | prepare =>
      exact ⟨hset.prepare, hprepare.trans (h.mask.publics.trans hkeys.symm), hset.prepareBit⟩
    | commit => exact ⟨hset.commit, hcommit.trans (h.mask.publics.trans hkeys.symm), hset.commitBit⟩
    | viewChange => exact absurd rfl hp
  · obtain ⟨shardState, shardID, hfind⟩ := committeeToSet_eq_some hc
    refine ⟨hkeys ▸ hproper _ _ c hfind, fun p hp _ => ?_⟩
    cases p with
    | prepare => exact ⟨hset.prepare, hprepare.trans hkeys.symm, hset.prepareBit⟩
    | commit => exact ⟨hset.commit, hcommit.trans hkeys.symm, hset.commitBit⟩
    | viewChange => exact absurd rfl hp

theorem LeaderStart.noVotes (h : LeaderStart s) : ProperCommittee s.decider.participants ∧
    ∀ p, p ≠ .viewChange → NoVotes p s := by
  obtain ⟨t, keys, -, hkeys, rfl⟩ := h
  rw [updatePublicKeys_eq]
  refine ⟨hkeys, fun p hp => ?_⟩
  cases p with
  | prepare | commit =>
    exact ⟨rfl, (E.masks.clear_publics _).trans (E.masks.newMask_publics _), E.masks.clear_bit _⟩
  | viewChange => exact absurd rfl hp

/-! ## The invariant -/

/-- The block that the leader has announced. -/
structure Announced (s : Consensus E) (b : Block) : Prop where
  decode : E.decodeBlock s.block = some b
  hash : E.blockHash b = s.blockHash
  le : s.blockNum ≤ b.numberU64
  ne_max : b.numberU64 ≠ maxBlockNum

/-- Goroutines of a leader, and any messages. -/
def leaderTasks : Contents E := { noPrepared with msg := fun _ => True }

/-- The state of the votes of a leader; those of the phases `ph` come from members. -/
structure LeaderInv (ph : Phase → Prop) (s : Consensus E) : Prop where
  committee : ProperCommittee s.decider.participants
  holds : Holds leaderTasks s
  /-- A PREPARED message for the current number is for the current hash. -/
  prepared : ∀ m ∈ GoMap.values s.fbftLog.messages, m.messageType = .prepared →
    m.blockNum ≤ s.blockNum ∧
      (m.blockNum = s.blockNum → m.blockHash = s.blockHash ∧ (s.decider.signers .prepare).Nonempty)
  current : s.blockHash = zeroBytes 32 ∧ s.block = [] ∧ s.decider.signers .commit = ∅ ∨
    ∃ b, Announced s b
  phases : ∀ p, p ≠ .viewChange → ph p → PhaseVotes p s

/-- The step stays in the round. -/
structure SameRound (s s' : Consensus E) : Prop where
  same : (s'.decider.participants, s'.blockNum, s'.blockHash, s'.block) =
    (s.decider.participants, s.blockNum, s.blockHash, s.block)
  prepare : s.decider.signers .prepare ⊆ s'.decider.signers .prepare
  grows : Grows noPrepared s s'

variable {ph : Phase → Prop}

theorem LeaderInv.blocks (h : LeaderInv ph s) {hash : Hash}
    (hblock : s.fbftLog.getBlockByHash hash = some block) : E.blockHash block = hash :=
  (h.holds.blocks hash block hblock).1

theorem Grows.leaderTasks (h : Grows noPrepared s s') : Grows leaderTasks s s' :=
  ⟨⟨fun m hm => (h.log.messages m hm).imp_right fun _ => trivial, h.log.blocks⟩, h.tasks⟩

theorem LeaderInv.of_sameRound (h : LeaderInv ph s) (hr : SameRound s s')
    (hcommit : s.blockHash = zeroBytes 32 →
      s'.decider.signers .commit = s.decider.signers .commit)
    (hphases : ∀ p, p ≠ .viewChange → ph p → PhaseVotes p s → PhaseVotes p s') :
    LeaderInv ph s' := by
  obtain ⟨hkeys, hnum, hhash, hblock⟩ : _ ∧ _ ∧ _ ∧ _ := by
    simpa only [Prod.mk.injEq] using hr.same
  refine ⟨hkeys ▸ h.committee, hr.grows.leaderTasks.holds h.holds, fun m hm htype => ?_, ?_,
    fun p hp hph => hphases p hp hph (h.phases p hp hph)⟩
  · rcases hr.grows.log.messages m hm with hm | hm
    · obtain ⟨hle, heq⟩ := h.prepared m hm htype
      rw [hnum, hhash]
      exact ⟨hle, fun hnum => ⟨(heq hnum).1, (heq hnum).2.mono hr.prepare⟩⟩
    · exact absurd htype hm
  · rcases h.current with ⟨hzero, hnil, hnone⟩ | ⟨b, hb⟩
    · exact Or.inl ⟨hhash.trans hzero, hblock.trans hnil, (hcommit hzero).trans hnone⟩
    · exact Or.inr ⟨b, hblock ▸ hb.decode, hhash ▸ hb.hash, hnum ▸ hb.le, hb.ne_max⟩

/-! ## Moves -/

theorem Frame.sameVotes (hf : Frame s s') (p : Phase) : SameVotes p s s' := by
  rw [SameVotes, hf.eq]
  cases p <;> rfl

theorem LeaderInv.frame (h : LeaderInv ph s) (hf : Frame s s') : LeaderInv ph s' := by
  refine h.of_sameRound ⟨by rw [hf.eq], by rw [hf.eq], hf.grows⟩ (fun _ => by rw [hf.eq])
    fun p _ _ hv => hv.congr (hf.sameVotes p) (by rw [hf.eq])

/-- The new block replaces one that nobody has voted for. -/
theorem LeaderInv.set_block (h : LeaderInv ph s) {order : MapOrder E} {encodedBlock : Bytes}
    (hencode : E.encodeBlock block = some encodedBlock) (hle : ¬ block.numberU64 < s.blockNum)
    (hone : OneBlockPerRound s (.propose order block)) :
    LeaderInv ph { s with blockHash := E.blockHash block, block := encodedBlock } := by
  obtain ⟨hmax, hfresh⟩ := hone
  refine ⟨h.committee, ⟨h.holds.messages, h.holds.blocks, h.holds.tasks⟩, ?_,
    Or.inr ⟨block, ?_⟩, fun p hp hph => ?_⟩
  · intro m hm htype
    obtain ⟨hbound, heq⟩ := h.prepared m hm htype
    refine ⟨hbound, fun hnum => ?_⟩
    obtain ⟨hhash, hvotes⟩ := heq hnum
    rcases hfresh with ⟨hprepare, -⟩ | hsame
    · rw [signersCount_eq_zero hprepare] at hvotes
      exact absurd hvotes Finset.not_nonempty_empty
    · exact ⟨hhash.trans hsame.symm, hvotes⟩
  · exact ⟨E.decodeBlock_encodeBlock _ _ hencode, rfl, UInt64.not_lt.1 hle, hmax⟩
  · have hv := h.phases p hp hph
    rcases hfresh with ⟨hprepare, hcommit⟩ | hsame
    · refine ⟨hv.toMirrored.congr rfl, fun _ _ => BallotBox.valid_of_signers_eq_empty ?_⟩
      cases p with
      | prepare => exact signersCount_eq_zero hprepare
      | commit => exact signersCount_eq_zero hcommit
      | viewChange => exact absurd rfl hp
    · exact hv.congr rfl hsame

/-- The own PREPARED message is for the current number and hash. -/
theorem LeaderInv.logOwnPrepared (h : LeaderInv ph s) {order : MapOrder E} {key : E.PriKey}
    (hvotes : (s.decider.signers .prepare).Nonempty) :
    LeaderInv ph (s.logOwnPrepared (s.ownMessage order .prepared [] key)) := by
  refine ⟨h.committee, ⟨fun _ _ => trivial, h.holds.blocks, h.holds.tasks⟩, ?_, ?_,
    fun p hp hph => (h.phases p hp hph).congr rfl rfl⟩
  · intro m hm htype
    rcases GoMap.mem_values_insert hm with rfl | hm
    · exact ⟨UInt64.le_refl _, fun _ => ⟨rfl, hvotes⟩⟩
    · exact h.prepared m hm htype
  · rcases h.current with hnone | ⟨b, hb⟩
    · exact Or.inl hnone
    · exact Or.inr ⟨b, hb.1, hb.2, hb.3, hb.4⟩

section Vote

variable {keys : List E.PubKey} {sig : E.Sign} {headerHash : Hash} {height viewID : UInt64}
  {decider : Decider E.bls} {ballot : Ballot}
  (hvote : s.decider.addNewVote p keys sig headerHash height viewID = .ok (decider, ballot))

include hvote

/-- A vote of one phase leaves the others alone. -/
theorem sameVotes_vote (hqp : q ≠ p) (mask : E.Mask) :
    SameVotes q s (({ s with decider := decider } : Consensus E).setBitmap mask p) := by
  obtain ⟨-, -, rfl⟩ := addNewVote_eq_ok hvote
  cases p <;> cases q <;> first | rfl | exact absurd rfl hqp

/-- A vote whose ballot and bits are both written. -/
theorem Mirrored.record (h : s.Mirrored p) (hp : p ≠ .viewChange)
    (hcommittee : ProperCommittee s.decider.participants)
    (hmask : E.masks.setKeysAtomic (s.bitmap p) keys true = some mask) :
    (({ s with decider := decider } : Consensus E).setBitmap mask p).Mirrored p := by
  have hkeys : decider.participants = s.decider.participants := addNewVote_publicKeys hvote
  constructor
  · rw [decider_setBitmap, bitmap_setBitmap hp, addNewVote_signers hvote, hkeys]
    exact h.mask.setKeysAtomic hcommittee.nodup hmask
  · rw [decider_setBitmap, addNewVote_signers hvote, hkeys]
    refine Finset.union_subset h.members fun k hk => ?_
    obtain ⟨key, hkey, rfl⟩ := List.mem_map.1 (List.mem_toFinset.1 hk)
    exact mem_committeeKeys (mem_of_setKeysAtomic h.mask.publics hmask key hkey)

/-- The vote signs what is voted on. -/
theorem PhaseVotes.record (hideal : E.IdealHash) (h : PhaseVotes p s) (hp : p ≠ .viewChange)
    (hcommittee : ProperCommittee s.decider.participants) (hpayload : s.PayloadOf p payload)
    (hsig : sig = E.bls.sigOf payload (keys.map (·.object)).sum)
    (hmask : E.masks.setKeysAtomic (s.bitmap p) keys true = some mask) :
    PhaseVotes p (({ s with decider := decider } : Consensus E).setBitmap mask p) := by
  refine ⟨h.toMirrored.record hvote hp hcommittee hmask, fun payload' hpayload' => ?_⟩
  have hsame : s.PayloadOf p payload' := hpayload'.congr (by cases p <;> rfl)
  have hkeys : decider.participants = s.decider.participants := addNewVote_publicKeys hvote
  rw [decider_setBitmap, hkeys]
  exact addNewVote_valid hvote (h.votes payload' hsame)
    (mem_of_setKeysAtomic h.mask.publics hmask) (hpayload.eq hideal hsame ▸ hsig)

theorem SameRound.of_vote (mask : E.Mask) :
    SameRound s (({ s with decider := decider } : Consensus E).setBitmap mask p) := by
  have hprepare : s.decider.signers .prepare ⊆ decider.signers .prepare := by
    by_cases hp : p = .prepare
    · subst hp
      rw [addNewVote_signers hvote]
      exact Finset.subset_union_left
    · have hsame := sameVotes_vote hvote (Ne.symm hp) mask
      simp only [SameVotes, decider_setBitmap, Prod.mk.injEq] at hsame
      rw [signers_congr hsame.2.1]
  obtain ⟨-, -, rfl⟩ := addNewVote_eq_ok hvote
  cases p <;> exact ⟨rfl, hprepare, Grows.of_eq rfl rfl⟩

/-- A vote for what is voted on. -/
theorem LeaderInv.add_vote (hideal : E.IdealHash) (h : LeaderInv ph s) (hp : p ≠ .viewChange)
    (hpayload : s.PayloadOf p payload)
    (hsig : sig = E.bls.sigOf payload (keys.map (·.object)).sum)
    (hmask : E.masks.setKeysAtomic (s.bitmap p) keys true = some mask) :
    LeaderInv ph (({ s with decider := decider } : Consensus E).setBitmap mask p) := by
  refine h.of_sameRound (.of_vote hvote mask) (fun hzero => ?_) fun q hq _ hv => ?_
  · cases p with
    | prepare =>
      rw [(addNewVote_eq_ok hvote).2.2]
      rfl
    | commit =>
      obtain ⟨b, hb, -⟩ := hpayload
      exact absurd (hb.trans hzero) (hideal.ne_zero _)
    | viewChange => exact absurd rfl hp
  · by_cases hqp : q = p
    · subst hqp
      exact hv.record hvote hideal hq h.committee hpayload hsig hmask
    · exact hv.congr (sameVotes_vote hvote hqp mask) (by cases p <;> rfl)

/-- A prepare ballot that may be one of outsiders. -/
theorem LeaderInv.add_ballot (h : LeaderInv ph s) (hp : p = .prepare) (hph : ¬ ph p) :
    LeaderInv ph (({ s with decider := decider } : Consensus E).setBitmap (s.bitmap p) p) := by
  refine h.of_sameRound (.of_vote hvote _) (fun _ => ?_) fun q _ hq hv => ?_
  · rw [(addNewVote_eq_ok hvote).2.2, hp]
    rfl
  · refine hv.congr (sameVotes_vote hvote ?_ _) (by cases p <;> rfl)
    rintro rfl
    exact hph hq

end Vote

/-- The block that is decoded is the announced one. -/
theorem LeaderInv.hash_of_decode (h : LeaderInv ph s)
    (hdecode : E.decodeBlock s.block = some block) : E.blockHash block = s.blockHash := by
  rcases h.current with ⟨-, hnil, -⟩ | ⟨b, hb⟩
  · rw [hnil, E.decodeBlock_nil] at hdecode
    cases hdecode
  · rw [hb.decode, Option.some.injEq] at hdecode
    exact hdecode ▸ hb.hash

/-- The bit of a key that has voted is set again. -/
theorem LeaderInv.refused (h : LeaderInv ph s) (hp : p ≠ .viewChange) {key : E.PriKey}
    (hset : E.masks.setKey (s.bitmap p) key.pub.bytes true = some mask)
    (hvoted : key.pub.bytes ∈ s.decider.signers p) : LeaderInv ph (s.setBitmap mask p) := by
  have hround : SameRound s (s.setBitmap mask p) := by
    cases p <;> exact ⟨rfl, Finset.Subset.refl _, Grows.of_eq rfl rfl⟩
  have hhash : (s.setBitmap mask p).blockHash = s.blockHash := by cases p <;> rfl
  refine h.of_sameRound hround (fun _ => by rw [decider_setBitmap]) fun q hq _ hv => ?_
  by_cases hqp : q = p
  · subst hqp
    refine ⟨hv.toMirrored.refused hq h.committee hset hvoted, fun payload hpayload => ?_⟩
    rw [decider_setBitmap]
    exact hv.votes payload (hpayload.congr hhash.symm)
  · exact hv.congr (sameVotes_setBitmap hqp mask) hhash

theorem nonempty_of_isQuorumAchieved (h : d.isQuorumAchieved p = true) :
    (d.signers p).Nonempty := by
  rw [isQuorumAchieved_iff] at h
  exact Finset.card_pos.1 (Nat.lt_of_lt_of_le (Nat.succ_pos _) h)

/-- The next round starts at a number past every PREPARED message of the log. -/
theorem SetUp.leaderInv (hproper : CommitteesProper E) (h : LeaderInv ph s) {sender : E.PubKey}
    (hle : s.blockNum ≤ block.numberU64) (hmax : block.numberU64 ≠ maxBlockNum)
    (hset : SetUp block sender s s') : LeaderInv ph s' := by
  have hnum : s.blockNum < s'.blockNum := by
    rw [hset.blockNum]
    exact UInt64.lt_of_le_of_lt hle (lt_add_one_of_ne_max hmax)
  obtain ⟨hcommittee, hnone⟩ := hset.noVotes hproper h.committee
  have hcommit : s'.decider.signers .commit = ∅ := by
    rw [Decider.signers, Decider.ballotBox, hset.commit]
    rfl
  refine ⟨hcommittee, hset.grows.holds h.holds, fun m hm htype => ?_,
    Or.inl ⟨hset.blockHash, hset.block, hcommit⟩,
    fun p hp hph => (hnone p hp (h.phases p hp hph).toMirrored).phaseVotes⟩
  rcases (hset.grows : Grows noPrepared s s').log.messages m hm with hm | hm
  · have hlt := UInt64.lt_of_le_of_lt (h.prepared m hm htype).1 hnum
    exact ⟨UInt64.le_of_lt hlt, fun heq => absurd (heq ▸ hlt) (UInt64.lt_irrefl _)⟩
  · exact absurd htype hm

/-- A block that is found under the current hash is the announced one. -/
theorem LeaderInv.announced_of_lookup (hideal : E.IdealHash) (h : LeaderInv ph s)
    (hblock : s.fbftLog.getBlockByHash s.blockHash = some block) :
    s.blockNum ≤ block.numberU64 ∧ block.numberU64 ≠ maxBlockNum := by
  have hhash := h.blocks hblock
  rcases h.current with ⟨hzero, -⟩ | ⟨b, hb⟩
  · exact absurd (hhash.trans hzero) (hideal.ne_zero _)
  · have hnum : block.numberU64 = b.numberU64 := hideal.number _ _ (hhash.trans hb.hash.symm)
    rw [hnum]
    exact ⟨hb.le, hb.ne_max⟩

theorem LeaderInv.move (hideal : E.IdealHash) (hproper : CommitteesProper E) (h : LeaderInv ph s)
    (hmove : Move (fun t => (t.decider.signers .prepare).Nonempty) s s') : LeaderInv ph s' := by
  cases hmove with
  | frame hf => exact h.frame hf
  | logPrepared order key hvotes => exact h.logOwnPrepared hvotes
  | refused hp hset hvoted => exact h.refused hp hset hvoted
  | voted hp hdecode hmask hsig hvote =>
    exact h.add_vote hvote hideal hp (payloadOf_votePayload hp (h.hash_of_decode hdecode)) hsig
      hmask
  | setUp hblock hset =>
    obtain ⟨hle, hmax⟩ := h.announced_of_lookup hideal hblock
    exact hset.leaderInv hproper h hle hmax

/-! ## Handlers -/

theorem announce_leaderInv (hideal : E.IdealHash) (hproper : CommitteesProper E)
    (h : LeaderInv ph s) (order : MapOrder E) (hle : ¬ block.numberU64 < s.blockNum)
    (hone : OneBlockPerRound s (.propose order block)) :
    LeaderInv ph (s.announce order block) := by
  rcases s.announce_path order block with heq | ⟨enc, hencode, hpath⟩
  · rw [heq]
    exact h
  · exact hpath.keeps (LeaderInv.move hideal hproper) (h.set_block hencode hle hone)

/-- The vote that `onPrepare` records is for the current hash. -/
theorem LeaderInv.record_prepare_vote (hideal : E.IdealHash) (h : LeaderInv ph s)
    {m : FBFTMessage E} {sign : E.Sign} {decider : Decider E.bls} {ballot : Ballot}
    (hchecks : s.prepareChecks m = some sign)
    (hvote : s.decider.addNewVote .prepare m.senderPubkeys sign m.blockHash m.blockNum m.viewID =
      .ok (decider, ballot))
    (hmask : E.masks.setKeysAtomic s.prepareBitmap m.senderPubkeys true = some mask) :
    LeaderInv ph { s with decider := decider, prepareBitmap := mask } :=
  h.add_vote (p := .prepare) hvote hideal (by simp) rfl (prepareChecks_eq_some hchecks).2.2 hmask

theorem onPrepare_leaderInv (hideal : E.IdealHash) (hproper : CommitteesProper E)
    (h : LeaderInv ph s) (order : MapOrder E) {m : FBFTMessage E}
    (hmem : ph .prepare → ∀ k ∈ m.senderPubkeys, k ∈ s.decider.participants) :
    LeaderInv ph (s.onPrepare order m) := by
  rcases s.onPrepare_cases order m with heq | ⟨sign, decider, ballot, hchecks, hvote,
    ⟨hnone, heq⟩ | ⟨mask, t, hmask, rfl, hpath⟩⟩
  · rw [heq]
    exact h
  · rw [heq]
    refine h.add_ballot hvote rfl fun hph => ?_
    exact setKeysAtomic_ne_none (h.phases .prepare (by simp) hph).mask.publics (hmem hph) hnone
  · exact (onPrepare_path nonempty_of_isQuorumAchieved hpath).keeps
      (LeaderInv.move hideal hproper) (h.record_prepare_vote hideal hchecks hvote hmask)

/-- A commit vote that passes the checks is for the current hash. -/
theorem LeaderInv.hash_of_hasMatchingPrepared (h : LeaderInv ph s) {hash : Hash}
    (hmatch : s.fbftLog.hasMatchingPrepared s.blockNum hash = true) : hash = s.blockHash := by
  obtain ⟨m, hmem, htype, hnum, hhash⟩ := FBFTLog.exists_of_hasMatchingPrepared hmatch
  exact hhash ▸ ((h.prepared m hmem htype).2 hnum).1

/-- The vote that `onCommit` records is for the current block. -/
theorem LeaderInv.record_commit_vote (hideal : E.IdealHash) (h : LeaderInv ph s)
    {m : FBFTMessage E} {sign : E.Sign} {decider : Decider E.bls} {ballot : Ballot}
    (hchecks : s.commitChecks m = some (sign, block))
    (hmatch : s.fbftLog.hasMatchingPrepared s.blockNum m.blockHash = true)
    (hvote : s.decider.addNewVote .commit m.senderPubkeys sign m.blockHash m.blockNum 0 =
      .ok (decider, ballot))
    (hmask : E.masks.setKeysAtomic s.commitBitmap m.senderPubkeys true = some mask) :
    LeaderInv ph { s with decider := decider, commitBitmap := mask } := by
  obtain ⟨-, -, hblock, hsign⟩ := commitChecks_eq_some hchecks
  have hhash := h.hash_of_hasMatchingPrepared hmatch
  exact h.add_vote (p := .commit) hvote hideal (by simp)
    ⟨block, (h.blocks hblock).trans hhash, rfl⟩ hsign hmask

theorem onCommit_leaderInv (hideal : E.IdealHash) (hproper : CommitteesProper E)
    (h : LeaderInv ph s) (hph : ph .commit) (order : MapOrder E) {m : FBFTMessage E}
    (hmem : ∀ k ∈ m.senderPubkeys, k ∈ s.decider.participants) :
    LeaderInv ph (s.onCommit order m) := by
  rcases s.onCommit_cases order m with heq | ⟨sign, block, decider, ballot, hchecks, hmatch, hvote,
    ⟨hnone, -⟩ | ⟨mask, hmask, heq⟩⟩
  · rw [heq]
    exact h
  · have hpublics := (h.phases .commit (by simp) hph).mask.publics
    exact absurd hnone (setKeysAtomic_ne_none hpublics hmem)
  · rw [heq]
    exact (afterCommitVote_path _ order _ block).keeps (LeaderInv.move hideal hproper)
      (h.record_commit_vote hideal hchecks hmatch hvote hmask)

theorem onCommit_emits {Q : Entry E → Prop} (hideal : E.IdealHash) (h : LeaderInv ph s)
    (order : MapOrder E) (m : FBFTMessage E)
    (hafter : ∀ t : Consensus E, LeaderInv ph t → ∀ quorumWasMet block,
      Emits Q t (t.afterCommitVote order quorumWasMet block)) : Emits Q s (s.onCommit order m) := by
  rcases s.onCommit_cases order m with heq | ⟨sign, block, decider, ballot, hchecks, hmatch, hvote,
    ⟨-, heq⟩ | ⟨mask, hmask, heq⟩⟩
  · rw [heq]
    exact Emits.refl s
  · rw [heq]
    exact Emits.of_trace_eq rfl
  · have hst : Emits Q s { s with decider := decider, commitBitmap := mask } :=
      Emits.of_trace_eq rfl
    rw [heq]
    exact hst.trans (hafter _ (h.record_commit_vote hideal hchecks hmatch hvote hmask) _ _)

/-! ## Steps -/

theorem LeaderStart.trace (h : LeaderStart s) : s.trace = [] := by
  obtain ⟨t, keys, ht, -, rfl⟩ := h
  rw [updatePublicKeys_eq]
  exact ht.trace

theorem LeaderStart.leaderInv (h : LeaderStart s) : LeaderInv ph s := by
  obtain ⟨hcommittee, hnone⟩ := h.noVotes
  obtain ⟨t, keys, hstart, -, rfl⟩ := h
  rw [updatePublicKeys_eq] at hcommittee hnone ⊢
  have hholds := hstart.holds (noPrepared (E := E))
  exact ⟨hcommittee, ⟨fun _ _ => trivial, hholds.blocks, hholds.tasks⟩,
    fun m hm htype => absurd htype (hholds.messages m hm), Or.inl ⟨rfl, rfl, rfl⟩,
    fun p hp _ => (hnone p hp).phaseVotes⟩

theorem LeaderInv.eraseTask (h : LeaderInv ph s) (i : ℕ) : LeaderInv ph (s.dropTask i) :=
  h.frame (s.dropTask_frame i)

/-- What a step of a leader can be. -/
theorem step_leader_cases (h : LeaderInv ph s) {e : NodeEvent E} (hevent : IsLeaderEvent e) :
    Frame s (s.step e) ∧ (s.step e).trace = s.trace ∨
    (∃ order msg senderKey m, e = .message order msg senderKey ∧ s.parseFBFTMessage msg = .ok m ∧
      (msg.type = .prepare ∧ s.step e = s.onPrepare order m ∨
        msg.type = .commit ∧ s.step e = s.onCommit order m)) ∨
    (∃ order newBlock, e = .propose order newBlock ∧ ¬ newBlock.numberU64 < s.blockNum ∧
      s.step e = s.announce order newBlock) ∨
    (∃ order i network blk, e = .task order i ∧ network.fbftMsg.messageType ≠ .prepared ∧
      s.step e = (s.dropTask i).runPreCommit network blk) ∨
    ∃ order i viewID, e = .task order i ∧ s.tasks[i]? = some (.gracePeriod viewID) ∧
      s.step e = (s.dropTask i).finalCommit order := by
  have hd := s.step_dispatch e
  generalize s.step e = s' at hd
  cases hd with
  | idle heq =>
    exact Or.inl ⟨⟨by rw [heq], Grows.of_eq (by rw [heq]) (by rw [heq])⟩, by rw [heq]⟩
  | dropTask => exact Or.inl ⟨s.dropTask_frame _, rfl⟩
  | announce _ _ htype | prepared _ _ htype | committed _ _ htype =>
    simp [IsLeaderEvent, htype] at hevent
  | prepare hparse htype =>
    exact Or.inr (Or.inl ⟨_, _, _, _, rfl, hparse, Or.inl ⟨htype, rfl⟩⟩)
  | commit hparse htype =>
    exact Or.inr (Or.inl ⟨_, _, _, _, rfl, hparse, Or.inr ⟨htype, rfl⟩⟩)
  | propose hle => exact Or.inr (Or.inr (Or.inl ⟨_, _, rfl, hle, rfl⟩))
  | preCommit hget =>
    exact Or.inr (Or.inr (Or.inr (Or.inl
      ⟨_, _, _, _, rfl, h.holds.tasks _ (List.mem_of_getElem? hget), rfl⟩)))
  | gracePeriod hget => exact Or.inr (Or.inr (Or.inr (Or.inr ⟨_, _, _, rfl, hget, rfl⟩)))
  | followUpStart hget | followUp hget => exact (h.holds.tasks _ (List.mem_of_getElem? hget)).elim
  | syncReady | syncNotReady | takeBlockNumLow | chainChanged => exact hevent.elim

/-- Every step of a leader keeps the invariant. -/
theorem step_leaderInv (hideal : E.IdealHash) (hproper : CommitteesProper E) (h : LeaderInv ph s)
    (hph : ph .commit) {e : NodeEvent E} (hevent : IsLeaderEvent e)
    (hprepare : ph .prepare → VotesOfMembers .prepare s e) (hcommit : VotesOfMembers .commit s e)
    (hone : OneBlockPerRound s e) : LeaderInv ph (s.step e) := by
  rcases step_leader_cases h hevent with ⟨hf, -⟩ | ⟨order, msg, senderKey, m, rfl, hparse,
    ⟨htype, heq⟩ | ⟨htype, heq⟩⟩ | ⟨order, newBlock, rfl, hle, heq⟩ |
    ⟨order, i, network, blk, -, hm, heq⟩ | ⟨order, i, viewID, -, -, heq⟩
  · exact h.frame hf
  all_goals rw [heq]
  · exact onPrepare_leaderInv hideal hproper h order fun hph => hprepare hph htype m hparse
  · exact onCommit_leaderInv hideal hproper h hph order (hcommit htype m hparse)
  · exact announce_leaderInv hideal hproper h order hle hone
  · exact (h.eraseTask i).frame (runPreCommit_frame hm blk)
  · exact (finalCommit_path _ order).keeps (LeaderInv.move hideal hproper) (h.eraseTask i)

end Consensus

namespace Concrete

open Consensus

theorem committeesProper : CommitteesProper env := by
  intro shardState shardID c hc
  obtain rfl := Option.some.inj hc
  exact ⟨by decide, by decide⟩

/-- The leader of the four keys, with key 1, at block 5. -/
def leader5 : Consensus env :=
  (node [1] 1 [1, 2, 3, 4] 5).updatePublicKeys [pub 1, pub 2, pub 3, pub 4]

theorem leaderStart_leader5 : LeaderStart leader5 :=
  ⟨_, _, ⟨rfl, rfl, rfl⟩, ⟨by decide, by decide⟩, rfl⟩

/-- The block of a number is proposed. -/
def proposed (number : UInt8) : NodeEvent env := .propose order (blk number 0 0)

/-- A member votes for the block of a number. -/
def prepareVote (member number : UInt8) : NodeEvent env :=
  deliver (prepareMsg member (blk number 0 0) number) member

def commitVote (member number : UInt8) : NodeEvent env :=
  deliver (commitMsg member (blk number 0 0) number) member

/-- The round of block 5 with the votes of all members; the quorum starts a grace period. -/
def round5 : List (NodeEvent env) :=
  [proposed 5, prepareVote 2 5, prepareVote 3 5, commitVote 2 5, commitVote 3 5, commitVote 4 5]

theorem votesOfMembers_deliver {s : Consensus env} {t : MessageType} {msg : Message}
    {req : ConsensusRequest} {member : UInt8} (hreq : msg.consensus = some req)
    (hsender : req.senderPubkey = (pub member).bytes.toList)
    (h : (pub member).bytes ∈ s.decider.participants.map (·.bytes)) :
    VotesOfMembers t s (deliver msg member) := by
  intro _ m hm k hk
  obtain ⟨req', hreq', hsenders, -⟩ := parseFBFTMessage_eq_ok hm
  obtain rfl := Option.some.inj (hreq.symm.trans hreq')
  rw [parseSenders_of_key _ _ (pub member) hsender, Except.ok.injEq] at hsenders
  rw [← hsenders] at hk
  obtain rfl : k = pub member := List.mem_singleton.1 hk
  obtain ⟨k', hk', hbytes⟩ := List.mem_map.1 h
  exact PublicKeyWrapper.eq_of_bytes hbytes ▸ hk'

theorem steps_round5 : Run.Steps step (fun s e => IsLeaderEvent e ∧ VotesOfMembers .prepare s e ∧
    VotesOfMembers .commit s e ∧ OneBlockPerRound s e ∧ InOwnRound s e) leader5 round5 := by
  have hprepare : ∀ (s : Consensus env) (member : UInt8),
      (pub member).bytes ∈ s.decider.participants.map (·.bytes) →
      IsLeaderEvent (prepareVote member 5) ∧ VotesOfMembers .prepare s (prepareVote member 5) ∧
      VotesOfMembers .commit s (prepareVote member 5) ∧
      OneBlockPerRound s (prepareVote member 5) ∧ InOwnRound s (prepareVote member 5) :=
    fun _ _ h => ⟨Or.inl rfl, votesOfMembers_deliver rfl rfl h, votesOfMembers_deliver rfl rfl h,
      trivial, trivial⟩
  have hcommit : ∀ (s : Consensus env) (member : UInt8),
      (pub member).bytes ∈ s.decider.participants.map (·.bytes) →
      IsLeaderEvent (commitVote member 5) ∧ VotesOfMembers .prepare s (commitVote member 5) ∧
      VotesOfMembers .commit s (commitVote member 5) ∧
      OneBlockPerRound s (commitVote member 5) ∧ InOwnRound s (commitVote member 5) :=
    fun _ _ h => ⟨Or.inr rfl, votesOfMembers_deliver rfl rfl h, votesOfMembers_deliver rfl rfl h,
      trivial, trivial⟩
  refine ⟨⟨trivial, trivial, trivial, ⟨by decide, Or.inl (by decide)⟩, trivial⟩, hprepare _ 2 ?_,
    hprepare _ 3 ?_, hcommit _ 2 ?_, hcommit _ 3 ?_, hcommit _ 4 ?_, trivial⟩
  all_goals decide +kernel

end Concrete

end Benzene
