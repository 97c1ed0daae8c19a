import Benzene.Consensus.Height

/-!
# The leader is a member of the committee

`SetupForNewConsensus` makes the sender of the COMMITTED message the leader of the next round,
and that sender is what the body of the message says.  A message may also wait in the log
while the epoch, and with it the committee, changes.

* `leader_mem_participants`: if every COMMITTED message names members of the committee of the
  moment and does not run ahead of the end of an epoch, the leader stays a member.
* `leader_outsider`: a COMMITTED message with a genuine certificate that names an outsider makes
  the outsider the leader.
-/

namespace Benzene

variable {E : Env}

namespace Consensus

/-! ## The invariant -/

/-- A COMMITTED message that the node, at the block number `bn` and with the committee `keys`,
    may still use: its senders are members unless it is for an earlier block, and no epoch
    ends between `bn` and its block. -/
structure MemberOk (keys : List E.PubKey) (bn : UInt64) (m : FBFTMessage E) : Prop where
  senders : bn ≤ m.blockNum → ∀ k ∈ m.senderPubkeys, k ∈ keys
  sameEpoch : ∀ h, E.isLastBlockInEpoch h = true → bn ≤ h.numberU64 → m.blockNum ≤ h.numberU64

variable {m : FBFTMessage E} {keys : List E.PubKey} {bn : UInt64}

theorem MemberOk.advance {bn' : UInt64} (h : MemberOk keys bn m) (hle : bn ≤ bn') :
    MemberOk keys bn' m :=
  ⟨fun hm => h.senders (UInt64.le_trans hle hm),
    fun header hlast hheader => h.sameEpoch header hlast (UInt64.le_trans hle hheader)⟩

/-- After the last block of an epoch no message that the node may use is left. -/
theorem MemberOk.nextEpoch {keys' : List E.PubKey} (h : MemberOk keys bn m) {header : Header}
    (hlast : E.isLastBlockInEpoch header = true) (hbn : bn ≤ header.numberU64)
    (hmax : header.numberU64 ≠ maxBlockNum) : MemberOk keys' (header.numberU64 + 1) m := by
  have hle := le_add_one_of_ne_max hmax
  refine ⟨fun hm => ?_, fun header' hlast' hheader' => h.sameEpoch header' hlast'
    (UInt64.le_trans hbn (UInt64.le_trans hle hheader'))⟩
  have hback := UInt64.le_trans hm (h.sameEpoch header hlast hbn)
  have heq : header.numberU64 + 1 = header.numberU64 := UInt64.le_antisymm hback hle
  exact absurd heq (by simp)

/-- All COMMITTED messages of the log and of the goroutines may be used, and the leader is a
    member. -/
abbrev MemberInv : Consensus E → Prop :=
  CommitInv (fun s => MemberOk s.decider.publicKeys s.blockNum)
    fun s => s.leaderPubKey ∈ s.decider.publicKeys

variable {s s' : Consensus E}

/-! ## Committing one block -/

/-- Every committee that a shard state yields has a member. -/
def CommitteesNonempty (E : Env) : Prop :=
  ∀ shardState shardID c, E.findCommitteeByID shardState shardID = some c → E.blsPublicKeys c ≠ []

theorem firstOr_mem (h : keys ≠ []) (k : E.PubKey) : firstOr keys k ∈ keys := by
  cases keys with
  | nil => exact absurd rfl h
  | cons key keys => exact List.mem_cons_self

theorem commitRule_member (hne : CommitteesNonempty E) :
    CommitRule (E := E) (fun s => MemberOk s.decider.publicKeys s.blockNum)
      fun s => s.leaderPubKey ∈ s.decider.publicKeys where
  quiet h := by
    rw [h.publicKeys, h.blockNum, h.leaderPubKey]
    exact ⟨fun _ => id, id⟩
  setUp := by
    intro blk sender s s' m h hnum hmax hmnum hsender hm
    have hle : s.blockNum ≤ s'.blockNum := by
      rw [h.blockNum, ← hnum]
      exact le_add_one_of_ne_max hmax
    rcases h.committee with ⟨hkeys, hleader, -, -⟩ | ⟨c, hc, hlast, hkeys, hleader, -, -⟩
    · refine ⟨fun m hm => ?_, fun _ => ?_⟩
      · rw [hkeys]
        exact hm.advance hle
      · rw [hleader, hkeys]
        exact hm.senders (hmnum ▸ UInt64.le_refl _) sender (by simp [hsender])
    · refine ⟨fun m hm => ?_, fun _ => ?_⟩
      · rw [h.blockNum]
        exact hm.nextEpoch hlast (hnum ▸ UInt64.le_refl _) hmax
      · obtain ⟨shardState, shardID, hfind⟩ := committeeToSet_eq_some hc
        rw [hleader, hkeys]
        exact firstOr_mem (hne _ _ _ hfind) sender
  own := by
    intro s m hleader hm
    refine ⟨fun _ k hk => ?_, fun header _ hle => hm.blockNum ▸ hle⟩
    rw [hm.senderPubkeys, List.mem_singleton] at hk
    rw [hk]
    exact hleader
  flag hm _ := ⟨hm.senders, hm.sameEpoch⟩

/-! ## Runs -/

/-- A COMMITTED message that the log or a goroutine holds. -/
def Pending (s : Consensus E) (m : FBFTMessage E) : Prop :=
  m ∈ GoMap.values s.fbftLog.messages ∧ m.messageType = .committed ∨ ∃ t ∈ s.tasks, m ∈ t.messages

/-- The condition on a step: a COMMITTED message may be used at once, and the chain is not
    synchronized past a COMMITTED message that is still held. -/
def FromMember (s : Consensus E) : NodeEvent E → Prop
  | .message _ msg _ => ∀ m, s.parseFBFTMessage msg = .ok m → msg.type = .committed →
    MemberOk s.decider.participants s.blockNum m
  | .syncReady => ∀ m, Pending s m → m.blockNum < (E.currentHeader s.blockchain).numberU64 + 1
  | .syncNotReady => ∀ m, Pending s m → m.blockNum < (E.currentHeader s.blockchain).numberU64 + 1
  | _ => True

theorem memberOk_of_lt (h : m.blockNum < bn) : MemberOk keys bn m :=
  ⟨fun hle => absurd h (UInt64.not_lt.2 hle),
    fun _ _ hle => UInt64.le_trans (UInt64.le_of_lt h) hle⟩

/-- A node that moves past all held COMMITTED messages may change its committee. -/
theorem holds_of_pending (h : MemberInv s) (hlog : s'.fbftLog = s.fbftLog)
    (htasks : s'.tasks = s.tasks) (hpending : ∀ m, Pending s m → m.blockNum < s'.blockNum) :
    Holds (heightContents (MemberOk s'.decider.publicKeys s'.blockNum)) s' := by
  refine ⟨?_, ?_, ?_⟩
  · rw [hlog]
    exact fun m hm htype => ⟨(h.holds.messages m hm htype).1,
      memberOk_of_lt (hpending m (Or.inl ⟨hm, htype⟩))⟩
  · rw [hlog]
    exact h.holds.blocks
  · rw [htasks]
    exact fun t ht m hm => ⟨(h.holds.tasks t ht m hm).1,
      memberOk_of_lt (hpending m (Or.inr ⟨t, ht, hm⟩))⟩

theorem updateConsensusInformation_leader_mem (hne : CommitteesNonempty E)
    (h : s.leaderPubKey ∈ s.decider.publicKeys) :
    s.updateConsensusInformation.1.leaderPubKey ∈
      s.updateConsensusInformation.1.decider.publicKeys := by
  rcases s.updateConsensusInformation_cases with ⟨-, heq⟩ | ⟨c, trace, hc, -, heq⟩
  · rw [heq]
    exact h
  · obtain ⟨shardState, shardID, hfind⟩ := committeeToSet_eq_some hc
    rw [heq, updatePublicKeys_eq]
    exact firstOr_mem (hne _ _ _ hfind) _

theorem step_member (hbind : E.HashBindsNumber) (hne : CommitteesNonempty E) (h : MemberInv s)
    {e : NodeEvent E} (hfits : FitsHeight s e) (hmember : FromMember s e) :
    MemberInv (s.step e) := by
  by_cases hsync : e = .syncReady ∨ e = .syncNotReady
  · unfold step
    split_ifs
    · exact h
    · rcases hsync with rfl | rfl
      · dsimp only [syncReady]
        split_ifs with hlow
        · set t : Consensus E :=
            { s with blockNum := (E.currentHeader s.blockchain).numberU64 + 1 } with ht
          have hkept := t.updateConsensusInformation_kept
          refine ⟨holds_of_pending h hkept.fbftLog hkept.tasks ?_,
            updateConsensusInformation_leader_mem (s := t) hne h.side⟩
          show ∀ m, Pending s m → m.blockNum < t.updateConsensusInformation.1.blockNum
          rw [hkept.blockNum]
          exact hmember
        · exact h
      · exact ⟨holds_of_pending h rfl rfl hmember, h.side⟩
  · obtain ⟨hready, hnotReady⟩ := not_or.1 hsync
    refine ((s.step_dispatch e).commitInv (commitRule_member hne) hbind h hfits ?_ hready
      hnotReady).1
    rintro order msg senderKey rfl
    exact hmember

/-- In every run from start-up with a leader of the committee whose steps meet `FitsHeight` and
    `FromMember`, the leader stays a member of the committee. -/
theorem leader_mem_participants (hbind : E.HashBindsNumber) (hne : CommitteesNonempty E)
    (h0 : StartUp s) (hleader : s.leaderPubKey ∈ s.decider.participants)
    {es : List (NodeEvent E)}
    (hes : Run.Steps step (fun s e => FitsHeight s e ∧ FromMember s e) s es) :
    (Run.run step s es).leaderPubKey ∈ (Run.run step s es).decider.participants := by
  have hinit : MemberInv s := ⟨h0.holds _, hleader⟩
  have hinv : MemberInv (Run.run step s es) := by
    refine Run.run_invariant MemberInv ?_ hinit hes
    exact fun t e ht hok => step_member hbind hne ht hok.1 hok.2
  exact hinv.side

end Consensus

namespace Concrete

open Consensus

theorem committeesNonempty : CommitteesNonempty env := by
  intro shardState shardID c hc
  obtain rfl := Option.some.inj hc
  decide

theorem steps_settle_one_member :
    Run.Steps step (fun s e => FitsHeight s e ∧ FromMember s e) (node [2] 1 [1, 2, 3, 4] 1)
      (settle 1) := by
  obtain ⟨hprepared, hcommitted, -⟩ := steps_settle_one
  refine ⟨⟨hprepared, fun m _ htype => by cases htype⟩, ⟨hcommitted, fun m hm _ => ?_⟩, trivial⟩
  obtain ⟨req, hreq, hsenders, -, hnum, -⟩ := parseFBFTMessage_eq_ok hm
  obtain rfl := Option.some.inj hreq
  rw [parseSenders_of_key _ _ (pub 1) rfl, Except.ok.injEq] at hsenders
  refine ⟨fun _ => ?_, fun h _ hle => ?_⟩
  · rw [← hsenders]
    have hmember : ∀ k ∈ ([pub 1] : List env.PubKey),
        k ∈ ((node [2] 1 [1, 2, 3, 4] 1).step (prepared 1)).decider.participants := by
      decide +kernel
    exact hmember
  · have hone : ((node [2] 1 [1, 2, 3, 4] 1).step (prepared 1)).blockNum = 1 := by decide +kernel
    rw [hone] at hle
    rw [hnum]
    exact hle

/-- A node settles block 1. -/
theorem leader_mem_participants_one :
    (Run.run step (node [2] 1 [1, 2, 3, 4] 1) (settle 1)).leaderPubKey ∈
      (Run.run step (node [2] 1 [1, 2, 3, 4] 1) (settle 1)).decider.participants :=
  leader_mem_participants hashBindsNumber committeesNonempty ⟨rfl, rfl, rfl⟩ (by decide +kernel)
    steps_settle_one_member

/-- The leader, key 1, sends the genuine certificate of block 1 in a COMMITTED message that names
    the outsider 9, who is the leader of the next round. -/
theorem leader_outsider :
    (node [2] 1 [1, 2, 3, 4] 1).leaderPubKey ∈ (node [2] 1 [1, 2, 3, 4] 1).decider.participants ∧
    (Run.run step (node [2] 1 [1, 2, 3, 4] 1) [prepared 1,
      deliver (committedMsg [1, 2, 3, 4] [1, 2, 3] 1 9 (blk 1 0 0) 1) 1]).leaderPubKey ∉
    (Run.run step (node [2] 1 [1, 2, 3, 4] 1) [prepared 1,
      deliver (committedMsg [1, 2, 3, 4] [1, 2, 3] 1 9 (blk 1 0 0) 1) 1]).decider.participants := by
  decide +kernel

end Concrete

end Benzene
