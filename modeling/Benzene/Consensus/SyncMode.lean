import Benzene.Common.Run
import Benzene.Consensus.CommitSpec
import Benzene.Consensus.Concrete

/-!
# Leaving Syncing mode

A message for a later block puts a node into Syncing mode, and the signal on `syncReadyChan` is
meant to bring it back.  The handler of the signal acts only when the chain is ahead of
`blockNum` (consensus/consensus.go:895-907).  `blockNum` moves with the chain when consensus
messages themselves commit the missing blocks, so a node that has caught up in this way gets the
signal without any effect, and stays in Syncing mode.

`leavesSyncing_iff` says that this is the only way to miss the signal.
-/

namespace Benzene

variable {E : Env}

namespace Consensus

variable (s : Consensus E)

/-- The number after the head of the chain. -/
def nextNumber : UInt64 := (E.currentHeader s.blockchain).numberU64 + 1

/-- The reads of `UpdateConsensusInformation` for the head of the chain succeed, and one of the
    node's keys is in the committee they give. -/
def SyncedMember : Prop :=
  ∃ c, s.committeeToSet = some c ∧
    ∃ key ∈ E.blsPublicKeys c, ∃ own ∈ s.priKey, own.pub.object = key.object

/-- The node takes part in the agreement on the block after the head of its chain. -/
def InSync : Prop := s.mode = .normal ∧ s.blockNum = s.nextNumber

/-- What a running member is to do with the signal that it is in sync. -/
def LeavesSyncing (e : NodeEvent E) : Prop :=
  e = .syncReady → s.crashed = false → s.SyncedMember → (s.step e).InSync

/-- A running member gets the signal while the chain is ahead of it, or when it is in sync
    already. -/
def SignalledInTime (e : NodeEvent E) : Prop :=
  e = .syncReady → s.crashed = false → s.SyncedMember → s.blockNum < s.nextNumber ∨ s.InSync

variable {s : Consensus E}

/-- A member finds its key, and a committee with a key has a slot. -/
theorem updateConsensusInformation_normal (hslots : ∀ c, E.slots c = 0 → E.blsPublicKeys c = [])
    (h : s.SyncedMember) : s.updateConsensusInformation.2 = .normal := by
  obtain ⟨c, hc, key, hkey, own, hown, hobject⟩ := h
  have hany : ((E.blsPublicKeys c).any fun key =>
      (s.updatePublicKeys (E.blsPublicKeys c)).priKey.any fun own =>
        own.pub.object == key.object) = true := by
    rw [updatePublicKeys_eq]
    exact List.any_eq_true.2 ⟨key, hkey, List.any_eq_true.2 ⟨own, hown, beq_iff_eq.2 hobject⟩⟩
  have hslot : ¬ (E.slots c == 0) = true := by
    intro hzero
    rw [hslots c (beq_iff_eq.1 hzero)] at hkey
    cases hkey
  unfold updateConsensusInformation
  rw [hc]
  dsimp only
  rw [if_pos hany, if_neg hslot]
  split_ifs <;> rfl

/-- The signal acts when the chain is ahead, and then brings a member in sync. -/
theorem syncReady_inSync_iff (hslots : ∀ c, E.slots c = 0 → E.blsPublicKeys c = [])
    (h : s.SyncedMember) : s.syncReady.InSync ↔ s.blockNum < s.nextNumber ∨ s.InSync := by
  unfold syncReady
  dsimp only
  split_ifs with hbehind
  · refine iff_of_true ?_ (Or.inl hbehind)
    set t : Consensus E := { s with blockNum := s.nextNumber } with ht
    have hkept := t.updateConsensusInformation_kept
    -- the committee is read from the chain, so it is the same for the new block number
    have hmode : t.updateConsensusInformation.2 = .normal :=
      updateConsensusInformation_normal hslots h
    refine ⟨hmode, ?_⟩
    show t.updateConsensusInformation.1.blockNum =
      (E.currentHeader t.updateConsensusInformation.1.blockchain).numberU64 + 1
    rw [hkept.blockNum, hkept.blockchain]
    rfl
  · exact ⟨Or.inr, fun h => h.resolve_left hbehind⟩

/-- **Leaving Syncing mode.**  In every run, from every state, each sync-ready signal leaves a
    member of the committee of the head in Normal mode at the next block, exactly when each such
    signal comes while the chain is ahead of the node, or while the node is in sync anyway.
    A committee without slots has no keys. -/
theorem leavesSyncing_iff (hslots : ∀ c, E.slots c = 0 → E.blsPublicKeys c = [])
    (s : Consensus E) (events : List (NodeEvent E)) :
    Run.Steps step LeavesSyncing s events ↔ Run.Steps step SignalledInTime s events := by
  refine Run.Steps.congr fun s e => ?_
  refine forall_congr' fun he => forall_congr' fun hrunning => forall_congr' fun hmember => ?_
  subst he
  have hstep : s.step .syncReady = s.syncReady :=
    if_neg (by rw [hrunning]; exact Bool.false_ne_true)
  rw [hstep]
  exact syncReady_inSync_iff hslots hmember

end Consensus

namespace Concrete

/-- A validator that the state sync has brought to the third block. -/
theorem synced_validator_leaves_syncing :
    Run.Steps Consensus.step Consensus.LeavesSyncing (node [4] 1 [1, 2, 3, 4] 1)
      [.syncNotReady, .chainChanged (chainTo 3), .syncReady] := by
  refine (Consensus.leavesSyncing_iff ?_ _ _).2 ⟨?_, ?_, ?_, trivial⟩
  · intro c hc
    rw [List.length_eq_zero_iff.1 hc]
    rfl
  · intro he
    cases he
  · intro he
    cases he
  · intro _ _ _
    left
    decide +kernel

/-- A COMMITTED message for block 2 reaches a validator that waits for block 1 and puts it into
    Syncing mode; then the messages of block 1 arrive. -/
def outOfOrder : List (NodeEvent env) :=
  [deliver (committedMsg [1, 2, 3, 4] [1, 2, 3] 1 1 (blk 2 0 0) 2) 1,
    deliver (preparedMsg [1, 2, 3, 4] [1, 2, 3] 1 (blk 1 0 0) 1) 1,
    deliver (committedMsg [1, 2, 3, 4] [1, 2, 3] 1 1 (blk 1 0 0) 1) 1]

/-- The consensus messages have committed the missing block 1 when the signal comes: the node is
    a member and is at the block after its head, but it stays in Syncing mode. -/
theorem syncReady_without_effect :
    (Run.run Consensus.step (node [4] 1 [1, 2, 3, 4] 1) outOfOrder).SyncedMember ∧
      let s := Run.run Consensus.step (node [4] 1 [1, 2, 3, 4] 1) (outOfOrder ++ [.syncReady])
      s.crashed = false ∧ s.mode = .syncing ∧ s.blockNum = 2 ∧ s.nextNumber = 2 := by
  set s := Run.run Consensus.step (node [4] 1 [1, 2, 3, 4] 1) outOfOrder with hs
  have hcommittee : s.committeeToSet = some members := by decide +kernel
  have hown : pub 4 ∈ s.priKey.map (·.pub) := by decide +kernel
  obtain ⟨own, hmem, hpub⟩ := List.mem_map.1 hown
  refine ⟨⟨members, hcommittee, pub 4, ?_, own, hmem, by rw [hpub]⟩, ?_⟩
  · exact List.mem_map_of_mem (show (4 : UInt8) ∈ [1, 2, 3, 4] by decide)
  · decide +kernel

end Concrete

end Benzene
