import Benzene.Consensus.CommitSpec
import Benzene.Consensus.Concrete

/-!
# Refreshing the committee

`UpdateConsensusInformation` (consensus/consensus_service.go:290-463) returns Syncing before it has
changed anything when a read of the shard state fails.  It does not look at the error of
`BLSPublicKeys`, and the keys that come with an error are nil: then the node has no participants,
and the mode is Listening.

* `Reads`: what the reads have to give, with the epoch they ask for.
* `AllOrNothing`: a refresh fails without an effect, or installs the whole committee.
* `allOrNothing_iff`: it is so exactly when the keys of the committee that was read decode.
-/

namespace Benzene

/-- The keys of a committee in the shard package: `BLSPublicKeys` decodes the key of every slot,
    and returns nil when one of them fails. -/
structure Env.SlotKeys (E : Env) where
  /-- The `BLSPublicKey` of every slot. -/
  slotKeys : E.Committee → List SerializedPublicKey
  /-- `BytesToBLSPublicKey`. -/
  decode : SerializedPublicKey → Option E.PubKey
  length_slotKeys : ∀ c, (slotKeys c).length = E.slots c
  blsPublicKeys_eq : ∀ c, E.blsPublicKeys c = ((slotKeys c).mapM decode).getD []

/-- Decoding keeps the number of keys. -/
theorem length_of_mapM {α β : Type*} {f : α → Option β} {l : List α} {l' : List β}
    (h : l.mapM f = some l') : l'.length = l.length := by
  induction l generalizing l' with
  | nil =>
    obtain rfl := Option.some.inj h
    rfl
  | cons a l ih =>
    rw [List.mapM_cons] at h
    obtain ⟨b, -, h⟩ := Option.bind_eq_some_iff.1 h
    obtain ⟨bs, hbs, h⟩ := Option.bind_eq_some_iff.1 h
    obtain rfl := Option.some.inj h
    rw [List.length_cons, List.length_cons, ih hbs]

namespace Consensus

variable {E : Env} {s : Consensus E} {c : E.Committee} {keys : List E.PubKey}

/-! ## The committee that is read -/

/-- The head is the last block of its epoch, and not the genesis block. -/
def headEndsEpoch (s : Consensus E) : Prop :=
  E.isLastBlockInEpoch (E.currentHeader s.blockchain) = true ∧
    0 < (E.currentHeader s.blockchain).number

instance (s : Consensus E) : Decidable s.headEndsEpoch := inferInstanceAs (Decidable (_ ∧ _))

/-- The epoch of the committee: the next one after the last block of an epoch, which may carry its
    number, and the current one otherwise. -/
def epochToSet (s : Consensus E) : ℕ :=
  let head := E.currentHeader s.blockchain
  if s.headEndsEpoch then (E.getShardState head).join.getD (E.epoch head + 1) else E.epoch head

/-- All reads succeed, and give the committee. -/
structure Reads (s : Consensus E) (c : E.Committee) : Prop where
  header : E.isLastBlockInEpoch (E.currentHeader s.blockchain) = true →
    (E.getShardState (E.currentHeader s.blockchain)).isSome
  current : (E.readFromDB (E.epoch (E.currentHeader s.blockchain)) s.blockchain).isSome
  found : ∃ state, E.readFromDB s.epochToSet s.blockchain = some state ∧
    E.findCommitteeByID state (E.currentHeader s.blockchain).shardID = some c

theorem nextEpoch_isSome_iff : s.nextEpoch.isSome ↔
    (E.isLastBlockInEpoch (E.currentHeader s.blockchain) = true →
      (E.getShardState (E.currentHeader s.blockchain)).isSome) := by
  unfold nextEpoch
  dsimp only
  split_ifs with hlast
  · simp [hlast]
  · simp [hlast]

theorem nextEpoch_eq_epochToSet {epoch : ℕ} (h : s.nextEpoch = some epoch)
    (hends : s.headEndsEpoch) : s.epochToSet = epoch := by
  unfold nextEpoch at h
  dsimp only at h
  rw [if_pos hends.1] at h
  obtain ⟨number, hstate, rfl⟩ := Option.map_eq_some_iff.1 h
  unfold epochToSet
  dsimp only
  rw [if_pos hends, hstate]
  rfl

theorem committeeToSet_eq_some_iff : s.committeeToSet = some c ↔ s.Reads c := by
  have hheader := @nextEpoch_isSome_iff E s
  unfold committeeToSet
  dsimp only
  cases hnext : s.nextEpoch with
  | none =>
    rw [hnext] at hheader
    exact iff_of_false (by simp) fun h => absurd (hheader.2 h.header) (by simp)
  | some epoch =>
    rw [hnext] at hheader
    cases hcurrent : E.readFromDB (E.epoch (E.currentHeader s.blockchain)) s.blockchain with
    | none => exact iff_of_false (by simp) fun h => absurd h.current (by simp [hcurrent])
    | some curState =>
      have hreads : s.Reads c ↔ ∃ state, E.readFromDB s.epochToSet s.blockchain = some state ∧
          E.findCommitteeByID state (E.currentHeader s.blockchain).shardID = some c :=
        ⟨fun h => h.found, fun h => ⟨hheader.1 rfl, by simp [hcurrent], h⟩⟩
      rw [hreads]
      dsimp only
      by_cases hends : s.headEndsEpoch
      · rw [nextEpoch_eq_epochToSet hnext hends]
        have hcond : (E.isLastBlockInEpoch (E.currentHeader s.blockchain) &&
            decide (0 < (E.currentHeader s.blockchain).number)) = true := by
          rw [Bool.and_eq_true, decide_eq_true_iff]
          exact hends
        simp only [hcond, if_true]
        cases E.readFromDB epoch s.blockchain <;> simp
      · have hepoch : s.epochToSet = E.epoch (E.currentHeader s.blockchain) := if_neg hends
        have hcond : ¬ (E.isLastBlockInEpoch (E.currentHeader s.blockchain) &&
            decide (0 < (E.currentHeader s.blockchain).number)) = true := by
          rw [Bool.and_eq_true, decide_eq_true_iff]
          exact hends
        rw [if_neg hcond, hepoch, hcurrent]
        simp

/-! ## All or nothing -/

/-- Every read and every decoding succeeds, with these keys. -/
def Decodes (K : E.SlotKeys) (s : Consensus E) (keys : List E.PubKey) : Prop :=
  ∃ c, s.Reads c ∧ (K.slotKeys c).mapM K.decode = some keys

/-- The node has the private key of one of the keys. -/
def OwnsOne (s : Consensus E) (keys : List E.PubKey) : Prop :=
  ∃ key ∈ keys, ∃ own ∈ s.priKey, own.pub.object = key.object

/-- A bitmap over the keys in which nobody has signed. -/
def Blank (keys : List E.PubKey) (mask : E.Mask) : Prop :=
  E.masks.publics mask = keys ∧ ∀ i, testBit (E.masks.bitmap mask) i = false

/-- Participants, votes, leader and bitmaps are as they were. -/
structure SameCommittee (s s' : Consensus E) : Prop where
  decider : s'.decider = s.decider
  leaderPubKey : s'.leaderPubKey = s.leaderPubKey
  prepareBitmap : s'.prepareBitmap = s.prepareBitmap
  commitBitmap : s'.commitBitmap = s.commitBitmap
  multiSigBitmap : s'.multiSigBitmap = s.multiSigBitmap

/-- The keys are the committee of the node, for a new round, and the mode says whether the node is
    a member.  The view-change votes stay: no code casts one. -/
structure Installed (s : Consensus E) (keys : List E.PubKey) (r : Consensus E × Mode) : Prop where
  participants : r.1.decider.participants = keys
  prepare : r.1.decider.prepare = ∅
  commit : r.1.decider.commit = ∅
  viewChange : r.1.decider.viewChange = s.decider.viewChange
  leader : keys.head? = some r.1.leaderPubKey
  prepareBitmap : Blank keys r.1.prepareBitmap
  commitBitmap : Blank keys r.1.commitBitmap
  multiSigBitmap : Blank keys r.1.multiSigBitmap
  normal_iff : r.2 = .normal ↔ s.OwnsOne keys
  listening_iff : r.2 = .listening ↔ ¬ s.OwnsOne keys

/-- A refresh either fails and changes nothing, or installs the committee, if that has members. -/
structure AllOrNothing (K : E.SlotKeys) (s : Consensus E) : Prop where
  installed : ∀ keys, s.Decodes K keys → keys ≠ [] →
    s.Installed keys s.updateConsensusInformation
  failed : (¬ ∃ keys, s.Decodes K keys) → s.updateConsensusInformation.2 = .syncing ∧
    s.SameCommittee s.updateConsensusInformation.1

theorem not_decodes {K : E.SlotKeys} (hreads : s.Reads c)
    (hfail : (K.slotKeys c).mapM K.decode = none) : ¬ ∃ keys, s.Decodes K keys := by
  rintro ⟨keys, c', hreads', hdecode⟩
  rw [← committeeToSet_eq_some_iff] at hreads hreads'
  obtain rfl : c = c' := Option.some.inj (hreads.symm.trans hreads')
  rw [hfail] at hdecode
  cases hdecode

theorem updateConsensusInformation_none (h : s.committeeToSet = none) :
    s.updateConsensusInformation = (s, .syncing) := by
  unfold updateConsensusInformation
  rw [h]

theorem ownsOne_iff_any : s.OwnsOne keys ↔ (keys.any fun key =>
    (s.updatePublicKeys keys).priKey.any fun own => own.pub.object == key.object) = true := by
  have hkept : (s.updatePublicKeys keys).priKey = s.priKey := by
    rw [updatePublicKeys_eq]
    rfl
  rw [hkept]
  simp only [OwnsOne, List.any_eq_true, beq_iff_eq]

/-- The mode once a committee with slots, or without a key of the node, has been read. -/
theorem updateConsensusInformation_mode (hc : s.committeeToSet = some c)
    (hslots : E.slots c ≠ 0 ∨ E.blsPublicKeys c = []) :
    (s.updateConsensusInformation.2 = .normal ∧ s.OwnsOne (E.blsPublicKeys c)) ∨
      (s.updateConsensusInformation.2 = .listening ∧ ¬ s.OwnsOne (E.blsPublicKeys c)) := by
  rw [ownsOne_iff_any]
  unfold updateConsensusInformation
  rw [hc]
  dsimp only
  split_ifs with hown herr hnew
  · rcases hslots with hslots | hnil
    · exact absurd (beq_iff_eq.1 herr) hslots
    · rw [hnil] at hown
      cases hown
  · exact Or.inl ⟨rfl, hown⟩
  · exact Or.inl ⟨rfl, hown⟩
  · exact Or.inr ⟨rfl, hown⟩

/-- `UpdatePublicKeys` with at least one key. -/
theorem updateConsensusInformation_installed (hc : s.committeeToSet = some c)
    (hkeys : E.blsPublicKeys c = keys) (hne : keys ≠ []) (hslots : E.slots c ≠ 0) :
    s.Installed keys s.updateConsensusInformation := by
  have hmode := updateConsensusInformation_mode hc (Or.inl hslots)
  rw [hkeys] at hmode
  rcases s.updateConsensusInformation_cases with ⟨hnone, -⟩ | ⟨c', trace, hc', -, heq⟩
  · rw [hc] at hnone
    cases hnone
  obtain rfl : c = c' := Option.some.inj (hc.symm.trans hc')
  rw [hkeys, updatePublicKeys_eq] at heq
  obtain ⟨key, rest, rfl⟩ := List.exists_cons_of_ne_nil hne
  constructor
  case normal_iff =>
    rcases hmode with ⟨hmode, hown⟩ | ⟨hmode, hown⟩
    · exact iff_of_true hmode hown
    · exact iff_of_false (by simp [hmode]) hown
  case listening_iff =>
    rcases hmode with ⟨hmode, hown⟩ | ⟨hmode, hown⟩
    · exact iff_of_false (by simp [hmode]) (not_not.2 hown)
    · exact iff_of_true hmode hown
  all_goals rw [heq]
  case prepareBitmap =>
    exact ⟨(E.masks.clear_publics _).trans (E.masks.newMask_publics _), E.masks.clear_bit _⟩
  case commitBitmap =>
    exact ⟨(E.masks.clear_publics _).trans (E.masks.newMask_publics _), E.masks.clear_bit _⟩
  case multiSigBitmap => exact ⟨E.masks.newMask_publics _, E.masks.newMask_bit _⟩
  all_goals rfl

/-- **Refreshing the committee.**  It is all or nothing exactly when no key fails to decode in the
    committee that was read. -/
theorem allOrNothing_iff (K : E.SlotKeys) (s : Consensus E) :
    s.AllOrNothing K ↔ ¬ ∃ c, s.Reads c ∧ (K.slotKeys c).mapM K.decode = none := by
  constructor
  · rintro h ⟨c, hreads, hfail⟩
    have hc := committeeToSet_eq_some_iff.2 hreads
    have hnil : E.blsPublicKeys c = [] := by
      rw [K.blsPublicKeys_eq, hfail]
      rfl
    have hsyncing := (h.failed (not_decodes hreads hfail)).1
    rcases updateConsensusInformation_mode hc (Or.inr hnil) with ⟨hmode, -⟩ | ⟨hmode, -⟩
    all_goals rw [hmode] at hsyncing
    · cases hsyncing
    · cases hsyncing
  · intro hdecodes
    refine ⟨?_, fun hnone => ?_⟩
    · rintro keys ⟨c, hreads, hdecode⟩ hne
      have hkeys : E.blsPublicKeys c = keys := by
        rw [K.blsPublicKeys_eq, hdecode]
        rfl
      have hlen : keys.length = E.slots c := by
        rw [← K.length_slotKeys, length_of_mapM hdecode]
      have hslots : E.slots c ≠ 0 := hlen ▸ fun hzero => hne (List.length_eq_zero_iff.1 hzero)
      exact updateConsensusInformation_installed (committeeToSet_eq_some_iff.2 hreads) hkeys hne
        hslots
    · have hread : s.committeeToSet = none := by
        rw [Option.eq_none_iff_forall_ne_some]
        intro c hc
        have hreads := committeeToSet_eq_some_iff.1 hc
        cases hdecode : (K.slotKeys c).mapM K.decode with
        | none => exact hdecodes ⟨c, hreads, hdecode⟩
        | some keys => exact hnone ⟨keys, c, hreads, hdecode⟩
      rw [updateConsensusInformation_none hread]
      exact ⟨rfl, rfl, rfl, rfl, rfl, rfl⟩

end Consensus

namespace Concrete

/-- `BytesToBLSPublicKey`, with one serialized key that is not a point of the curve. -/
def decodeKey (bytes : SerializedPublicKey) : Option (PublicKeyWrapper bls) :=
  ([1, 2, 4] : List UInt8).findSome? fun k => if (pub k).bytes = bytes then some (pub k) else none

/-- The environment in which the key of the third slot does not decode. -/
def spoiltEnv : Env :=
  { env with blsPublicKeys := fun c =>
      (((show List UInt8 from c).map fun k => (pub k).bytes).mapM decodeKey).getD [] }

def spoiltKeys : spoiltEnv.SlotKeys where
  slotKeys c := (show List UInt8 from c).map fun k => (pub k).bytes
  decode := decodeKey
  length_slotKeys _ := List.length_map _
  blsPublicKeys_eq _ := rfl

/-- A member of the committee at the start of a round. -/
def spoiltNode : Consensus spoiltEnv :=
  { node [1] 1 [1, 2, 4] 1 with
    fbftLog := FBFTLog.newFBFTLog
    tasks := []
    trace := [] }

/-- All reads succeed and one key does not decode: the node forgets its committee and listens. -/
theorem refresh_forgets_committee :
    (∃ c, spoiltNode.Reads c ∧ (spoiltKeys.slotKeys c).mapM spoiltKeys.decode = none) ∧
      spoiltNode.decider.participants = [pub 1, pub 2, pub 4] ∧
      spoiltNode.updateConsensusInformation.1.decider.participants = [] ∧
      spoiltNode.updateConsensusInformation.2 = .listening ∧
      ¬ spoiltNode.AllOrNothing spoiltKeys := by
  have hc : spoiltNode.committeeToSet = some ([1, 2, 3, 4] : List UInt8) := rfl
  have hreads := Consensus.committeeToSet_eq_some_iff.1 hc
  have hfail : (spoiltKeys.slotKeys ([1, 2, 3, 4] : List UInt8)).mapM spoiltKeys.decode = none := by
    decide +kernel
  have hforgets : spoiltNode.updateConsensusInformation.1.decider.participants = [] := by
    decide +kernel
  have hlistens : spoiltNode.updateConsensusInformation.2 = .listening := by decide +kernel
  refine ⟨⟨_, hreads, hfail⟩, rfl, hforgets, hlistens, fun h => ?_⟩
  have hsyncing := (h.failed (Consensus.not_decodes hreads hfail)).1
  rw [hlistens] at hsyncing
  cases hsyncing

end Concrete

end Benzene
