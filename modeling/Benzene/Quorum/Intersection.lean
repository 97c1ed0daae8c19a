import Benzene.Common.Threshold
import Benzene.External.Concrete
import Benzene.Quorum.Decider

/-!
# Quorum intersection and availability

The two quorum tests of the decider read the same thing: the number of committee keys
that signed, counted once as ballots and once as bits of a mask.

* `signersCount_eq_card`, `countOneBits_eq_card_of_marks`: both counts are the size of the
  set of signers.
* `quorum_intersection_and_availability`: two quorums, by either test, share more than
  `⌊(n - 1) / 3⌋` keys; all but that many keys are a quorum by both tests; and on one set
  of keys the tests agree.
-/

namespace Benzene

open Threshold

variable {B : Bls}

/-- The serialized keys of a committee. -/
def committeeKeys (committee : List (PublicKeyWrapper B)) : Finset SerializedPublicKey :=
  (committee.map (·.bytes)).toFinset

variable {committee : List (PublicKeyWrapper B)} {A : Finset SerializedPublicKey}

theorem committeeKeys_card (hnd : (committee.map (·.bytes)).Nodup) :
    (committeeKeys committee).card = committee.length := by
  rw [committeeKeys, List.toFinset_card_of_nodup hnd, List.length_map]

/-- The keys with a ballot of phase `p`. -/
def Decider.signers (d : Decider B) (p : Phase) : Finset SerializedPublicKey :=
  (d.ballotBox p).keys.toFinset

/-- A bitmap marks exactly the keys `A` of a committee: it has one bit for each member,
    set for the members of `A`, and zero padding. -/
structure Marks (committee : List (PublicKeyWrapper B)) (bitmap : Bytes)
    (A : Finset SerializedPublicKey) : Prop where
  length : bitmap.length = (committee.length + 7) / 8
  padding : ∀ i, committee.length ≤ i → testBit bitmap i = false
  bit : ∀ i (hi : i < committee.length),
    testBit bitmap i = true ↔ (committee.get ⟨i, hi⟩).bytes ∈ A

/-- `A` is a quorum of the committee by one of the two tests. -/
inductive IsQuorum (M : MaskLib B) (committee : List (PublicKeyWrapper B))
    (A : Finset SerializedPublicKey) : Prop
  | byBallots (d : Decider B) (p : Phase) (hd : d.publicKeys = committee)
      (hA : d.signers p = A) (h : d.isQuorumAchieved p = true)
  | byMask (d : Decider B) (mask : M.Mask) (hd : d.publicKeys = committee)
      (hA : Marks committee (M.bitmap mask) A)
      (h : d.isQuorumAchievedByMask (some mask) = true)

/-! ## Both tests count the signers -/

theorem Decider.signersCount_eq_card (d : Decider B) (p : Phase) :
    d.signersCount p = (d.signers p).card :=
  GoMap.size_eq_card_keys _

theorem countOneBits_eq_card_of_marks {bitmap : Bytes} (hnd : (committee.map (·.bytes)).Nodup)
    (hA : A ⊆ committeeKeys committee) (hm : Marks committee bitmap A) :
    countOneBits bitmap = A.card := by
  have hlen : committee.length ≤ 8 * bitmap.length := by
    rw [hm.length]
    omega
  rw [countOneBits_eq_card_range hlen hm.padding]
  -- position ↦ key is a bijection from the set bits to `A`
  refine Finset.card_bij (fun i hi =>
    (committee.get ⟨i, Finset.mem_range.1 (Finset.mem_filter.1 hi).1⟩).bytes) ?_ ?_ ?_
  · intro i hi
    exact (hm.bit i _).1 (Finset.mem_filter.1 hi).2
  · intro i hi j hj heq
    have hi' := Finset.mem_range.1 (Finset.mem_filter.1 hi).1
    have hj' := Finset.mem_range.1 (Finset.mem_filter.1 hj).1
    have hinj := List.nodup_iff_injective_get.1 hnd
    have hij := @hinj ⟨i, by simpa using hi'⟩ ⟨j, by simpa using hj'⟩ (by simpa using heq)
    simpa using hij
  · intro k hk
    have hmem := hA hk
    rw [committeeKeys, List.mem_toFinset, List.mem_iff_getElem] at hmem
    obtain ⟨i, hi, rfl⟩ := hmem
    rw [List.length_map] at hi
    refine ⟨i, Finset.mem_filter.2 ⟨Finset.mem_range.2 hi, (hm.bit i hi).2 ?_⟩, ?_⟩
    · simpa using hk
    · simp

theorem isQuorumAchieved_iff (d : Decider B) (p : Phase) :
    d.isQuorumAchieved p = true ↔ twoThirds d.publicKeys.length ≤ (d.signers p).card := by
  rw [← d.signersCount_eq_card p]
  exact decide_eq_true_iff

theorem isQuorumAchievedByMask_iff {M : MaskLib B} (d : Decider B) {mask : M.Mask}
    (hnd : (d.publicKeys.map (·.bytes)).Nodup) (hA : A ⊆ committeeKeys d.publicKeys)
    (hm : Marks d.publicKeys (M.bitmap mask) A) :
    d.isQuorumAchievedByMask (some mask) = true ↔ twoThirds d.publicKeys.length ≤ A.card := by
  rw [← countOneBits_eq_card_of_marks hnd hA hm]
  simp only [Decider.isQuorumAchievedByMask]
  split_ifs with h
  · exact ⟨fun hf => absurd hf (by decide), fun hle => absurd h (not_lt.2 hle)⟩
  · exact ⟨fun _ => not_lt.1 h, fun _ => rfl⟩

theorem IsQuorum.twoThirds_le {M : MaskLib B} (hnd : (committee.map (·.bytes)).Nodup)
    (hA : A ⊆ committeeKeys committee) (h : IsQuorum M committee A) :
    twoThirds committee.length ≤ A.card := by
  cases h with
  | byBallots d p hd hs hq =>
    subst hd hs
    exact (isQuorumAchieved_iff d p).1 hq
  | byMask d mask hd hm hq =>
    subst hd
    exact (isQuorumAchievedByMask_iff d hnd hA hm).1 hq

/-! ## Main theorem -/

/-- **Quorum intersection and availability.** For a committee of `n ≥ 1` distinct keys and
    `f = ⌊(n - 1) / 3⌋`: two sets of committee keys that are quorums by either test share
    at least `f + 1` keys; every set of at least `n - f` committee keys passes both tests;
    and the two tests agree on every set of committee keys, the mask test counting exactly
    the set bits. -/
theorem quorum_intersection_and_availability (M : MaskLib B)
    (committee : List (PublicKeyWrapper B)) (hn : 1 ≤ committee.length)
    (hnd : (committee.map (·.bytes)).Nodup) :
    (∀ A A', A ⊆ committeeKeys committee → A' ⊆ committeeKeys committee →
      IsQuorum M committee A → IsQuorum M committee A' →
      (committee.length - 1) / 3 + 1 ≤ (A ∩ A').card) ∧
    (∀ A, A ⊆ committeeKeys committee →
      committee.length - (committee.length - 1) / 3 ≤ A.card →
      ∀ d : Decider B, d.publicKeys = committee →
        (∀ p, d.signers p = A → d.isQuorumAchieved p = true) ∧
        (∀ mask : M.Mask, Marks committee (M.bitmap mask) A →
          d.isQuorumAchievedByMask (some mask) = true)) ∧
    (∀ A, A ⊆ committeeKeys committee →
      ∀ (d : Decider B) (p : Phase) (mask : M.Mask), d.publicKeys = committee →
        d.signers p = A → Marks committee (M.bitmap mask) A →
        d.isQuorumAchieved p = d.isQuorumAchievedByMask (some mask) ∧
        countOneBits (M.bitmap mask) = A.card) := by
  refine ⟨?_, ?_, ?_⟩
  · intro A A' hA hA' hq hq'
    have hqA := hq.twoThirds_le hnd hA
    have hqA' := hq'.twoThirds_le hnd hA'
    rw [← committeeKeys_card hnd] at hqA hqA'
    have hinter := faultBound_lt_card_inter hA hA' hqA hqA'
    rw [committeeKeys_card hnd] at hinter
    exact hinter
  · intro A hA hcard d hd
    subst hd
    have hle : twoThirds d.publicKeys.length ≤ A.card :=
      le_trans (twoThirds_le_sub_faultBound hn) hcard
    refine ⟨?_, ?_⟩
    · intro p hp
      rw [isQuorumAchieved_iff, hp]
      exact hle
    · intro mask hm
      exact (isQuorumAchievedByMask_iff d hnd hA hm).2 hle
  · intro A hA d p mask hd hp hm
    subst hd
    refine ⟨?_, countOneBits_eq_card_of_marks hnd hA hm⟩
    rw [Bool.eq_iff_iff, isQuorumAchieved_iff, isQuorumAchievedByMask_iff d hnd hA hm, hp]

namespace Concrete

/-- Four keys. -/
def committee4 : List (PublicKeyWrapper bls) := [pub 1, pub 2, pub 3, pub 4]

/-- A decider of the four keys with prepare ballots of the keys `bs`. -/
def decider4 (bs : List UInt8) : Decider bls where
  publicKeys := committee4
  prepare := GoMap.insertAll ∅ (bs.map fun b => (pub b).bytes) ⟨[], zeroBytes 32, [], 0, 0⟩
  commit := ∅
  viewChange := ∅

/-- The keys `1, 2, 3` as ballots and `2, 3, 4` as ballots share at least two keys. -/
theorem quorum_intersection_four :
    1 ≤ committee4.length ∧ (committee4.map (·.bytes)).Nodup ∧
    2 ≤ ((decider4 [1, 2, 3]).signers .prepare ∩ (decider4 [2, 3, 4]).signers .prepare).card := by
  refine ⟨by decide, by decide, ?_⟩
  refine (quorum_intersection_and_availability (maskLib bls) committee4 (by decide)
    (by decide)).1 _ _ (by decide) (by decide) ?_ ?_
  · exact .byBallots (decider4 [1, 2, 3]) .prepare rfl rfl (by decide)
  · exact .byBallots (decider4 [2, 3, 4]) .prepare rfl rfl (by decide)

end Concrete

end Benzene
