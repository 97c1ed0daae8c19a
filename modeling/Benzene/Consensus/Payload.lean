import Benzene.Consensus.Concrete
import Benzene.Quorum.Ballots

/-!
# Certificates on the wire

A PREPARED or COMMITTED message carries an aggregate signature and the bitmap of its signers.
`ReadSignatureBitmapPayload` splits the two and ignores the error of a bitmap that does not fit
the committee: the mask then stays empty, and no quorum test accepts it
(`readSignatureBitmapPayload_of_quorum`).

`payload_sound`: what is read and passes the quorum test is a signature with a bitmap that names
a quorum of the committee, and what `constructQuorumSigAndBitmap` writes is read back.
-/

namespace Benzene

variable {B : Bls}

/-- The members of a committee that a bitmap names. -/
def namedKeys (committee : List (PublicKeyWrapper B)) (bitmap : Bytes) :
    List (PublicKeyWrapper B) :=
  (committee.zipIdx.filter fun p => testBit bitmap p.2).map Prod.fst

theorem namedKeys_sublist (committee : List (PublicKeyWrapper B)) (bitmap : Bytes) :
    (namedKeys committee bitmap).Sublist committee := by
  have h := (List.filter_sublist (l := committee.zipIdx)
    (p := fun p => testBit bitmap p.2)).map Prod.fst
  rwa [List.zipIdx_map_fst] at h

variable {committee : List (PublicKeyWrapper B)}

/-- Only the bits of the members matter. -/
theorem namedKeys_congr {bitmap bitmap' : Bytes}
    (h : ∀ i, i < committee.length → testBit bitmap i = testBit bitmap' i) :
    namedKeys committee bitmap = namedKeys committee bitmap' := by
  unfold namedKeys
  congr 1
  apply List.filter_congr
  rintro ⟨k, i⟩ hmem
  exact h i (List.snd_lt_of_mem_zipIdx hmem)

/-- A bitmap without padding bits has as many bits as it names members. -/
theorem countOneBits_eq_length_namedKeys {bitmap : Bytes}
    (hlen : bitmap.length = (committee.length + 7) / 8)
    (hpad : ∀ i, committee.length ≤ i → testBit bitmap i = false) :
    countOneBits bitmap = (namedKeys committee bitmap).length := by
  have hrange : ((committee.zipIdx.filter fun p => testBit bitmap p.2).map Prod.snd) =
      (List.range committee.length).filter (testBit bitmap) := by
    have hsnd : committee.zipIdx.map Prod.snd = List.range committee.length := by
      rw [List.zipIdx_map_snd, List.range_eq_range']
    rw [← hsnd, List.filter_map]
    rfl
  calc countOneBits bitmap
      = ((Finset.range committee.length).filter fun i => testBit bitmap i).card :=
        countOneBits_eq_card_range (by omega) hpad
    _ = ((List.range committee.length).filter (testBit bitmap)).length := by
        rw [← List.toFinset_card_of_nodup (List.nodup_range.filter _)]
        congr 1
        ext i
        simp
    _ = (namedKeys committee bitmap).length := by
        rw [← hrange, namedKeys, List.length_map, List.length_map]

namespace Consensus

variable {E : Env} {s : Consensus E}

/-- A payload that is read has a signature in front. -/
theorem readSignatureBitmapPayload_eq_some {payload : Bytes} {aggSig : E.Sign} {mask : E.Mask}
    (h : s.readSignatureBitmapPayload payload = some (aggSig, mask)) :
    (payload.take 96).length = 96 ∧ E.bls.deserialize (payload.take 96) = some aggSig ∧
      mask = (E.masks.setMask (E.masks.newMask s.decider.participants) (payload.drop 96)).getD
        (E.masks.newMask s.decider.participants) := by
  unfold readSignatureBitmapPayload readSignatureBitmapByPublicKeys at h
  split_ifs at h with hshort
  cases hsig : E.bls.deserialize (payload.take blsSignatureSizeInBytes) with
  | none => simp [hsig] at h
  | some sig =>
    simp only [hsig, Option.some.injEq, Prod.mk.injEq] at h
    have hlen : ¬ payload.length < 96 := hshort
    exact ⟨by rw [List.length_take]; omega, by rw [← h.1]; exact hsig, h.2.symm⟩

/-- An empty mask is no quorum. -/
theorem not_quorum_newMask (d : Decider E.bls) (committee : List E.PubKey) :
    d.isQuorumAchievedByMask (M := E.masks) (some (E.masks.newMask committee)) = false := by
  have hzero : countOneBits (E.masks.bitmap (E.masks.newMask committee)) = 0 := by
    rw [countOneBits_eq_card, Finset.card_eq_zero, Finset.filter_eq_empty_iff]
    intro i _
    rw [E.masks.newMask_bit]
    simp
  simp [Decider.isQuorumAchievedByMask, hzero, Decider.twoThirdsSignersCount]

/-- A payload that is read and passes the quorum test has a bitmap of the right length, and the
    mask has its bits. -/
theorem readSignatureBitmapPayload_of_quorum {payload : Bytes} {aggSig : E.Sign} {mask : E.Mask}
    (h : s.readSignatureBitmapPayload payload = some (aggSig, mask))
    (hq : s.decider.isQuorumAchievedByMask (M := E.masks) (some mask) = true) :
    (payload.drop 96).length = (s.decider.participants.length + 7) / 8 ∧
      E.masks.publics mask = s.decider.participants ∧
      ∀ i, i < s.decider.participants.length →
        testBit (E.masks.bitmap mask) i = testBit (payload.drop 96) i := by
  obtain ⟨-, -, hmask⟩ := readSignatureBitmapPayload_eq_some h
  cases hset : E.masks.setMask (E.masks.newMask s.decider.participants) (payload.drop 96) with
  | none =>
    -- the error of `SetMask` is ignored, and the mask is empty
    rw [hset, Option.getD_none] at hmask
    rw [hmask, not_quorum_newMask] at hq
    cases hq
  | some mask' =>
    rw [hset, Option.getD_some] at hmask
    subst hmask
    have hpublics := E.masks.newMask_publics s.decider.participants
    have hfits := (E.masks.setMask_isSome _ _).1 (Option.isSome_iff_exists.2 ⟨mask, hset⟩)
    rw [E.masks.bitmap_length, hpublics] at hfits
    refine ⟨hfits, (E.masks.setMask_publics _ _ _ hset).trans hpublics, fun i hi => ?_⟩
    exact E.masks.setMask_bit _ _ _ i hset (by rwa [hpublics])

theorem constructQuorumSigAndBitmap_eq (s : Consensus E) (order : MapOrder E) {p : Phase}
    (hp : p ≠ .viewChange) : s.constructQuorumSigAndBitmap order p =
      E.bls.serialize (s.decider.aggregateVotes order.ballots p) ++
        E.masks.bitmap (s.bitmap p) := by
  cases p with
  | prepare | commit => rfl
  | viewChange => exact absurd rfl hp

/-- **Payloads are sound**, for a committee of distinct keys.  A payload that is read without an
    error and passes the quorum test is a signature of 96 bytes and a bitmap with one bit for
    each member; the bitmap names at least `2n/3 + 1` different members, and the aggregate key of
    the mask is the sum of their keys.  A payload that `constructQuorumSigAndBitmap` writes for
    the same committee is read back to the same signature and the same keys. -/
theorem payload_sound (E : Env) (s : Consensus E)
    (hnd : (s.decider.participants.map (·.bytes)).Nodup) :
    (∀ (payload : Bytes) (aggSig : E.Sign) (mask : E.Mask),
      s.readSignatureBitmapPayload payload = some (aggSig, mask) →
      s.decider.isQuorumAchievedByMask (M := E.masks) (some mask) = true →
      ∃ sig bitmap, payload = sig ++ bitmap ∧ sig.length = 96 ∧
        E.bls.deserialize sig = some aggSig ∧
        bitmap.length = (s.decider.participants.length + 7) / 8 ∧
        ((namedKeys s.decider.participants bitmap).map (·.bytes)).Nodup ∧
        2 * s.decider.participants.length / 3 + 1 ≤
          (namedKeys s.decider.participants bitmap).length ∧
        E.masks.aggregatePublic mask =
          ((namedKeys s.decider.participants bitmap).map (·.object)).sum) ∧
    ∀ (order : MapOrder E) (p : Phase), p ≠ .viewChange →
      E.masks.publics (s.bitmap p) = s.decider.participants →
      ∃ mask, s.readSignatureBitmapPayload (s.constructQuorumSigAndBitmap order p) =
          some (s.decider.aggregateVotes order.ballots p, mask) ∧
        E.masks.publics mask = s.decider.participants ∧
        namedKeys s.decider.participants (E.masks.bitmap mask) =
          namedKeys s.decider.participants (E.masks.bitmap (s.bitmap p)) := by
  refine ⟨fun payload aggSig mask h hq => ?_, fun order p hp hpublics => ?_⟩
  · obtain ⟨hlen, hsig, -⟩ := readSignatureBitmapPayload_eq_some h
    obtain ⟨hfits, hpublics, hbits⟩ := readSignatureBitmapPayload_of_quorum h hq
    have hnamed : namedKeys s.decider.participants (payload.drop 96) =
        namedKeys s.decider.participants (E.masks.bitmap mask) :=
      namedKeys_congr fun i hi => (hbits i hi).symm
    have hcount : countOneBits (E.masks.bitmap mask) =
        (namedKeys s.decider.participants (E.masks.bitmap mask)).length :=
      countOneBits_eq_length_namedKeys (by rw [E.masks.bitmap_length, hpublics])
        (fun i hi => E.masks.bitmap_padding mask i (by rwa [hpublics]))
    refine ⟨payload.take 96, payload.drop 96, (List.take_append_drop 96 payload).symm, hlen, hsig,
      hfits, hnd.sublist ((namedKeys_sublist _ _).map _), ?_, ?_⟩
    · rw [hnamed, ← hcount]
      simp only [Decider.isQuorumAchievedByMask] at hq
      split_ifs at hq with hlow
      have hthreshold := not_lt.1 hlow
      rwa [Decider.twoThirdsSignersCount, Decider.participantsCount, Nat.mul_comm] at hthreshold
    · rw [hnamed, E.masks.aggregatePublic_eq, hpublics, namedKeys, List.map_map]
      rfl
  · have hnew := E.masks.newMask_publics s.decider.participants
    have hfits : (E.masks.setMask (E.masks.newMask s.decider.participants)
        (E.masks.bitmap (s.bitmap p))).isSome := by
      rw [E.masks.setMask_isSome, E.masks.bitmap_length, E.masks.bitmap_length, hpublics, hnew]
    obtain ⟨mask, hmask⟩ := Option.isSome_iff_exists.1 hfits
    refine ⟨mask, ?_, (E.masks.setMask_publics _ _ _ hmask).trans hnew, namedKeys_congr ?_⟩
    · rw [constructQuorumSigAndBitmap_eq s order hp, readSignatureBitmapPayload_append, hmask,
        Option.getD_some]
    · intro i hi
      exact E.masks.setMask_bit _ _ _ i hmask (by rwa [hnew])

end Consensus

end Benzene

namespace Benzene.Concrete

/-- A member of a committee of four. -/
def memberOfFour : Consensus env := node [2] 1 [1, 2, 3, 4] 1

/-- The certificate of three members. -/
def threeOfFour : Bytes := certificate [1, 2, 3, 4] [1, 2, 3] (env.blockHash (blk 1 0 0)).toList

theorem threeOfFour_sound :
    (memberOfFour.readSignatureBitmapPayload threeOfFour).isSome = true ∧
      (memberOfFour.readSignatureBitmapPayload threeOfFour).any (fun r =>
        memberOfFour.decider.isQuorumAchievedByMask (M := env.masks) (some r.2)) = true ∧
      ∃ sig bitmap, threeOfFour = sig ++ bitmap ∧ sig.length = 96 ∧ bitmap.length = 1 ∧
        3 ≤ (namedKeys memberOfFour.decider.participants bitmap).length := by
  have hsome : (memberOfFour.readSignatureBitmapPayload threeOfFour).isSome = true := by
    decide +kernel
  have hquorum : (memberOfFour.readSignatureBitmapPayload threeOfFour).any (fun r =>
      memberOfFour.decider.isQuorumAchievedByMask (M := env.masks) (some r.2)) = true := by
    decide +kernel
  refine ⟨hsome, hquorum, ?_⟩
  obtain ⟨⟨aggSig, mask⟩, hread⟩ := Option.isSome_iff_exists.1 hsome
  rw [hread] at hquorum
  obtain ⟨sig, bitmap, heq, hsig, -, hbits, -, hnamed, -⟩ :=
    (Consensus.payload_sound env memberOfFour (by decide +kernel)).1 threeOfFour aggSig mask hread
      hquorum
  exact ⟨sig, bitmap, heq, hsig, hbits, hnamed⟩

end Benzene.Concrete
