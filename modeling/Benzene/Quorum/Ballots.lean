import Benzene.Quorum.Intersection

/-!
# Ballot boxes, masks and certificates

A ballot box of one phase holds a ballot under each key that signed it.

* `BallotBox.Valid`: every ballot is a signature of its signers, all of them members, over
  one payload, and is stored under each of them.  Votes of members keep it
  (`addNewVote_valid`).
* `Tracks`: a mask marks exactly a set of members; kept by `SetKey` and `SetKeysAtomic`.
* `aggregateVotes_collects`: the loop of `AggregateVotes` takes every ballot of a box once, and so
  the votes of a valid box add up to the signature of its keys (`aggregateVotes_eq`).
* `verifyHash_of_tracks`: with the mask of the same keys this verifies.
-/

namespace Benzene

variable {B : Bls}

/-- The sum of the keys with given serializations. -/
def Bls.keySum (B : Bls) (ks : List SerializedPublicKey) : B.PublicKey := (ks.map B.keyObject).sum

theorem Bls.keySum_bytes (ks : List (PublicKeyWrapper B)) :
    B.keySum (ks.map (·.bytes)) = (ks.map (·.object)).sum := by
  simp [Bls.keySum, Function.comp_def]

theorem Bls.keySum_flatMap {α : Type*} (l : List α) (f : α → List SerializedPublicKey) :
    B.keySum (l.flatMap f) = (l.map fun x => B.keySum (f x)).sum := by
  simp [Bls.keySum, List.flatMap, List.map_flatten, Function.comp_def]

theorem Bls.keySum_eq_sum {ks : List SerializedPublicKey} (h : ks.Nodup) :
    B.keySum ks = ∑ k ∈ ks.toFinset, B.keyObject k :=
  (List.sum_toFinset B.keyObject h).symm

/-! ## Votes -/

variable {p : Phase} {d d' : Decider B} {sig : B.Sign} {headerHash : Hash} {height viewID : UInt64}
  {keys ks : List (PublicKeyWrapper B)} {ballot : Ballot} {k : SerializedPublicKey}

/-- A vote is recorded when no key of it is repeated or has voted before. -/
theorem voteError_eq_none {seen ks : List SerializedPublicKey} (h : d.voteError p seen ks = none) :
    ks.Nodup ∧ ∀ k ∈ ks, k ∉ seen ∧ d.readBallot p k = none := by
  induction ks generalizing seen with
  | nil => simp
  | cons k ks ih =>
    rw [Decider.voteError] at h
    split_ifs at h with hseen hcast
    obtain ⟨hnd, hks⟩ := ih h
    refine ⟨List.nodup_cons.2 ⟨fun hk => (hks k hk).1 List.mem_cons_self, hnd⟩, ?_⟩
    intro k' hk'
    rcases List.mem_cons.1 hk' with rfl | hk'
    · exact ⟨hseen, by simpa using hcast⟩
    · exact ⟨fun hk => (hks k' hk').1 (List.mem_cons_of_mem _ hk), (hks k' hk').2⟩

theorem addNewVote_eq_ok (h : d.addNewVote p keys sig headerHash height viewID = .ok (d', ballot)) :
    ballot = ⟨keys.map (·.bytes), headerHash, B.serialize sig, height, viewID⟩ ∧
      d.voteError p [] (keys.map (·.bytes)) = none ∧
      d' = d.setBallotBox (GoMap.insertAll (d.ballotBox p) (keys.map (·.bytes)) ballot) p := by
  unfold Decider.addNewVote Decider.submitVote at h
  cases hnone : d.voteError p [] (keys.map (·.bytes)) with
  | some err =>
    rw [hnone] at h
    cases h
  | none =>
    rw [hnone] at h
    obtain ⟨rfl, rfl⟩ := Prod.mk.inj (Except.ok.inj h)
    exact ⟨rfl, rfl, rfl⟩

/-- A vote with one key is refused only when that key has voted. -/
theorem addNewVote_single_error {key : PublicKeyWrapper B} {err : VoteError}
    (h : d.addNewVote p [key] sig headerHash height viewID = .error err) :
    key.bytes ∈ d.signers p := by
  simp only [Decider.addNewVote, Decider.submitVote, List.map_cons, List.map_nil,
    Decider.voteError, List.not_mem_nil, if_false] at h
  split_ifs at h with hcast
  · rw [Decider.signers, List.mem_toFinset]
    exact AList.lookup_isSome.1 hcast
  · cases h

@[simp] theorem ballotBox_setBallotBox (d : Decider B) (box : BallotBox) (p : Phase) :
    (d.setBallotBox box p).ballotBox p = box := by
  cases p <;> rfl

theorem mem_signers : k ∈ d.signers p ↔ ∃ b, (d.ballotBox p).lookup k = some b := by
  rw [Decider.signers, List.mem_toFinset, ← Option.isSome_iff_exists]
  exact AList.lookup_isSome.symm

theorem addNewVote_signers
    (h : d.addNewVote p keys sig headerHash height viewID = .ok (d', ballot)) :
    d'.signers p = d.signers p ∪ (keys.map (·.bytes)).toFinset := by
  obtain ⟨-, -, rfl⟩ := addNewVote_eq_ok h
  ext k
  rw [Finset.mem_union, mem_signers, mem_signers, List.mem_toFinset, ballotBox_setBallotBox,
    GoMap.lookup_insertAll]
  split_ifs with hk <;> simp [hk]

/-! ## Valid boxes -/

/-- The ballot is a signature of its signers over the payload, and stored under all of them. -/
structure BallotBox.Cast (committee : List (PublicKeyWrapper B)) (payload : Bytes) (box : BallotBox)
    (k : SerializedPublicKey) (b : Ballot) : Prop where
  member : k ∈ committeeKeys committee
  signer : k ∈ b.signerPubKeys
  together : ∀ k' ∈ b.signerPubKeys, box.lookup k' = some b
  nodup : b.signerPubKeys.Nodup
  signature : B.deserialize b.signature = some (B.sigOf payload (B.keySum b.signerPubKeys))

def BallotBox.Valid (committee : List (PublicKeyWrapper B)) (payload : Bytes) (box : BallotBox) :
    Prop := ∀ k b, box.lookup k = some b → BallotBox.Cast committee payload box k b

variable {committee : List (PublicKeyWrapper B)} {payload : Bytes}

theorem BallotBox.valid_of_signers_eq_empty (h : d.signers p = ∅) :
    BallotBox.Valid committee payload (d.ballotBox p) := by
  intro k b hk
  have hmem := mem_signers.2 ⟨b, hk⟩
  rw [h] at hmem
  cases hmem

theorem mem_committeeKeys {k : PublicKeyWrapper B} (h : k ∈ committee) :
    k.bytes ∈ committeeKeys committee :=
  List.mem_toFinset.2 (List.mem_map_of_mem h)

/-- A vote of members with their signature over the payload keeps the box valid. -/
theorem addNewVote_valid (h : d.addNewVote p keys sig headerHash height viewID = .ok (d', ballot))
    (hvalid : BallotBox.Valid committee payload (d.ballotBox p)) (hmem : ∀ k ∈ keys, k ∈ committee)
    (hsig : sig = B.sigOf payload (keys.map (·.object)).sum) :
    BallotBox.Valid committee payload (d'.ballotBox p) := by
  obtain ⟨hballot, hnone, rfl⟩ := addNewVote_eq_ok h
  obtain ⟨hnd, hnew⟩ := voteError_eq_none hnone
  have hsigners : ballot.signerPubKeys = keys.map (·.bytes) := by rw [hballot]
  rw [ballotBox_setBallotBox]
  intro k b hk
  rw [GoMap.lookup_insertAll] at hk
  split_ifs at hk with hkey
  · obtain rfl := Option.some.inj hk
    obtain ⟨key, hmemkey, rfl⟩ := List.mem_map.1 hkey
    refine ⟨mem_committeeKeys (hmem key hmemkey), hsigners ▸ hkey, fun k' hk' => ?_, hsigners ▸ hnd,
      ?_⟩
    · rw [GoMap.lookup_insertAll, if_pos (hsigners ▸ hk')]
    · rw [hsigners, B.keySum_bytes, hballot, B.deserialize_serialize, hsig]
  · have hcast := hvalid k b hk
    refine ⟨hcast.member, hcast.signer, fun k' hk' => ?_, hcast.nodup, hcast.signature⟩
    have hold := hcast.together k' hk'
    have hout : k' ∉ keys.map (·.bytes) := fun hkey => by
      have hnone := (hnew k' hkey).2
      rw [Decider.readBallot, hold] at hnone
      cases hnone
    rw [GoMap.lookup_insertAll, if_neg hout, hold]

/-! ## Masks -/

/-- The mask is over the committee and marks exactly the keys `A`. -/
structure Tracks (M : MaskLib B) (committee : List (PublicKeyWrapper B))
    (A : Finset SerializedPublicKey) (mask : M.Mask) : Prop where
  publics : M.publics mask = committee
  marks : Marks committee (M.bitmap mask) A

variable {M : MaskLib B} {A : Finset SerializedPublicKey} {mask mask' : M.Mask}

theorem Tracks.of_bit (hpublics : M.publics mask = committee)
    (hbit : ∀ i (hi : i < committee.length),
      testBit (M.bitmap mask) i = true ↔ (committee.get ⟨i, hi⟩).bytes ∈ A) :
    Tracks M committee A mask := by
  refine ⟨hpublics, ?_, ?_, hbit⟩
  · rw [M.bitmap_length, hpublics]
  · intro i hi
    exact M.bitmap_padding mask i (hpublics ▸ hi)

theorem Tracks.empty (hpublics : M.publics mask = committee)
    (hbit : ∀ i, testBit (M.bitmap mask) i = false) : Tracks M committee ∅ mask :=
  Tracks.of_bit hpublics fun i _ => by simp [hbit i]

theorem Tracks.setKey (h : Tracks M committee A mask) (hnd : (committee.map (·.bytes)).Nodup)
    (hset : M.setKey mask k true = some mask') : Tracks M committee (insert k A) mask' := by
  have hpublics := h.publics
  refine Tracks.of_bit ((M.setKey_publics _ _ _ _ hset).trans hpublics) fun i hi => ?_
  rw [M.setKey_bit mask k true mask' i (hpublics ▸ hnd) hset, hpublics, Finset.mem_insert]
  have hget : (committee.map (·.bytes))[i]? = some (committee.get ⟨i, hi⟩).bytes := by
    simp [hi]
  rw [hget]
  split_ifs with hk
  · exact ⟨fun _ => Or.inl (Option.some.inj hk), fun _ => rfl⟩
  · rw [h.marks.bit i hi]
    exact ⟨Or.inr, fun hor => hor.resolve_left fun hkey => hk (congrArg some hkey)⟩

theorem Tracks.setKeysAtomic (h : Tracks M committee A mask) (hnd : (committee.map (·.bytes)).Nodup)
    (hset : M.setKeysAtomic mask ks true = some mask') :
    Tracks M committee (A ∪ (ks.map (·.bytes)).toFinset) mask' := by
  rw [M.setKeysAtomic_eq] at hset
  induction ks generalizing mask A with
  | nil =>
    obtain rfl := Option.some.inj hset
    simpa using h
  | cons k ks ih =>
    obtain ⟨mask1, hk, hks⟩ := Option.bind_eq_some_iff.1 hset
    have hrest := ih (h.setKey hnd hk) hks
    rwa [Finset.insert_union, ← Finset.union_insert, ← List.toFinset_cons] at hrest

theorem setKeysAtomic_ne_none (hpublics : M.publics mask = committee)
    (hks : ∀ k ∈ ks, k ∈ committee) : M.setKeysAtomic mask ks true ≠ none := by
  rw [M.setKeysAtomic_eq]
  induction ks generalizing mask with
  | nil => exact Option.some_ne_none _
  | cons k ks ih =>
    have hmem : k.bytes ∈ (M.publics mask).map (·.bytes) := by
      rw [hpublics]
      exact List.mem_map_of_mem (hks k List.mem_cons_self)
    obtain ⟨mask1, hset⟩ := Option.isSome_iff_exists.1 ((M.setKey_isSome mask k.bytes true).2 hmem)
    rw [List.foldlM_cons, hset]
    exact ih ((M.setKey_publics _ _ _ _ hset).trans hpublics) fun k' hk' =>
      hks k' (List.mem_cons_of_mem _ hk')

theorem setKey_mem (h : M.publics mask = committee) (hset : M.setKey mask k true = some mask') :
    k ∈ committee.map (·.bytes) :=
  h ▸ (M.setKey_isSome mask k true).1 (hset ▸ rfl)

/-- A mask takes the keys of a list only if they are all in the committee. -/
theorem mem_of_setKeysAtomic (h : M.publics mask = committee)
    (hset : M.setKeysAtomic mask ks true = some mask') : ∀ k ∈ ks, k ∈ committee := by
  rw [M.setKeysAtomic_eq] at hset
  induction ks generalizing mask with
  | nil => exact List.forall_mem_nil _
  | cons k ks ih =>
    obtain ⟨mask₁, hk, hks⟩ := Option.bind_eq_some_iff.1 hset
    refine List.forall_mem_cons.2 ⟨?_, ih ((M.setKey_publics _ _ _ _ hk).trans h) hks⟩
    obtain ⟨k', hk', hbytes⟩ := List.mem_map.1 (setKey_mem h hk)
    exact PublicKeyWrapper.eq_of_bytes hbytes ▸ hk'

/-- The aggregate key of a mask is the sum of the marked keys. -/
theorem Tracks.aggregatePublic (h : Tracks M committee A mask)
    (hnd : (committee.map (·.bytes)).Nodup) (hA : A ⊆ committeeKeys committee) :
    M.aggregatePublic mask = ∑ k ∈ A, B.keyObject k := by
  set enabled := (committee.zipIdx.filter fun p => testBit (M.bitmap mask) p.2).map Prod.fst
    with henabled
  have hsub : enabled.Sublist committee := by
    have hfilter := (List.filter_sublist (l := committee.zipIdx)
      (p := fun p => testBit (M.bitmap mask) p.2)).map Prod.fst
    rwa [List.zipIdx_map_fst] at hfilter
  have hmem : (enabled.map (·.bytes)).toFinset = A := by
    ext k
    simp only [henabled, List.mem_toFinset, List.mem_map, List.mem_filter,
      List.mem_zipIdx_iff_getElem?]
    constructor
    · rintro ⟨key, ⟨⟨key', i⟩, ⟨hi, hbit⟩, rfl⟩, rfl⟩
      obtain ⟨hlt, hget⟩ := List.getElem?_eq_some_iff.1 hi
      have hmark := (h.marks.bit i hlt).1 hbit
      rwa [List.get_eq_getElem, hget] at hmark
    · intro hk
      obtain ⟨key, hkey, rfl⟩ := List.mem_map.1 (List.mem_toFinset.1 (hA hk))
      obtain ⟨i, hi, rfl⟩ := List.getElem_of_mem hkey
      exact ⟨_, ⟨(_, i), ⟨List.getElem?_eq_getElem hi, (h.marks.bit i hi).2 hk⟩, rfl⟩, rfl⟩
  calc M.aggregatePublic mask = (enabled.map (·.object)).sum := by
        rw [M.aggregatePublic_eq, h.publics, henabled, List.map_map]
        rfl
    _ = B.keySum (enabled.map (·.bytes)) := (B.keySum_bytes enabled).symm
    _ = ∑ k ∈ A, B.keyObject k := by
        rw [B.keySum_eq_sum (hnd.sublist (hsub.map _)), hmem]

/-! ## Aggregation -/

/-- Every ballot is stored under each of its signers, and under no other key. -/
def BallotBox.Together (box : BallotBox) : Prop :=
  ∀ k b, box.lookup k = some b →
    k ∈ b.signerPubKeys ∧ ∀ k' ∈ b.signerPubKeys, box.lookup k' = some b

/-- The signature of a ballot, as it is added up. -/
def Ballot.sign (B : Bls) (b : Ballot) : B.Sign := (B.deserialize b.signature).getD 0

/-- What the loop of `AggregateVotes` has collected: ballots of the box, each of them once. -/
structure Collected (box : BallotBox) (bs : List Ballot)
    (acc : List SerializedPublicKey × List B.Sign) : Prop where
  nodup : bs.Nodup
  stored : ∀ b ∈ bs, ∃ k, box.lookup k = some b
  keys : acc.1 = bs.flatMap Ballot.signerPubKeys
  sigs : acc.2 = bs.map (Ballot.sign B)

variable {box : BallotBox} {bs : List Ballot} {acc : List SerializedPublicKey × List B.Sign}

/-- Stored ballots that share a signer are one ballot. -/
theorem BallotBox.Together.eq_of_mem (h : box.Together) {b b' : Ballot}
    (hb : ∃ k, box.lookup k = some b) (hb' : ∃ k, box.lookup k = some b')
    (hk : k ∈ b.signerPubKeys) (hk' : k ∈ b'.signerPubKeys) : b = b' := by
  obtain ⟨k₁, hb⟩ := hb
  obtain ⟨k₂, hb'⟩ := hb'
  exact Option.some.inj (((h k₁ b hb).2 k hk).symm.trans ((h k₂ b' hb').2 k hk'))

theorem Collected.collectBallot (hbox : box.Together) (h : Collected box bs acc) {b : Ballot}
    (hb : ∃ k, box.lookup k = some b) :
    ∃ bs', Collected box bs' (Decider.collectBallot acc b) ∧ bs ⊆ bs' ∧ b ∈ bs' := by
  have hseen : b.signerPubKeys.any (· ∈ acc.1) = true ↔ b ∈ bs := by
    simp only [List.any_eq_true, decide_eq_true_eq, h.keys, List.mem_flatMap]
    constructor
    · rintro ⟨k, hk, b', hb', hk'⟩
      rwa [hbox.eq_of_mem hb (h.stored b' hb') hk hk']
    · intro hmem
      obtain ⟨k, hk⟩ := hb
      exact ⟨k, (hbox k b hk).1, b, hmem, (hbox k b hk).1⟩
  unfold Decider.collectBallot
  split_ifs with hany
  · exact ⟨bs, h, List.Subset.refl _, hseen.1 hany⟩
  · have hnot : b ∉ bs := fun hmem => hany (hseen.2 hmem)
    refine ⟨bs ++ [b], ⟨?_, ?_, ?_, ?_⟩, List.subset_append_left _ _, by simp⟩
    · exact List.nodup_append_comm.1 (List.nodup_cons.2 ⟨hnot, h.nodup⟩)
    · exact List.forall_mem_append.2 ⟨h.stored, List.forall_mem_singleton.2 hb⟩
    · simp [h.keys]
    · simp [h.sigs, Ballot.sign]

theorem Collected.foldl (hbox : box.Together) (h : Collected box bs acc) {l : List Ballot}
    (hl : ∀ b ∈ l, ∃ k, box.lookup k = some b) :
    ∃ bs', Collected box bs' (l.foldl Decider.collectBallot acc) ∧ bs ⊆ bs' ∧ l ⊆ bs' := by
  induction l generalizing bs acc with
  | nil => exact ⟨bs, h, List.Subset.refl _, List.nil_subset _⟩
  | cons b l ih =>
    obtain ⟨mid, hmid, hsub, hb⟩ := h.collectBallot hbox (hl b List.mem_cons_self)
    obtain ⟨last, hlast, hsub', hrest⟩ := ih hmid fun b' hb' => hl b' (List.mem_cons_of_mem _ hb')
    exact ⟨last, hlast, List.Subset.trans hsub hsub', List.cons_subset.2 ⟨hsub' hb, hrest⟩⟩

variable {order : List Ballot → List Ballot}

/-- The loop meets a ballot with `k` signers `k` times, in any order, and takes its signature
    once. -/
theorem aggregateVotes_collects (d : Decider B) (horder : ∀ l, (order l).Perm l)
    (hbox : (d.ballotBox p).Together) :
    ∃ bs : List Ballot, bs.Nodup ∧ (∀ b, b ∈ bs ↔ ∃ k, (d.ballotBox p).lookup k = some b) ∧
      d.aggregateVotes order p = (bs.map (Ballot.sign B)).sum := by
  have hmem : ∀ b, b ∈ d.readAllBallots order p ↔ ∃ k, (d.ballotBox p).lookup k = some b := by
    intro b
    rw [Decider.readAllBallots, (horder _).mem_iff, GoMap.mem_values_iff]
  have hinit : Collected (B := B) (d.ballotBox p) [] ([], []) :=
    ⟨List.nodup_nil, List.forall_mem_nil _, rfl, rfl⟩
  obtain ⟨bs, hbs, -, hall⟩ := hinit.foldl hbox fun b => (hmem b).1
  refine ⟨bs, hbs.nodup, fun b => ⟨hbs.stored b, fun hb => hall ((hmem b).2 hb)⟩, ?_⟩
  rw [Decider.aggregateVotes, hbs.sigs]

theorem BallotBox.Valid.together (h : BallotBox.Valid committee payload box) : box.Together :=
  fun k b hb => ⟨(h k b hb).signer, (h k b hb).together⟩

/-- The votes of a valid box add up to the signature of its keys, in any order. -/
theorem aggregateVotes_eq (d : Decider B) (horder : ∀ l, (order l).Perm l)
    (hvalid : BallotBox.Valid committee payload (d.ballotBox p)) :
    d.aggregateVotes order p = B.sigOf payload (∑ k ∈ d.signers p, B.keyObject k) := by
  obtain ⟨bs, hnd, hmem, hsum⟩ := aggregateVotes_collects d horder hvalid.together
  have hsign : ∀ b ∈ bs, Ballot.sign B b = B.sigOf payload (B.keySum b.signerPubKeys) := by
    intro b hb
    obtain ⟨k, hk⟩ := (hmem b).1 hb
    rw [Ballot.sign, (hvalid k b hk).signature, Option.getD_some]
  have hkeys : (bs.flatMap Ballot.signerPubKeys).Nodup := by
    refine List.nodup_flatMap.2 ⟨fun b hb => ?_, hnd.imp_of_mem fun hb hb' hne k hk hk' => ?_⟩
    · obtain ⟨k, hk⟩ := (hmem b).1 hb
      exact (hvalid k b hk).nodup
    · exact hne (hvalid.together.eq_of_mem ((hmem _).1 hb) ((hmem _).1 hb') hk hk')
  have hset : (bs.flatMap Ballot.signerPubKeys).toFinset = d.signers p := by
    ext k
    rw [List.mem_toFinset, List.mem_flatMap, mem_signers]
    constructor
    · rintro ⟨b, hb, hk⟩
      obtain ⟨k', hk'⟩ := (hmem b).1 hb
      exact ⟨b, (hvalid k' b hk').together k hk⟩
    · rintro ⟨b, hb⟩
      exact ⟨b, (hmem b).2 ⟨k, hb⟩, (hvalid k b hb).signer⟩
  rw [hsum, List.map_congr_left hsign, ← hset, ← B.keySum_eq_sum hkeys, B.keySum_flatMap,
    map_list_sum, List.map_map]
  rfl

theorem BallotBox.Valid.signers_subset (h : BallotBox.Valid committee payload (d.ballotBox p)) :
    d.signers p ⊆ committeeKeys committee := by
  intro k hk
  obtain ⟨b, hb⟩ := mem_signers.1 hk
  exact (h k b hb).member

/-- The aggregate of a valid box verifies under the aggregate key of a mask of its keys. -/
theorem verifyHash_of_tracks (d : Decider B) (horder : ∀ l, (order l).Perm l)
    (hvalid : BallotBox.Valid committee payload (d.ballotBox p))
    (hnd : (committee.map (·.bytes)).Nodup) (htracks : Tracks M committee (d.signers p) mask) :
    B.verifyHash (d.aggregateVotes order p) (M.aggregatePublic mask) payload = true := by
  rw [B.verifyHash_iff, aggregateVotes_eq d horder hvalid,
    htracks.aggregatePublic hnd hvalid.signers_subset]

end Benzene
