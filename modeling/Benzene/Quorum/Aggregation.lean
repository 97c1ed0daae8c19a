import Benzene.Common.Run
import Benzene.Quorum.Ballots

/-!
# Each accepted vote is counted once

A sequence of `AddNewVote` and `reset` calls on a decider, with the votes that were accepted
since the last reset of their phase beside it (`Tally`).

* `Mirrors`: the accepted votes of a phase have disjoint signers, and the ballot box of the phase
  holds the ballot of each of them under each of its signers.
* `aggregateVotes_of_mirrors`: `AggregateVotes` takes the signature of each of these ballots once.
* `votes_counted_once`: the result for every sequence of calls.

A vote without signers is accepted and stored nowhere, so that its signature is not counted.
-/

namespace Benzene

variable {B : Bls}

/-- The arguments of `AddNewVote`. -/
structure Vote (B : Bls) where
  pubKeys : List (PublicKeyWrapper B)
  sig : B.Sign
  headerHash : Hash
  height : UInt64
  viewID : UInt64

namespace Vote

/-- The serialized signers. -/
def signers (v : Vote B) : List SerializedPublicKey := v.pubKeys.map (·.bytes)

/-- The ballot that is stored for a vote. -/
def ballot (v : Vote B) : Ballot :=
  ⟨v.signers, v.headerHash, B.serialize v.sig, v.height, v.viewID⟩

end Vote

/-- A call on a decider. -/
inductive VoteCall (B : Bls)
  | addNewVote (p : Phase) (v : Vote B)
  | reset (ps : List Phase)

namespace Decider

/-- `AddNewVote` of a vote: the decider after the call, and what it returns. -/
def cast (d : Decider B) (p : Phase) (v : Vote B) : Decider B × Except VoteError Ballot :=
  d.submitVote p v.signers v.sig v.headerHash v.height v.viewID

end Decider

/-- A decider with the accepted votes of each phase since its last reset. -/
structure Tally (B : Bls) where
  decider : Decider B
  accepted : Phase → List (Vote B)

namespace Tally

/-- One call. -/
def step (t : Tally B) : VoteCall B → Tally B
  | .addNewVote p v =>
    let r := t.decider.cast p v
    match r.2 with
    | .error _ => ⟨r.1, t.accepted⟩
    | .ok _ => ⟨r.1, Function.update t.accepted p (t.accepted p ++ [v])⟩
  | .reset ps => ⟨t.decider.reset ps, fun p => if p ∈ ps then [] else t.accepted p⟩

/-- A decider on which no votes have been cast. -/
def start (committee : List (PublicKeyWrapper B)) : Tally B :=
  ⟨Decider.newBallotsBackedSignatureReader.updateParticipants committee, fun _ => []⟩

end Tally

/-! ## The ballot box of the accepted votes -/

/-- The box holds the ballots of the votes, which have disjoint signers. -/
structure Mirrors (box : BallotBox) (votes : List (Vote B)) : Prop where
  disjoint : votes.Pairwise fun v w => v.signers.Disjoint w.signers
  lookup : ∀ k b, box.lookup k = some b ↔ ∃ v ∈ votes, k ∈ v.signers ∧ v.ballot = b

theorem Mirrors.empty : Mirrors (∅ : BallotBox) ([] : List (Vote B)) :=
  ⟨List.Pairwise.nil, by simp⟩

variable {box : BallotBox} {votes : List (Vote B)}

theorem Mirrors.add (h : Mirrors box votes) {v : Vote B}
    (hnew : ∀ k ∈ v.signers, box.lookup k = none) :
    Mirrors (GoMap.insertAll box v.signers v.ballot) (votes ++ [v]) where
  disjoint := by
    rw [List.pairwise_append]
    refine ⟨h.disjoint, List.pairwise_singleton _ _, fun w hw v' hv' k hkw hkv => ?_⟩
    obtain rfl := List.mem_singleton.1 hv'
    have hsome := (h.lookup k w.ballot).2 ⟨w, hw, hkw, rfl⟩
    rw [hnew k hkv] at hsome
    cases hsome
  lookup k b := by
    rw [GoMap.lookup_insertAll]
    split_ifs with hk
    · constructor
      · intro hb
        exact ⟨v, by simp, hk, Option.some.inj hb⟩
      · rintro ⟨w, hw, hkw, rfl⟩
        rcases List.mem_append.1 hw with hw | hw
        · have hsome := (h.lookup k w.ballot).2 ⟨w, hw, hkw, rfl⟩
          rw [hnew k hk] at hsome
          cases hsome
        · rw [List.mem_singleton.1 hw]
    · rw [h.lookup]
      constructor
      · rintro ⟨w, hw, hkw, rfl⟩
        exact ⟨w, List.mem_append_left _ hw, hkw, rfl⟩
      · rintro ⟨w, hw, hkw, rfl⟩
        rcases List.mem_append.1 hw with hw | hw
        · exact ⟨w, hw, hkw, rfl⟩
        · exact absurd (List.mem_singleton.1 hw ▸ hkw) hk

/-! ## The sum of the signatures -/

theorem Mirrors.together (h : Mirrors box votes) : box.Together := by
  intro k b hb
  obtain ⟨v, hv, hk, rfl⟩ := (h.lookup k b).1 hb
  exact ⟨hk, fun k' hk' => (h.lookup k' _).2 ⟨v, hv, hk', rfl⟩⟩

/-- The ballots of the votes with a signer are different. -/
theorem Mirrors.nodup_ballots (h : Mirrors box votes) :
    ((votes.filter fun v => v.signers ≠ []).map Vote.ballot).Nodup := by
  refine List.pairwise_map.2 ((h.disjoint.filter _).imp_of_mem fun {v w} hv _ hd heq => ?_)
  obtain ⟨k, hk⟩ := List.exists_mem_of_ne_nil _ (of_decide_eq_true (List.mem_filter.1 hv).2)
  have hsigners : v.signers = w.signers := congrArg Ballot.signerPubKeys heq
  exact hd hk (hsigners ▸ hk)

/-- The aggregate of a box is the sum of the signatures of the votes in it, in any order. -/
theorem aggregateVotes_of_mirrors (d : Decider B) {p : Phase} {order : List Ballot → List Ballot}
    (horder : ∀ l, (order l).Perm l) (hm : Mirrors (d.ballotBox p) votes) :
    d.aggregateVotes order p = ((votes.filter fun v => v.signers ≠ []).map Vote.sig).sum := by
  obtain ⟨bs, hnd, hmem, hsum⟩ := aggregateVotes_collects d horder hm.together
  -- a vote with a signer is stored under that signer
  have hperm : bs.Perm ((votes.filter fun v => v.signers ≠ []).map Vote.ballot) := by
    rw [List.perm_ext_iff_of_nodup hnd hm.nodup_ballots]
    intro b
    simp only [hmem, hm.lookup, List.mem_map, List.mem_filter, decide_eq_true_eq]
    constructor
    · rintro ⟨k, v, hv, hk, rfl⟩
      exact ⟨v, ⟨hv, List.ne_nil_of_mem hk⟩, rfl⟩
    · rintro ⟨v, ⟨hv, hne⟩, rfl⟩
      obtain ⟨k, hk⟩ := List.exists_mem_of_ne_nil _ hne
      exact ⟨k, v, hv, hk, rfl⟩
  have hsign : Ballot.sign B ∘ Vote.ballot = Vote.sig := by
    funext v
    simp [Ballot.sign, Vote.ballot, B.deserialize_serialize]
  rw [hsum, (hperm.map _).sum_eq, List.map_map, hsign]

/-! ## Sequences of calls -/

theorem ballotBox_setBallotBox_of_ne (d : Decider B) (box : BallotBox) {p q : Phase} (h : p ≠ q) :
    (d.setBallotBox box q).ballotBox p = d.ballotBox p := by
  cases p <;> cases q <;> first | rfl | exact absurd rfl h

theorem ballotBox_reset (d : Decider B) (ps : List Phase) (p : Phase) :
    (d.reset ps).ballotBox p = if p ∈ ps then ∅ else d.ballotBox p := by
  unfold Decider.reset
  induction ps generalizing d with
  | nil => simp
  | cons q ps ih =>
    rw [List.foldl_cons, ih]
    by_cases hmem : p ∈ ps
    · simp [hmem]
    · by_cases hpq : p = q
      · simp [hpq]
      · rw [if_neg hmem, ballotBox_setBallotBox_of_ne d ∅ hpq, if_neg]
        simp [hpq, hmem]

/-- The boxes of a tally mirror its accepted votes. -/
def Tally.Mirrored (t : Tally B) : Prop := ∀ p, Mirrors (t.decider.ballotBox p) (t.accepted p)

theorem Tally.Mirrored.step {t : Tally B} (h : t.Mirrored) (call : VoteCall B) :
    (t.step call).Mirrored := by
  cases call with
  | addNewVote p v =>
    intro q
    simp only [Tally.step, Decider.cast, Decider.submitVote]
    cases hnone : t.decider.voteError p [] v.signers with
    | some err => exact h q
    | none =>
      dsimp only
      by_cases hq : q = p
      · subst hq
        rw [ballotBox_setBallotBox, Function.update_self]
        exact (h q).add fun k hk => ((voteError_eq_none hnone).2 k hk).2
      · rw [ballotBox_setBallotBox_of_ne _ _ hq, Function.update_of_ne hq]
        exact h q
  | reset ps =>
    intro p
    simp only [Tally.step, ballotBox_reset]
    split_ifs
    · exact Mirrors.empty
    · exact h p

theorem Tally.mirrored_run (committee : List (PublicKeyWrapper B)) (calls : List (VoteCall B)) :
    (Run.run Tally.step (Tally.start committee) calls).Mirrored := by
  have hall : Run.Steps Tally.step (fun _ _ => True) (Tally.start committee) calls :=
    Run.Steps.of_forall fun _ _ _ => trivial
  refine Run.run_invariant Tally.Mirrored (fun t c h _ => h.step c) ?_ hall
  intro p
  cases p <;> exact Mirrors.empty

/-- **Each accepted vote is counted once.**  After any calls of `AddNewVote` and `reset`: a vote
    that is rejected leaves the ballot boxes as they are; the accepted votes of a phase since its
    last reset have disjoint signers; and `AggregateVotes` is the sum of their signatures, for
    every order of the iteration over the ballots. -/
theorem votes_counted_once (B : Bls) (committee : List (PublicKeyWrapper B))
    (calls : List (VoteCall B)) :
    (∀ p v err,
      ((Run.run Tally.step (Tally.start committee) calls).decider.cast p v).2 = .error err →
      ∀ q, (Run.run Tally.step (Tally.start committee)
          (calls ++ [.addNewVote p v])).decider.ballotBox q =
        (Run.run Tally.step (Tally.start committee) calls).decider.ballotBox q) ∧
    ∀ p, ((Run.run Tally.step (Tally.start committee) calls).accepted p).Pairwise
        (fun v w => v.signers.Disjoint w.signers) ∧
      ∀ order : List Ballot → List Ballot, (∀ l, (order l).Perm l) →
        (Run.run Tally.step (Tally.start committee) calls).decider.aggregateVotes order p =
          ((((Run.run Tally.step (Tally.start committee) calls).accepted p).filter
            fun v => v.signers ≠ []).map Vote.sig).sum := by
  have hm := Tally.mirrored_run committee calls
  refine ⟨fun p v err herr q => ?_, fun p => ⟨(hm p).disjoint, fun order horder => ?_⟩⟩
  · simp only [Run.run_concat, Tally.step, herr]
    rw [Decider.cast, Decider.submitVote_of_error _ herr]
  · exact aggregateVotes_of_mirrors _ horder (hm p)

end Benzene
