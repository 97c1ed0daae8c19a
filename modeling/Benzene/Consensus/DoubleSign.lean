import Benzene.Common.Run
import Benzene.Consensus.Concrete
import Benzene.Consensus.StepSpec

/-!
# Double signing

`checkDoubleSign` (consensus/double_sign.go:16-134) compares a COMMIT message with the ballot its
sender has already cast.

`detectsDoubleSigning_iff`: its only caller `onCommit` returns before it for a sender with a
ballot, so no run emits a slash record (`step_noSlash`), and double signing is detected in no run
in which it happens.
-/

namespace Benzene

variable {E : Env}

namespace Consensus

variable {s s' : Consensus E}

/-! ## No record is emitted -/

/-- The entry is not a slash record. -/
def NotSlash (e : Entry E) : Prop := e.action.kind ≠ .slash

variable (s)

theorem step_noSlash (e : NodeEvent E) : Emits NotSlash s (s.step e) := by
  have hkinds : ∀ {ks : List ActionKind} {s'}, .slash ∉ ks → Acts .any ks s s' →
      Emits NotSlash s s' := fun hks h => h.emits.mono fun _ he hkind => hks (hkind ▸ he)
  rcases (s.step_dispatch e).acts with ⟨ks, hks, -, h⟩ | ⟨order, msg, -, m, -, -, hparse, heq⟩ |
    ⟨order, newBlock, -, heq⟩
  · exact hkinds hks h
  · rw [heq]
    exact hkinds (by decide) (onAnnounce_quiet hparse trivial).toActs
  · rw [heq]
    exact hkinds (by decide) (announce_quiet order (fun _ _ _ => trivial) trivial).toActs

theorem run_noSlash (events : List (NodeEvent E)) : Emits NotSlash s (Run.run step s events) := by
  have hany : Run.Steps step (fun _ _ => True) s events := Run.Steps.of_forall fun _ _ _ => trivial
  exact Run.run_invariant (Emits NotSlash s) (fun t e h _ => h.trans (t.step_noSlash e))
    (Emits.refl s) hany

/-! ## Double signing in a run -/

/-- The event hands a running leader a COMMIT message for its height in which the committee key `k`
    has part, with a valid commit signature over the logged block `b`. -/
def commitsTo (e : NodeEvent E) (k : E.PubKey) (b : Block) : Bool :=
  match e with
  | .message _ msg _ =>
    msg.type == .commit && !s.crashed && s.isLeader &&
      match s.parseFBFTMessage msg with
      | .error _ => false
      | .ok m =>
        m.blockNum == s.blockNum && decide (k ∈ m.senderPubkeys) &&
          decide (k ∈ s.decider.publicKeys) && s.fbftLog.getBlockByHash m.blockHash == some b &&
          (E.bls.deserialize m.payload).any fun sign =>
            E.bls.verifyHash sign (signerPubKey m) (E.commitPayload b)
  | _ => false

/-- In the run, the key `k` sends two such messages for the blocks `b₁` and `b₂`, which differ and
    are both in the log, while the height is in progress. -/
def DoubleSigns (events : List (NodeEvent E)) (height : UInt64) (k : E.PubKey) (b₁ b₂ : Block) :
    Prop :=
  ∃ pre e₁ mid e₂ post, events = pre ++ e₁ :: (mid ++ e₂ :: post) ∧
    (Run.run step s pre).commitsTo e₁ k b₁ = true ∧
    (Run.run step s (pre ++ e₁ :: mid)).commitsTo e₂ k b₂ = true ∧
    E.blockHash b₁ ≠ E.blockHash b₂ ∧
    (Run.run step s (pre ++ e₁ :: mid)).fbftLog.getBlockByHash (E.blockHash b₁) = some b₁ ∧
    (Run.run step s pre).blockNum = height ∧
    ∀ mid', mid' <+: mid → (Run.run step s (pre ++ e₁ :: mid')).blockNum = height

variable {s}

/-- The record names the owner of the key and has votes of the key for both blocks. -/
structure Accuses (record : SlashRecord) (k : E.PubKey) (b₁ b₂ : Block) : Prop where
  owner : ∃ c, E.addressForBLSKey c k.bytes = some record.offender
  firstSigner : k.bytes ∈ record.firstVote.signerPubKeys
  secondSigner : k.bytes ∈ record.secondVote.signerPubKeys
  hashes : record.firstVote.blockHeaderHash = E.blockHash b₁ ∧
      record.secondVote.blockHeaderHash = E.blockHash b₂ ∨
    record.firstVote.blockHeaderHash = E.blockHash b₂ ∧
      record.secondVote.blockHeaderHash = E.blockHash b₁

/-- Whoever double signs in the run is accused in it before the height is finalised. -/
def DetectsDoubleSigning (s : Consensus E) (events : List (NodeEvent E)) : Prop :=
  ∀ height k b₁ b₂, DoubleSigns s events height k b₁ b₂ →
    ∃ emitted, (Run.run step s events).trace = emitted ++ s.trace ∧
      ∃ e ∈ emitted, ∃ record, e.action = .slash record ∧ e.blockNum = height ∧
        Accuses record k b₁ b₂

/-- **Double signing goes undetected.**  In every run, from every state, each double signer is
    accused exactly when there is none: no run emits a slash record. -/
theorem detectsDoubleSigning_iff (s : Consensus E) (events : List (NodeEvent E)) :
    DetectsDoubleSigning s events ↔ ¬ ∃ height k b₁ b₂, DoubleSigns s events height k b₁ b₂ := by
  constructor
  · rintro h ⟨height, k, b₁, b₂, hsigns⟩
    obtain ⟨emitted, htrace, e, he, record, haction, -⟩ := h height k b₁ b₂ hsigns
    obtain ⟨l, hl, hnone⟩ := s.run_noSlash events
    obtain rfl : emitted = l := List.append_cancel_right (htrace.symm.trans hl)
    refine hnone e he ?_
    rw [haction]
    rfl
  · intro h height k b₁ b₂ hsigns
    exact absurd ⟨height, k, b₁, b₂, hsigns⟩ h

end Consensus

namespace Concrete

/-- The leader is given two blocks for height 1, and key 2 commits to both of them before the
    others complete the agreement on the second. -/
def doubleSigning : List (NodeEvent env) :=
  [.propose order (blk 1 1 0), .propose order (blk 1 0 0),
    deliver (prepareMsg 2 (blk 1 0 0) 1) 2, deliver (prepareMsg 3 (blk 1 0 0) 1) 3] ++
  deliver (commitMsg 2 (blk 1 0 0) 1) 2 ::
    ([] ++ deliver (commitMsg 2 (blk 1 1 0) 1) 2 ::
      [deliver (commitMsg 3 (blk 1 0 0) 1) 3, deliver (commitMsg 4 (blk 1 0 0) 1) 4])

/-- Key 2 double signs, height 1 is finalised, and nobody is accused. -/
theorem doubleSigning_unseen :
    Consensus.DoubleSigns (node [1] 1 [1, 2, 3, 4] 1) doubleSigning 1 (pub 2) (blk 1 0 0)
        (blk 1 1 0) ∧
      (Run.run Consensus.step (node [1] 1 [1, 2, 3, 4] 1) doubleSigning).blockNum = 2 ∧
      ∀ e ∈ (Run.run Consensus.step (node [1] 1 [1, 2, 3, 4] 1) doubleSigning).trace,
        e.action.kind ≠ .slash := by
  refine ⟨⟨_, _, _, _, _, rfl, ?_, ?_, ?_, ?_, ?_, ?_⟩, ?_, ?_⟩
  · decide +kernel
  · decide +kernel
  · decide +kernel
  · decide +kernel
  · decide +kernel
  · intro mid' hmid
    rw [List.prefix_nil.1 hmid]
    decide +kernel
  · decide +kernel
  · decide +kernel

end Concrete

end Benzene
