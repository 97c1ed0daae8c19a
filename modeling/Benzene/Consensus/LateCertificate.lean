import Benzene.Common.Run
import Benzene.Consensus.Concrete
import Benzene.Consensus.Payload
import Benzene.Consensus.StepSpec

/-!
# A late certificate

A COMMITTED message for the block before the current one is accepted, because it may carry more
signatures than the stored certificate (consensus/validator.go:243-312).  The handler is the one
for the current round: it sets `aggregatedCommitSig` and `commitBitmap` from the message, reads the
stored bitmap into that same mask, and ends with `tryCatchup`.

`undisturbed_iff` says when the current round does not notice: exactly when the message repeats
a certificate that the round holds already, and the log has no block to catch up with (`Repeats`).
A round that has just begun holds none.
-/

namespace Benzene

variable {E : Env}

/-- The log without the entry that `m` is going to replace: `fbftMsgID` leaves the block number
    out, so that may be a message about the current block. -/
def FBFTLog.without (log : FBFTLog E) (m : FBFTMessage E) : FBFTLog E :=
  { log with messages := log.messages.erase m.id }

namespace Consensus

/-- The chains differ at most in the stored certificate of a block, and only if the stored one has
    fewer signatures than `payload`, whose mask is `mask`. -/
def BetterCertificate (blockNum : UInt64) (payload : Bytes) (mask : E.Mask)
    (chain chain' : E.Chain) : Prop :=
  chain' = chain ∨
  ∃ stored storedMask, E.readCommitSig chain blockNum = some stored ∧
    E.masks.setMask mask (stored.drop blsSignatureSizeInBytes) = some storedMask ∧
    E.masks.countEnabled storedMask < E.masks.countEnabled mask ∧
    chain' = E.writeCommitSig chain blockNum payload

/-- The current round is as before: the state differs in the log and in the stored certificate of
    the block of the message only, no block is committed on the way, and nothing is signed or sent.
    `mask` is the mask of the message's certificate. -/
structure Undisturbed (m : FBFTMessage E) (mask : E.Mask) (s s' : Consensus E) : Prop where
  frame : s' = { s with
    fbftLog := s'.fbftLog
    blockchain := s'.blockchain
    trace := s'.trace }
  certificate : BetterCertificate m.blockNum m.payload mask s.blockchain s'.blockchain
  acts : Emits (fun e => e.action.kind ∈ [.logged, .writeCommitSig]) s s'

/-- The mask of the signers that the bitmap of a certificate names. -/
def payloadMask (s : Consensus E) (payload : Bytes) : Option E.Mask :=
  E.masks.setMask (E.masks.newMask s.decider.participants) (payload.drop blsSignatureSizeInBytes)

/-- The stored certificate of the block of `m`, if the chain has that block and the certificate
    has as many bytes as the one of `m`. -/
def storedCertificate (s : Consensus E) (m : FBFTMessage E) : Option Bytes :=
  match E.readCommitSig s.blockchain m.blockNum, s.fbftLog.getBlockByHash m.blockHash with
  | some stored, some blk =>
    if stored.length = m.payload.length ∧
      (E.getBlockByHash s.blockchain (E.blockHash blk)).isSome then some stored else none
  | _, _ => none

/-- The signers of the stored certificate, in the mask of `m`; those of `m` if none is stored. -/
def storedMask (s : Consensus E) (m : FBFTMessage E) : Option E.Mask :=
  (s.payloadMask m.payload).bind fun mask =>
    match s.storedCertificate m with
    | none => some mask
    | some stored => E.masks.setMask mask (stored.drop blsSignatureSizeInBytes)

/-- The chain with the certificate of `m`, if that has more signers than the stored one. -/
def certified (s : Consensus E) (m : FBFTMessage E) : E.Chain :=
  if (s.storedMask m).elim 0 E.masks.countEnabled <
      (s.payloadMask m.payload).elim 0 E.masks.countEnabled then
    E.writeCommitSig s.blockchain m.blockNum m.payload
  else s.blockchain

/-- The round holds the certificate of `m` already: its signature, and the bitmap of the
    certificate that is stored.  And the log holds no certified block to continue with, or the first
    one does not pass the verifier. -/
structure Repeats (order : MapOrder E) (s : Consensus E) (m : FBFTMessage E) : Prop where
  signature : s.aggregatedCommitSig = E.bls.deserialize (m.payload.take blsSignatureSizeInBytes)
  bitmap : s.storedMask m = some s.commitBitmap
  idle : ∀ blk msg, s.blockVerifierSet = true →
    (s.fbftLog.without m).getCommittedBlockAndMsgsFromNumber (order.messages s.blockNum)
      s.blockNum = some (blk, msg) →
    s.fbftLog.isBlockVerified blk = false ∧ E.blockVerifier (s.certified m) blk = false

/-- `tryCatchup` does not get as far as committing a block: it has no verifier, no committed block
    of the current number is in the log, or the first one does not pass the verifier. -/
def Idle (order : MapOrder E) (s : Consensus E) : Prop :=
  ∀ blk msg, s.blockVerifierSet = true →
    s.fbftLog.getCommittedBlockAndMsgsFromNumber (order.messages s.blockNum) s.blockNum =
      some (blk, msg) →
    s.fbftLog.isBlockVerified blk = false ∧ E.blockVerifier s.blockchain blk = false

variable {s t : Consensus E} {order : MapOrder E} {m : FBFTMessage E} {mask : E.Mask}
  {aggSig : E.Sign} {blk : Block}

/-! ## The stored certificate -/

theorem readCommitSig_of_storedCertificate {stored : Bytes}
    (h : s.storedCertificate m = some stored) :
    E.readCommitSig s.blockchain m.blockNum = some stored := by
  unfold storedCertificate at h
  split at h
  · rename_i hread _
    split_ifs at h
    rw [hread, h]
  · cases h

section

variable (hvalid : s.committedChecks m = some (aggSig, mask, blk))

include hvalid

/-- The mask of a certificate that passes is the one of its payload: an empty one is no quorum. -/
theorem payloadMask_of_valid : s.payloadMask m.payload = some mask := by
  obtain ⟨-, hread, -⟩ := committedChecks_eq_some hvalid
  obtain ⟨-, -, hmask⟩ := readSignatureBitmapPayload_eq_some hread
  have hquorum : s.decider.isQuorumAchievedByMask (M := E.masks) (some mask) = true := by
    by_contra hno
    rw [Bool.not_eq_true] at hno
    unfold committedChecks at hvalid
    rw [hread] at hvalid
    simp [hno] at hvalid
  obtain ⟨hlen, -, -⟩ := readSignatureBitmapPayload_of_quorum hread hquorum
  have hsome : (s.payloadMask m.payload).isSome := by
    refine (E.masks.setMask_isSome _ _).2 (hlen.trans ?_)
    rw [E.masks.bitmap_length, E.masks.newMask_publics]
  obtain ⟨mask', hmask'⟩ := Option.isSome_iff_exists.1 hsome
  have heq : mask = mask' := hmask.trans (by
    rw [show E.masks.setMask _ (m.payload.drop 96) = some mask' from hmask', Option.getD_some])
  rw [hmask', heq]

/-- A bitmap of the right length can be read into the mask of the message. -/
theorem setMask_isSome_of_valid {stored : Bytes} (hlen : stored.length = m.payload.length) :
    (E.masks.setMask mask (stored.drop blsSignatureSizeInBytes)).isSome := by
  have hset := payloadMask_of_valid hvalid
  have hfits := (E.masks.setMask_isSome _ _).1 (Option.isSome_iff_exists.2 ⟨mask, hset⟩)
  refine (E.masks.setMask_isSome _ _).2 ?_
  rw [E.masks.bitmap_length, E.masks.setMask_publics _ _ _ hset, ← E.masks.bitmap_length, ← hfits,
    List.length_drop, List.length_drop, hlen]

variable (hnum : blk.numberU64 = m.blockNum)

include hnum

/-- The mask of the stored certificate is the commit bitmap that `onCommitted` leaves. -/
theorem storedMask_of_valid : s.storedMask m = some (s.committedBitmap m mask blk) := by
  have hblk := (committedChecks_eq_some hvalid).1
  unfold storedMask storedCertificate committedBitmap
  rw [payloadMask_of_valid hvalid, hblk, hnum, Option.bind_some]
  cases E.readCommitSig s.blockchain m.blockNum with
  | none => rfl
  | some stored =>
    dsimp only
    cases hchain : E.getBlockByHash s.blockchain (E.blockHash blk) with
    | none => simp
    | some _ =>
      by_cases hlen : stored.length = m.payload.length
      · obtain ⟨mask', hset⟩ := Option.isSome_iff_exists.1 (setMask_isSome_of_valid hvalid hlen)
        simp [hlen, hset]
      · simp [hlen]

/-- The chain after `onCommitted` is the one with the better certificate. -/
theorem overrideCommitSig_blockchain {t : Consensus E} (hchain : t.blockchain = s.blockchain) :
    (t.overrideCommitSig m mask blk).blockchain = s.certified m := by
  unfold certified
  rw [storedMask_of_valid hvalid hnum, payloadMask_of_valid hvalid, Option.elim_some,
    Option.elim_some]
  unfold overrideCommitSig committedBitmap
  rw [hchain, hnum]
  cases E.readCommitSig s.blockchain m.blockNum with
  | none => simp [hchain]
  | some stored =>
    cases E.getBlockByHash s.blockchain (E.blockHash blk) with
    | none => simp [hchain]
    | some _ =>
      by_cases hlen : stored.length == m.payload.length
      · simp only [hlen, if_true, gt_iff_lt]
        split_ifs
        · rw [← hnum, ← hchain]
          rfl
        · rfl
      · simp [hlen, hchain]

/-- The stored certificate is replaced by one with more signatures only. -/
theorem certified_better :
    BetterCertificate m.blockNum m.payload mask s.blockchain (s.certified m) := by
  have hstored := storedMask_of_valid hvalid hnum
  have hpayload := payloadMask_of_valid hvalid
  unfold certified
  split_ifs with hmore
  · right
    cases hcert : s.storedCertificate m with
    | none =>
      rw [storedMask, hpayload, hcert] at hmore
      exact absurd hmore (lt_irrefl _)
    | some stored =>
      have hset : E.masks.setMask mask (stored.drop blsSignatureSizeInBytes) =
          some (s.committedBitmap m mask blk) := by
        rw [← hstored, storedMask, hpayload, hcert, Option.bind_some]
      rw [hstored, hpayload] at hmore
      exact ⟨stored, _, readCommitSig_of_storedCertificate hcert, hset, hmore, rfl⟩
  · exact Or.inl rfl

end

/-! ## Catching up -/

theorem tryCatchup_of_idle (h : t.Idle order) : t.tryCatchup order = t := by
  unfold tryCatchup
  split_ifs with hset
  · rfl
  · have hpost : t.postCatchup t.blockNum = t := if_neg (UInt64.lt_irrefl _)
    simp only [getLastMileBlocksAndMsg, lastMileFrom]
    cases hfirst : t.fbftLog.getCommittedBlockAndMsgsFromNumber (order.messages t.blockNum)
      t.blockNum with
    | none => exact hpost
    | some p =>
      obtain ⟨hmarked, hverify⟩ := h p.1 p.2 (by simpa using hset) hfirst
      simp only [catchupLoop, verifyUnlessMarked, hmarked, hverify, Bool.false_eq_true, if_false,
        Bool.not_false, if_true]
      exact hpost

theorem idle_of_none (h : t.fbftLog.getCommittedBlockAndMsgsFromNumber (order.messages t.blockNum)
    t.blockNum = none) : t.Idle order := by
  intro blk msg _ hfirst
  rw [h] at hfirst
  cases hfirst

theorem tryCatchup_attempts (h : ¬ t.Idle order) :
    ∃ u : Consensus E, ∃ blk, Emits (fun _ => True) t u ∧
      Emits (fun _ => True) (u.emit (.commitBlock blk)) (t.tryCatchup order) := by
  simp only [Idle, not_forall] at h
  obtain ⟨blk, msg, hset, hfirst, hpasses⟩ := h
  have hverify : (t.verifyUnlessMarked blk).2 = true := by
    unfold verifyUnlessMarked
    split_ifs with hmarked hverified
    · rfl
    · rfl
    · exact absurd ⟨by simpa using hmarked, by simpa using hverified⟩ hpasses
  refine ⟨(t.verifyUnlessMarked blk).1, blk,
    (t.verifyUnlessMarked_quiet (a := .any) blk).emits.mono fun _ _ => trivial, ?_⟩
  have hcommit := commitBlock_emits_attempt (t.verifyUnlessMarked blk).1 blk msg
  simp only [tryCatchup, hset, getLastMileBlocksAndMsg, lastMileFrom, hfirst, catchupLoop, hverify,
    Bool.not_true, Bool.false_eq_true, if_false]
  refine Emits.trans ?_ ((postCatchup_quiet (a := .any) _ _).emits.mono fun _ _ => trivial)
  split_ifs
  · exact hcommit
  · exact (hcommit.trans (Emits.emit _ trivial)).trans
      ((catchupLoop_acts (a := .any) _ _).emits.mono fun _ _ => trivial)

/-- What a handler that catches up has recorded cannot be explained without a commit. -/
theorem idle_of_emits {P : Entry E → Prop}
    (hP : ∀ e, P e → e.action.kind ≠ .commitBlock) (hst : Emits (fun _ => True) s t)
    (h : Emits P s (t.tryCatchup order)) : t.Idle order := by
  by_contra hattempt
  obtain ⟨u, blk, hu, hafter⟩ := tryCatchup_attempts hattempt
  obtain ⟨l, hl, hall⟩ := h
  obtain ⟨l₁, hl₁, -⟩ := hst.trans hu
  obtain ⟨l₂, hl₂, -⟩ := hafter
  have hsplit : l = l₂ ++ ⟨.commitBlock blk, u.blockNum, u.decider⟩ :: l₁ := by
    refine List.append_cancel_right (hl.symm.trans ?_)
    rw [hl₂, List.append_assoc, List.cons_append, ← hl₁]
    rfl
  exact hP _ (hall ⟨.commitBlock blk, u.blockNum, u.decider⟩ (by rw [hsplit]; simp)) rfl

/-! ## The handler -/

section

variable (hlate : m.blockNum.toNat + 1 = s.blockNum.toNat)

include hlate

theorem spinUpIfLow_of_late : s.spinUpIfLow m.blockNum = s := by
  refine if_neg ?_
  rw [gt_iff_lt, UInt64.lt_iff_toNat_lt]
  omega

theorem onCommitted_of_late (hvalid : s.committedChecks m = some (aggSig, mask, blk)) :
    s.onCommitted order m = (s.acceptCommitted m aggSig mask blk).tryCatchup order := by
  have hlow : ¬ m.blockNum < s.blockNum - 1 := by
    have hpred := toNat_sub_one_add_one (n := s.blockNum) (by omega)
    rw [UInt64.lt_iff_toNat_lt]
    omega
  -- adding the message to the log does not change what the checks read
  have hchecks : (s.addNotVerifiedMessage m).committedChecks m = some (aggSig, mask, blk) := hvalid
  unfold onCommitted acceptCommitted
  rw [if_neg hlow, spinUpIfLow_of_late hlate]
  dsimp only
  rw [hchecks]

/-- Up to `tryCatchup` only the signature and the mask of the round can change. -/
theorem acceptCommitted_of_late (hvalid : s.committedChecks m = some (aggSig, mask, blk))
    (hnum : blk.numberU64 = m.blockNum) :
    s.acceptCommitted m aggSig mask blk = { s with
      fbftLog := (s.fbftLog.addNotVerifiedMessage m).addVerifiedMessage m
      aggregatedCommitSig := some aggSig
      commitBitmap := s.committedBitmap m mask blk
      blockchain := s.certified m
      trace := (s.acceptCommitted m aggSig mask blk).trace } := by
  set t : Consensus E := { (s.addNotVerifiedMessage m).addVerifiedMessage m with
    aggregatedCommitSig := some aggSig
    commitBitmap := mask } with ht
  have haccept : s.acceptCommitted m aggSig mask blk = t.overrideCommitSig m mask blk := by
    rw [acceptCommitted, spinUpIfLow_of_late hlate]
  have hmask : (t.overrideCommitSig m mask blk).commitBitmap = s.committedBitmap m mask blk :=
    overrideCommitSig_commitBitmap rfl
  have hchain : (t.overrideCommitSig m mask blk).blockchain = s.certified m :=
    overrideCommitSig_blockchain hvalid hnum rfl
  have hframe := (t.overrideCommitSig_spec m mask blk).1
  rw [hmask, hchain] at hframe
  rw [haccept]
  exact hframe

/-- The message itself is about another block, so the node looks for one to commit in the rest of
    the log. -/
theorem getCommitted_of_late (log : FBFTLog E)
    (order : List (FBFTMessage E) → List (FBFTMessage E)) :
    ((log.addNotVerifiedMessage m).addVerifiedMessage m).getCommittedBlockAndMsgsFromNumber order
      s.blockNum = (log.without m).getCommittedBlockAndMsgsFromNumber order s.blockNum := by
  have hne : (m.blockNum == s.blockNum) = false := by
    rw [beq_eq_false_iff_ne]
    intro heq
    rw [heq] at hlate
    omega
  have hmessages : ((log.addNotVerifiedMessage m).addVerifiedMessage m).getMessagesByTypeSeq
      .committed s.blockNum = (log.without m).getMessagesByTypeSeq .committed s.blockNum := by
    unfold FBFTLog.getMessagesByTypeSeq FBFTLog.findMessages FBFTLog.addVerifiedMessage
      FBFTLog.addNotVerifiedMessage FBFTLog.without
    dsimp only
    rw [AList.insert_insert, GoMap.values_insert]
    exact List.filter_cons_of_neg (by simp [hne])
  unfold FBFTLog.getCommittedBlockAndMsgsFromNumber
  rw [hmessages]
  rfl

theorem idle_iff_of_late (order : MapOrder E)
    (hvalid : s.committedChecks m = some (aggSig, mask, blk)) (hnum : blk.numberU64 = m.blockNum) :
    (s.acceptCommitted m aggSig mask blk).Idle order ↔
      ∀ blk msg, s.blockVerifierSet = true →
        (s.fbftLog.without m).getCommittedBlockAndMsgsFromNumber (order.messages s.blockNum)
          s.blockNum = some (blk, msg) →
        s.fbftLog.isBlockVerified blk = false ∧ E.blockVerifier (s.certified m) blk = false := by
  rw [acceptCommitted_of_late hlate hvalid hnum]
  simp only [Idle, getCommitted_of_late hlate]
  rfl

end

theorem acceptCommitted_round (s : Consensus E) (m : FBFTMessage E) (aggSig : E.Sign)
    (mask : E.Mask) (blk : Block) :
    (s.acceptCommitted m aggSig mask blk).aggregatedCommitSig = some aggSig ∧
      (s.acceptCommitted m aggSig mask blk).commitBitmap = s.committedBitmap m mask blk := by
  rw [(s.acceptCommitted_spec m aggSig mask blk).1]
  exact ⟨rfl, rfl⟩

theorem Undisturbed.round {s' : Consensus E} (h : Undisturbed m mask s s') :
    s'.aggregatedCommitSig = s.aggregatedCommitSig ∧ s'.commitBitmap = s.commitBitmap := by
  rw [h.frame]
  exact ⟨rfl, rfl⟩

/-- A valid late certificate leaves the current round alone exactly when it repeats the one that
    the round holds, and the log has no block to continue with. -/
theorem undisturbed_iff (s : Consensus E) (order : MapOrder E) (m : FBFTMessage E)
    (aggSig : E.Sign) (mask : E.Mask) (blk : Block)
    (hlate : m.blockNum.toNat + 1 = s.blockNum.toNat)
    (hvalid : s.committedChecks m = some (aggSig, mask, blk))
    (hnum : blk.numberU64 = m.blockNum) :
    Undisturbed m mask s (s.onCommitted order m) ↔ Repeats order s m := by
  have hframe := acceptCommitted_of_late hlate hvalid hnum
  have hidle_iff := idle_iff_of_late hlate order hvalid hnum
  have hstored := storedMask_of_valid hvalid hnum
  have hsig : E.bls.deserialize (m.payload.take blsSignatureSizeInBytes) = some aggSig :=
    (readSignatureBitmapPayload_eq_some (committedChecks_eq_some hvalid).2.1).2.1
  have hemits := (acceptCommitted_quiet (a := .any) (s := s) (m := m) aggSig mask blk trivial
    trivial).emits
  rw [onCommitted_of_late hlate hvalid]
  set t := s.acceptCommitted m aggSig mask blk
  constructor
  · intro h
    have hidle : t.Idle order := by
      refine idle_of_emits ?_ (hemits.mono fun _ _ => trivial) h.acts
      intro e he heq
      rw [heq] at he
      exact absurd he (by decide)
    rw [tryCatchup_of_idle hidle] at h
    have hround := s.acceptCommitted_round m aggSig mask blk
    exact ⟨by rw [hsig, ← hround.1, h.round.1], by rw [hstored, ← hround.2, h.round.2],
      hidle_iff.1 hidle⟩
  · intro h
    rw [tryCatchup_of_idle (hidle_iff.2 h.idle)]
    have hmask : s.commitBitmap = s.committedBitmap m mask blk :=
      Option.some.inj (h.bitmap.symm.trans hstored)
    rw [← hsig, ← h.signature, ← hmask] at hframe
    have hchain : t.blockchain = s.certified m := by rw [hframe]
    refine ⟨?_, hchain ▸ certified_better hvalid hnum, hemits⟩
    rw [hframe]

/-- Accepting a message does not change what the checks of another one read. -/
theorem committedChecks_acceptCommitted (s : Consensus E) (m m' : FBFTMessage E) (aggSig : E.Sign)
    (mask : E.Mask) (blk : Block) :
    (s.acceptCommitted m aggSig mask blk).committedChecks m' = s.committedChecks m' := by
  rw [(s.acceptCommitted_spec m aggSig mask blk).1]
  rfl

end Consensus

namespace Concrete

open Consensus

/-- A validator that has committed block 1 with the signatures of three members. -/
def committedOne : Consensus env :=
  Run.run step (node [4] 1 [1, 2, 3, 4] 1)
    [deliver (preparedMsg [1, 2, 3, 4] [1, 2, 3] 1 (blk 1 0 0) 1) 1,
      deliver (committedMsg [1, 2, 3, 4] [1, 2, 3] 1 1 (blk 1 0 0) 1) 1]

/-- The certificate of block 1 with all four signatures. -/
def lateMsg : FBFTMessage env :=
  (committedOne.parseFBFTMessage
    (committedMsg [1, 2, 3, 4] [1, 2, 3, 4] 1 1 (blk 1 0 0) 1)).toOption.get (by decide +kernel)

/-- Its signature, mask and block. -/
def lateCertificate : env.Sign × env.Mask × Block :=
  (committedOne.committedChecks lateMsg).get (by decide +kernel)

/-- The node has taken that certificate. -/
def tookLate : Consensus env := committedOne.onCommitted order lateMsg

theorem committedOne_valid : committedOne.committedChecks lateMsg =
    some (lateCertificate.1, lateCertificate.2.1, lateCertificate.2.2) := by
  rw [Prod.mk.eta]
  exact (Option.some_get _).symm

theorem tookLate_eq : tookLate = committedOne.acceptCommitted lateMsg lateCertificate.1
    lateCertificate.2.1 lateCertificate.2.2 :=
  (onCommitted_of_late (by decide +kernel) committedOne_valid).trans
    (tryCatchup_of_idle (idle_of_none (by decide +kernel)))

theorem tookLate_round : tookLate.aggregatedCommitSig = some lateCertificate.1 ∧
    tookLate.commitBitmap = lateCertificate.2.1 := by
  have hround := committedOne.acceptCommitted_round lateMsg lateCertificate.1 lateCertificate.2.1
    lateCertificate.2.2
  rw [tookLate_eq]
  exact ⟨hround.1, hround.2.trans (committedBitmap_of_not_stored (by decide +kernel))⟩

/-- The same certificate again changes nothing. -/
theorem repeated_certificate_undisturbed :
    Undisturbed lateMsg lateCertificate.2.1 tookLate (tookLate.onCommitted order lateMsg) := by
  have hvalid : tookLate.committedChecks lateMsg =
      some (lateCertificate.1, lateCertificate.2.1, lateCertificate.2.2) := by
    rw [tookLate_eq, committedChecks_acceptCommitted]
    exact committedOne_valid
  have hnum : lateCertificate.2.2.numberU64 = lateMsg.blockNum := by decide +kernel
  refine (undisturbed_iff tookLate order lateMsg lateCertificate.1 lateCertificate.2.1
    lateCertificate.2.2 (by decide +kernel) hvalid hnum).2 ⟨?_, ?_, ?_⟩
  · rw [tookLate_round.1]
    exact (readSignatureBitmapPayload_eq_some (committedChecks_eq_some hvalid).2.1).2.1.symm
  · rw [storedMask_of_valid hvalid hnum, tookLate_round.2,
      committedBitmap_of_not_stored (by decide +kernel)]
  · -- the log has no certificate of block 2
    have hnone : (tookLate.fbftLog.without lateMsg).getCommittedBlockAndMsgsFromNumber
        (order.messages tookLate.blockNum) tookLate.blockNum = none := by decide +kernel
    intro blk msg _ hfirst
    rw [hnone] at hfirst
    cases hfirst

/-- The late certificate of the block just committed sets the signature and the bitmap of the
    round that has begun. -/
theorem late_certificate_disturbs :
    (committedOne.blockNum, tookLate.blockNum) = (2, 2) ∧
      env.currentBlock committedOne.blockchain = blk 1 0 0 ∧
      committedOne.committedChecks lateMsg =
        some (lateCertificate.1, lateCertificate.2.1, lateCertificate.2.2) ∧
      lateCertificate.2.2 = blk 1 0 0 ∧
      (committedOne.aggregatedCommitSig.isSome, tookLate.aggregatedCommitSig.isSome) =
        (false, true) ∧
      (env.masks.countEnabled committedOne.commitBitmap,
        env.masks.countEnabled tookLate.commitBitmap) = (0, 4) ∧
      ¬ Undisturbed lateMsg lateCertificate.2.1 committedOne tookLate := by
  have hsig : (committedOne.aggregatedCommitSig.isSome, tookLate.aggregatedCommitSig.isSome) =
      (false, true) := by decide +kernel
  refine ⟨by decide +kernel, by decide +kernel, committedOne_valid, by decide +kernel, hsig,
    by decide +kernel, fun h => ?_⟩
  rw [h.round.1, Prod.mk.injEq] at hsig
  exact Bool.false_ne_true (hsig.1.symm.trans hsig.2)

end Concrete

end Benzene
