import Benzene.Common.Run
import Benzene.Consensus.Concrete
import Benzene.Consensus.StepSpec

/-!
# What the queries of the message log return

Four queries select messages of a type and a block number, and optionally of a view and of a
block hash (consensus/fbft_log.go:240-319).  Three of them return verified messages only.  The
fourth, `GetMessagesByTypeSeqView`, skips a message of another view only when it is verified, so
it returns every message of the type and number that is not verified, whatever its view.

* `exactQueries_iff`: the queries are exact, and an added key only restricts a result, exactly
  when no message of that type and number is unverified.
* `exactQueries_of_run`: a node never logs an unverified message of a type other than COMMITTED,
  so in a run the queries for the other types are exact; `onAnnounceSanityChecks` is the one
  caller of the fourth.
-/

namespace Benzene

variable {E : Env}

namespace FBFTLog

/-- The verified messages with a type and a block number, and with a view and a block hash where
    they are given. -/
def verifiedMatching (log : FBFTLog E) (typ : MessageType) (blockNum : UInt64)
    (viewID : Option UInt64) (blockHash : Option Hash) : List (FBFTMessage E) :=
  log.findMessages fun msg => msg.verified && (msg.messageType == typ && msg.blockNum == blockNum &&
    viewID.all (msg.viewID == ·) && blockHash.all (msg.blockHash == ·))

/-- Each query returns the verified messages that match all of its keys, and a query with one
    more key returns a part of what the query without it returns. -/
structure ExactQueries (log : FBFTLog E) (typ : MessageType) (blockNum viewID : UInt64)
    (blockHash : Hash) : Prop where
  seq : log.getMessagesByTypeSeq typ blockNum = log.verifiedMatching typ blockNum none none
  seqHash : log.getMessagesByTypeSeqHash typ blockNum blockHash =
    log.verifiedMatching typ blockNum none (some blockHash)
  seqView : log.getMessagesByTypeSeqView typ blockNum viewID =
    log.verifiedMatching typ blockNum (some viewID) none
  seqViewHash : log.getMessagesByTypeSeqViewHash typ blockNum viewID blockHash =
    log.verifiedMatching typ blockNum (some viewID) (some blockHash)
  seqView_eq_filter : log.getMessagesByTypeSeqView typ blockNum viewID =
    (log.getMessagesByTypeSeq typ blockNum).filter fun msg => msg.viewID == viewID
  seqHash_subset_seq : log.getMessagesByTypeSeqHash typ blockNum blockHash ⊆
    log.getMessagesByTypeSeq typ blockNum
  seqViewHash_subset_seqHash : log.getMessagesByTypeSeqViewHash typ blockNum viewID blockHash ⊆
    log.getMessagesByTypeSeqHash typ blockNum blockHash
  seqViewHash_subset_seqView : log.getMessagesByTypeSeqViewHash typ blockNum viewID blockHash ⊆
    log.getMessagesByTypeSeqView typ blockNum viewID

variable {log : FBFTLog E} {typ : MessageType} {blockNum viewID : UInt64} {blockHash : Hash}
  {m : FBFTMessage E}

theorem mem_findMessages {p : FBFTMessage E → Bool} :
    m ∈ log.findMessages p ↔ m ∈ GoMap.values log.messages ∧ p m = true :=
  List.mem_filter

theorem findMessages_congr {p q : FBFTMessage E → Bool}
    (h : ∀ m ∈ GoMap.values log.messages, p m = q m) : log.findMessages p = log.findMessages q :=
  List.filter_congr h

theorem filter_findMessages (p q : FBFTMessage E → Bool) :
    (log.findMessages p).filter q = log.findMessages fun m => p m && q m := by
  rw [findMessages, List.filter_filter, findMessages]
  exact List.filter_congr fun m _ => Bool.and_comm _ _

/-! ## The three exact queries -/

variable (log typ)

theorem getMessagesByTypeSeq_eq (blockNum : UInt64) :
    log.getMessagesByTypeSeq typ blockNum = log.verifiedMatching typ blockNum none none := by
  refine findMessages_congr fun m _ => ?_
  simp only [Option.all_none, Bool.and_true]
  exact Bool.and_comm _ _

theorem getMessagesByTypeSeqHash_eq (blockNum : UInt64) (blockHash : Hash) :
    log.getMessagesByTypeSeqHash typ blockNum blockHash =
      log.verifiedMatching typ blockNum none (some blockHash) := by
  refine findMessages_congr fun m _ => ?_
  simp only [Option.all_none, Option.all_some, Bool.and_true]
  exact Bool.and_comm _ _

theorem getMessagesByTypeSeqViewHash_eq (blockNum viewID : UInt64) (blockHash : Hash) :
    log.getMessagesByTypeSeqViewHash typ blockNum viewID blockHash =
      log.verifiedMatching typ blockNum (some viewID) (some blockHash) := by
  refine findMessages_congr fun m _ => ?_
  simp only [Option.all_some]
  exact Bool.and_comm _ _

/-- A key that is given only restricts the result. -/
theorem verifiedMatching_subset (blockNum : UInt64) {view view' : Option UInt64}
    {hash hash' : Option Hash} (hview : view' = none ∨ view' = view)
    (hhash : hash' = none ∨ hash' = hash) :
    log.verifiedMatching typ blockNum view hash ⊆
      log.verifiedMatching typ blockNum view' hash' := by
  intro m hm
  simp only [verifiedMatching, mem_findMessages, Bool.and_eq_true] at hm ⊢
  obtain ⟨hmem, hverified, ⟨htyp, hv⟩, hh⟩ := hm
  refine ⟨hmem, hverified, ⟨htyp, ?_⟩, ?_⟩
  · rcases hview with rfl | rfl
    · rfl
    · exact hv
  · rcases hhash with rfl | rfl
    · rfl
    · exact hh

variable {log typ}

/-! ## The query by view -/

/-- The query by view returns the messages of the view and all that are not verified. -/
theorem mem_getMessagesByTypeSeqView :
    m ∈ log.getMessagesByTypeSeqView typ blockNum viewID ↔
      m ∈ GoMap.values log.messages ∧ m.messageType = typ ∧ m.blockNum = blockNum ∧
        (m.verified = true → m.viewID = viewID) := by
  rw [getMessagesByTypeSeqView, mem_findMessages]
  cases m.verified <;> simp [and_assoc]

theorem getMessagesByTypeSeqView_eq
    (h : ∀ m ∈ GoMap.values log.messages, m.messageType = typ → m.blockNum = blockNum →
      m.verified = true) (viewID : UInt64) :
    log.getMessagesByTypeSeqView typ blockNum viewID =
      log.verifiedMatching typ blockNum (some viewID) none := by
  refine findMessages_congr fun m hm => ?_
  by_cases hkeys : m.messageType = typ ∧ m.blockNum = blockNum
  · simp [hkeys.1, hkeys.2, h m hm hkeys.1 hkeys.2, bne]
  · rw [not_and_or] at hkeys
    rcases hkeys with hkey | hkey <;> simp [bne, beq_eq_false_iff_ne.2 hkey]

theorem verifiedMatching_view (log : FBFTLog E) (typ : MessageType) (blockNum viewID : UInt64) :
    log.verifiedMatching typ blockNum (some viewID) none =
      (log.verifiedMatching typ blockNum none none).filter fun msg => msg.viewID == viewID := by
  rw [verifiedMatching, verifiedMatching, filter_findMessages]
  refine findMessages_congr fun m _ => ?_
  simp only [Option.all_none, Option.all_some, Bool.and_true, Bool.and_assoc]

theorem ExactQueries.of_verified
    (h : ∀ m ∈ GoMap.values log.messages, m.messageType = typ → m.blockNum = blockNum →
      m.verified = true) (viewID : UInt64) (blockHash : Hash) :
    log.ExactQueries typ blockNum viewID blockHash := by
  have hview := getMessagesByTypeSeqView_eq h viewID
  refine ⟨getMessagesByTypeSeq_eq log typ blockNum,
    getMessagesByTypeSeqHash_eq log typ _ _, hview,
    getMessagesByTypeSeqViewHash_eq log typ _ _ _, ?_, ?_, ?_, ?_⟩
  · rw [hview, getMessagesByTypeSeq_eq, verifiedMatching_view]
  · rw [getMessagesByTypeSeqHash_eq, getMessagesByTypeSeq_eq]
    exact verifiedMatching_subset log typ blockNum (Or.inl rfl) (Or.inl rfl)
  · rw [getMessagesByTypeSeqViewHash_eq, getMessagesByTypeSeqHash_eq]
    exact verifiedMatching_subset log typ blockNum (Or.inl rfl) (Or.inr rfl)
  · rw [getMessagesByTypeSeqViewHash_eq, hview]
    exact verifiedMatching_subset log typ blockNum (Or.inr rfl) (Or.inl rfl)

/-- **The queries of the log.**  For every log, type, block number, view and hash, the queries
    return exactly the verified messages that match their keys, and each key only restricts the
    result, exactly when every message of that type and block number is verified. -/
theorem exactQueries_iff (log : FBFTLog E) (typ : MessageType) (blockNum viewID : UInt64)
    (blockHash : Hash) :
    log.ExactQueries typ blockNum viewID blockHash ↔
      ∀ m ∈ GoMap.values log.messages, m.messageType = typ → m.blockNum = blockNum →
        m.verified = true := by
  constructor
  · intro h m hm htyp hnum
    by_contra hverified
    -- a message that is not verified is in the result by view, whatever its view
    have hmem : m ∈ log.getMessagesByTypeSeqView typ blockNum viewID :=
      mem_getMessagesByTypeSeqView.2 ⟨hm, htyp, hnum, fun hv => absurd hv hverified⟩
    rw [h.seqView, verifiedMatching, mem_findMessages, Bool.and_eq_true] at hmem
    exact hverified hmem.2.1
  · exact fun h => .of_verified h viewID blockHash

end FBFTLog

namespace Concrete

/-- A log with one message, a COMMITTED message of view 5 that is not verified. -/
def waitingLog : FBFTLog env :=
  FBFTLog.newFBFTLog.addNotVerifiedMessage {
    messageType := .committed
    viewID := 5
    blockNum := 1
    blockHash := env.blockHash (blk 1 0 0)
    block := []
    senderPubkeys := [pub 1]
    senderPubkeyBitmap := []
    payload := []
    verified := false }

/-- The query by type, number and view 0 returns the message of view 5, which is neither verified
    nor of that view, and which the query by type and number does not return. -/
theorem view_query_returns_other_view :
    (waitingLog.getMessagesByTypeSeqView .committed 1 0).map (fun m => (m.viewID, m.verified)) =
        [(5, false)] ∧
      waitingLog.getMessagesByTypeSeq .committed 1 = [] ∧
      ¬ waitingLog.ExactQueries .committed 1 0 (env.blockHash (blk 1 0 0)) := by
  have hview : (waitingLog.getMessagesByTypeSeqView .committed 1 0).map
      (fun m => (m.viewID, m.verified)) = [(5, false)] := by decide +kernel
  have hseq : waitingLog.getMessagesByTypeSeq .committed 1 = [] :=
    List.isEmpty_iff.1 (by decide +kernel)
  refine ⟨hview, hseq, fun h => ?_⟩
  rw [h.seqView_eq_filter, hseq] at hview
  cases hview

end Concrete

/-! ## In a run -/

namespace Consensus

/-- A message that is not verified is a COMMITTED message, and the follow-up of `onPrepared` works
    on COMMITTED messages. -/
def waitingContents : Contents E where
  msg m := m.messageType = .committed ∨ m.verified = true
  blk _ := True
  task
    | .followUp _ committedMsgs => ∀ m ∈ committedMsgs, m.messageType = .committed
    | _ => True

variable {s s' : Consensus E}

theorem Dispatch.waiting {e : NodeEvent E} (hd : Dispatch s e s') (h : Holds waitingContents s) :
    Holds waitingContents s' := by
  have hdrop : ∀ i, Holds waitingContents (s.dropTask i) :=
    fun i => (dropTask_grows s i).holds h
  cases hd with
  | idle heq =>
    rw [heq]
    exact ⟨h.messages, h.blocks, h.tasks⟩
  | dropTask => exact hdrop _
  | announce hparse _ _ _ => exact (onAnnounce_quiet hparse (Or.inr rfl)).grows.holds h
  | prepared hparse _ _ _ =>
    exact (onPrepared_quiet _ (Or.inr rfl) fun _ _ => ⟨trivial, trivial⟩).grows.holds h
  | committed hparse hm _ _ =>
    exact (onCommitted_acts _ (Or.inl hm) fun _ _ => Or.inl hm).grows.holds h
  | prepare _ _ _ => exact (onPrepare_quiet _ _ fun _ _ => Or.inr).grows.holds h
  | commit _ _ _ =>
    exact (onCommit_acts _ _ (fun _ hm => Or.inl hm.messageType) (fun _ _ _ => trivial)
      fun _ => trivial).grows.holds h
  | propose _ => exact (announce_quiet _ (fun _ _ => Or.inr) trivial).grows.holds h
  | preCommit _ => exact (runPreCommit_quiet _ (Or.inr rfl)).grows.holds (hdrop _)
  | gracePeriod _ =>
    exact (finalCommit_acts _ fun _ hm => Or.inl hm.messageType).grows.holds (hdrop _)
  | followUpStart _ =>
    exact (runFollowUpStart_quiet _ fun msgs hmsgs m hm => (hmsgs m hm).2.1).grows.holds (hdrop _)
  | followUp hget =>
    have hmsgs := h.tasks _ (List.mem_of_getElem? hget)
    refine (runFollowUp_acts _ (fun m hm _ => Or.inl (hmsgs m hm)) ?_).grows.holds (hdrop _)
    rintro m rest heq m' hm'
    exact hmsgs m' (heq ▸ List.mem_cons_of_mem _ hm')
  | syncReady => exact s.syncReady_acts.grows.holds h
  | syncNotReady | takeBlockNumLow | chainChanged => exact ⟨h.messages, h.blocks, h.tasks⟩

theorem step_waiting (h : Holds waitingContents s) (e : NodeEvent E) :
    Holds waitingContents (s.step e) :=
  (s.step_dispatch e).waiting h

/-- In every run of a node from its start, the queries for a type other than COMMITTED are exact
    at every moment. -/
theorem exactQueries_of_run (hstart : StartUp s) (events : List (NodeEvent E)) {typ : MessageType}
    (htyp : typ ≠ .committed) (blockNum viewID : UInt64) (blockHash : Hash) :
    (Run.run step s events).fbftLog.ExactQueries typ blockNum viewID blockHash := by
  have hany : Run.Steps step (fun _ _ => True) s events := Run.Steps.of_forall fun _ _ _ => trivial
  have hholds : Holds waitingContents (Run.run step s events) :=
    Run.run_invariant (Holds waitingContents) (fun _ e h _ => step_waiting h e)
      (hstart.holds _) hany
  refine .of_verified ?_ viewID blockHash
  rintro m hm rfl -
  exact (hholds.messages m hm).resolve_left htyp

end Consensus

namespace Concrete

/-- A validator gets the PREPARED message of the next block, and the COMMITTED message of the one
    after it, whose block it does not have. -/
def loggedRun : Consensus env :=
  Run.run Consensus.step (node [2] 1 [1, 2, 3, 4] 1)
    [deliver (preparedMsg [1, 2, 3, 4] [1, 2, 3] 1 (blk 1 0 0) 1) 1,
      deliver (committedMsg [1, 2, 3, 4] [1, 2, 3] 1 1 (blk 2 0 0) 2) 1]

/-- Both are in the log, and the COMMITTED one is not verified. -/
theorem exactQueries_of_start :
    ((GoMap.values loggedRun.fbftLog.messages).map fun m => (m.messageType, m.verified)).Perm
        [(.prepared, true), (.committed, false)] ∧
      loggedRun.fbftLog.ExactQueries .prepared 1 0 (env.blockHash (blk 1 0 0)) :=
  ⟨by decide +kernel, Consensus.exactQueries_of_run ⟨rfl, rfl, rfl⟩ _ (by decide) 1 0 _⟩

end Concrete

end Benzene
