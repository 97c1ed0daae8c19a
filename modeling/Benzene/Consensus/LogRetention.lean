import Benzene.Common.Run
import Benzene.Consensus.Concrete

/-!
# What the message log keeps

`FBFTLog.messages` stores a message under its id: type, view, block hash and 48 bytes for the
senders (consensus/fbft_log.go:69-99).  The block number is not part of the id, and of the bitmap
of several senders only the first 48 bytes are, so two messages that the log should tell apart
may share an id, and then the later one replaces the earlier one.

`retained_iff` says that this is the only way to lose a message: after any calls, a message that
was not pruned, and that was not stored again, is found by the query for it exactly when no later
message has its id.
-/

namespace Benzene

variable {E : Env}

/-- The calls that change the messages of a log. -/
inductive LogCall (E : Env)
  | addVerifiedMessage (msg : FBFTMessage E)
  | addNotVerifiedMessage (msg : FBFTMessage E)
  | deleteMessagesLessThan (number : UInt64)
  | pruneCacheBeforeBlock (bn : UInt64)

namespace LogCall

/-- The message as the call stores it. -/
def stored : LogCall E → Option (FBFTMessage E)
  | .addVerifiedMessage msg => some { msg with verified := true }
  | .addNotVerifiedMessage msg => some { msg with verified := false }
  | .deleteMessagesLessThan _ | .pruneCacheBeforeBlock _ => none

/-- The call deletes the messages with a block number. -/
def Prunes (blockNum : UInt64) : LogCall E → Prop
  | .deleteMessagesLessThan number => blockNum < number
  | .pruneCacheBeforeBlock bn => blockNum < bn - 1
  | .addVerifiedMessage _ | .addNotVerifiedMessage _ => False

end LogCall

namespace FBFTLog

variable {log : FBFTLog E} {c : LogCall E} {m : FBFTMessage E}

/-- The log after a call. -/
def call (log : FBFTLog E) : LogCall E → FBFTLog E
  | .addVerifiedMessage msg => log.addVerifiedMessage msg
  | .addNotVerifiedMessage msg => log.addNotVerifiedMessage msg
  | .deleteMessagesLessThan number => log.deleteMessagesLessThan number
  | .pruneCacheBeforeBlock bn => log.pruneCacheBeforeBlock bn

/-- The query that is meant to find a message: by hash when it is verified, the waiting COMMITTED
    messages, or by view, the one query that also returns other messages that are not verified. -/
def getMatching (log : FBFTLog E) (m : FBFTMessage E) : List (FBFTMessage E) :=
  if m.verified then
    log.getMessagesByTypeSeqViewHash m.messageType m.blockNum m.viewID m.blockHash
  else if m.messageType = .committed then
    log.getNotVerifiedCommittedMessages m.blockNum m.viewID m.blockHash
  else log.getMessagesByTypeSeqView m.messageType m.blockNum m.viewID

theorem mem_getMatching_iff : m ∈ log.getMatching m ↔ m ∈ GoMap.values log.messages := by
  unfold getMatching
  split_ifs with hverified htype
  · simp [getMessagesByTypeSeqViewHash, findMessages, hverified]
  · simp [getNotVerifiedCommittedMessages, findMessages, hverified, htype]
  · simp [getMessagesByTypeSeqView, findMessages]

/-! ## One call -/

variable {msg : FBFTMessage E}

theorem call_of_stored (h : c.stored = some msg) :
    (log.call c).messages = log.messages.insert msg.id msg := by
  cases c with
  | addVerifiedMessage msg' | addNotVerifiedMessage msg' =>
    obtain rfl := Option.some.inj h
    rfl
  | deleteMessagesLessThan number => cases h
  | pruneCacheBeforeBlock bn => cases h

theorem not_prunes_of_stored (h : c.stored = some msg) (blockNum : UInt64) :
    ¬c.Prunes blockNum := by
  cases c with
  | addVerifiedMessage | addNotVerifiedMessage => exact id
  | deleteMessagesLessThan | pruneCacheBeforeBlock => cases h

theorem lookup_call_of_stored_eq_none (h : c.stored = none) (k : FBFTMsgID) :
    (log.call c).messages.lookup k = some m ↔
      ¬c.Prunes m.blockNum ∧ log.messages.lookup k = some m := by
  cases c with
  | addVerifiedMessage | addNotVerifiedMessage => cases h
  | deleteMessagesLessThan number =>
    simp [call, LogCall.Prunes, deleteMessagesLessThan, GoMap.lookup_filter_eq_some, and_comm]
  | pruneCacheBeforeBlock bn =>
    simp [call, LogCall.Prunes, pruneCacheBeforeBlock, deleteMessagesLessThan,
      deleteBlocksLessThan, GoMap.lookup_filter_eq_some, and_comm]

/-- What is stored after a call: the message of the call, or an earlier one that the call neither
    replaces nor deletes. -/
theorem lookup_call (k : FBFTMsgID) :
    (log.call c).messages.lookup k = some m ↔
      (c.stored = some m ∧ m.id = k) ∨
        ((∀ m', c.stored = some m' → m'.id ≠ k) ∧ ¬c.Prunes m.blockNum ∧
          log.messages.lookup k = some m) := by
  cases hc : c.stored with
  | none => simp [lookup_call_of_stored_eq_none hc]
  | some msg =>
    rw [call_of_stored hc, GoMap.lookup_insert_eq]
    have hprunes := not_prunes_of_stored hc m.blockNum
    split_ifs with hk
    · subst hk
      simp only [Option.some.injEq]
      refine ⟨fun h => Or.inl ⟨h, h ▸ rfl⟩, ?_⟩
      rintro (⟨h, -⟩ | ⟨hne, -⟩)
      · exact h
      · exact absurd rfl (hne msg rfl)
    · refine ⟨fun h => Or.inr ⟨?_, hprunes, h⟩, ?_⟩
      · intro m' hm' hid
        obtain rfl := Option.some.inj hm'
        exact hk hid.symm
      · rintro (⟨h, hid⟩ | ⟨-, -, h⟩)
        · obtain rfl := Option.some.inj h
          exact absurd hid.symm hk
        · exact h

/-! ## Runs of calls -/

/-- Every message is stored under its own id. -/
def Keyed (log : FBFTLog E) : Prop := ∀ k m, log.messages.lookup k = some m → m.id = k

theorem Keyed.call (h : log.Keyed) (c : LogCall E) : (log.call c).Keyed := by
  intro k m hm
  rcases (lookup_call k).1 hm with ⟨-, hid⟩ | ⟨-, -, hold⟩
  · exact hid
  · exact h k m hold

theorem keyed_run (calls : List (LogCall E)) :
    (Run.run call (newFBFTLog : FBFTLog E) calls).Keyed := by
  have hall : Run.Steps FBFTLog.call (fun _ _ => True) (newFBFTLog : FBFTLog E) calls :=
    Run.Steps.of_forall fun _ _ _ => trivial
  refine Run.run_invariant Keyed (fun _ c h _ => h.call c) ?_ hall
  intro k m hm
  exact absurd hm (by simp [newFBFTLog])

theorem Keyed.mem_values_iff (h : log.Keyed) :
    m ∈ GoMap.values log.messages ↔ log.messages.lookup m.id = some m := by
  refine ⟨fun hm => ?_, GoMap.mem_values_of_lookup⟩
  obtain ⟨k, hk⟩ := GoMap.mem_values_iff.1 hm
  rwa [h k m hk]

/-- The messages agree in what should tell messages of the log apart. -/
structure SameVote (m m' : FBFTMessage E) : Prop where
  messageType : m.messageType = m'.messageType
  viewID : m.viewID = m'.viewID
  blockNum : m.blockNum = m'.blockNum
  blockHash : m.blockHash = m'.blockHash
  senders : ∀ k, k ∈ m.senderPubkeys.map (·.bytes) ↔ k ∈ m'.senderPubkeys.map (·.bytes)

theorem SameVote.of_eq {m m' : FBFTMessage E} (h : m = m') : SameVote m m' := by
  subst h
  exact ⟨rfl, rfl, rfl, rfl, fun _ => Iff.rfl⟩

variable {calls : List (LogCall E)}

/-- A message that is not in the log only comes back when it is stored again. -/
theorem lookup_ne_run (h : log.messages.lookup m.id ≠ some m)
    (hlast : ∀ c ∈ calls, ∀ m', c.stored = some m' → ¬SameVote m' m) :
    (Run.run call log calls).messages.lookup m.id ≠ some m := by
  induction calls generalizing log with
  | nil => exact h
  | cons c calls ih =>
    refine ih (fun hfound => ?_) fun c' hc' => hlast c' (List.mem_cons_of_mem _ hc')
    rcases (lookup_call m.id).1 hfound with ⟨hstored, -⟩ | ⟨-, -, hold⟩
    · exact hlast c List.mem_cons_self m hstored (.of_eq rfl)
    · exact h hold

/-- A message that is in the log stays until a message with its id is stored. -/
theorem lookup_run_iff (h : log.messages.lookup m.id = some m)
    (hkept : ∀ c ∈ calls, ¬c.Prunes m.blockNum)
    (hlast : ∀ c ∈ calls, ∀ m', c.stored = some m' → ¬SameVote m' m) :
    (Run.run call log calls).messages.lookup m.id = some m ↔
      ∀ c ∈ calls, ∀ m', c.stored = some m' → m'.id ≠ m.id := by
  induction calls generalizing log with
  | nil => simpa [Run.run] using h
  | cons c calls ih =>
    have hlast' : ∀ c' ∈ calls, ∀ m', c'.stored = some m' → ¬SameVote m' m :=
      fun c' hc' => hlast c' (List.mem_cons_of_mem _ hc')
    by_cases hc : ∀ m', c.stored = some m' → m'.id ≠ m.id
    · have hstays : (log.call c).messages.lookup m.id = some m :=
        (lookup_call m.id).2 (Or.inr ⟨hc, hkept c List.mem_cons_self, h⟩)
      have hrest := ih hstays (fun c' hc' => hkept c' (List.mem_cons_of_mem _ hc')) hlast'
      rw [List.forall_mem_cons]
      exact hrest.trans ⟨fun h => ⟨hc, h⟩, And.right⟩
    · -- The call stores another message under the id, and nothing brings the old one back.
      have hlost : (log.call c).messages.lookup m.id ≠ some m := by
        intro hfound
        rcases (lookup_call m.id).1 hfound with ⟨hstored, -⟩ | ⟨hne, -, -⟩
        · exact hlast c List.mem_cons_self m hstored (.of_eq rfl)
        · exact hc hne
      have hend : (Run.run call (log.call c) calls).messages.lookup m.id ≠ some m :=
        lookup_ne_run hlost hlast'
      exact iff_of_false hend fun hall => hc (hall c List.mem_cons_self)

/-- **What the log keeps.**  After any calls, a message that a call stored, that was not pruned
    since, and that no later message of the same type, view, block number, block hash and senders
    replaces, is found by the query for it, with its flag, exactly when no later message has the
    same id. -/
theorem retained_iff (before after : List (LogCall E)) (add : LogCall E) (m : FBFTMessage E)
    (hadd : add.stored = some m) (hkept : ∀ c ∈ after, ¬c.Prunes m.blockNum)
    (hlast : ∀ c ∈ after, ∀ m', c.stored = some m' → ¬SameVote m' m) :
    m ∈ (Run.run call newFBFTLog (before ++ add :: after)).getMatching m ↔
      ∀ c ∈ after, ∀ m', c.stored = some m' → m'.id ≠ m.id := by
  rw [mem_getMatching_iff, (keyed_run _).mem_values_iff]
  have hsplit : Run.run call (newFBFTLog : FBFTLog E) (before ++ add :: after) =
      Run.run call ((Run.run call newFBFTLog before).call add) after := by
    simp [Run.run]
  rw [hsplit]
  exact lookup_run_iff ((lookup_call m.id).2 (Or.inl ⟨hadd, rfl⟩)) hkept hlast

end FBFTLog

namespace Concrete

/-- A COMMITTED message of the leader for a block, with a block number of its own. -/
def committedAs (b : Block) (blockNum : UInt8) : FBFTMessage env where
  messageType := .committed
  viewID := 0
  blockNum := blockNum.toUInt64
  blockHash := env.blockHash b
  block := []
  senderPubkeys := [pub 1]
  senderPubkeyBitmap := []
  payload := certificate [1, 2, 3, 4] [1, 2, 3] (env.commitPayload b)
  verified := true

/-- COMMITTED messages of two blocks: both are kept. -/
theorem committed_kept :
    committedAs (blk 1 0 0) 1 ∈ (Run.run FBFTLog.call FBFTLog.newFBFTLog
      ([] ++ .addVerifiedMessage (committedAs (blk 1 0 0) 1) ::
        [.addVerifiedMessage (committedAs (blk 2 0 0) 2)])).getMatching
        (committedAs (blk 1 0 0) 1) := by
  refine (FBFTLog.retained_iff [] _ _ (committedAs (blk 1 0 0) 1) rfl ?_ ?_).2 ?_
  · simp [LogCall.Prunes]
  · intro c hc m' hm' hsame
    obtain rfl := List.mem_singleton.1 hc
    obtain rfl := Option.some.inj hm'
    exact absurd hsame.blockNum (by decide)
  · intro c hc m' hm'
    obtain rfl := List.mem_singleton.1 hc
    obtain rfl := Option.some.inj hm'
    decide +kernel

/-- COMMITTED messages for one block hash with the block numbers 1 and 2: the second replaces the
    first, and the query for the first finds nothing. -/
theorem committed_overwritten :
    (committedAs (blk 1 0 0) 1).blockNum ≠ (committedAs (blk 1 0 0) 2).blockNum ∧
      (Run.run FBFTLog.call FBFTLog.newFBFTLog
        [.addVerifiedMessage (committedAs (blk 1 0 0) 1),
          .addVerifiedMessage (committedAs (blk 1 0 0) 2)]).getMatching
        (committedAs (blk 1 0 0) 1) = [] := by
  refine ⟨by decide, List.isEmpty_iff.1 ?_⟩
  decide +kernel

end Concrete

end Benzene
