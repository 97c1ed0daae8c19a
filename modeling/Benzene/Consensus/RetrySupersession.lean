import Benzene.Consensus.RetryEntries

/-!
# Retry supersession

* `counted_run`: in every run a message is repeated at most `retryTimes` times.
* `supersedes_of_orderly`: at most one retry of a type is active, and nothing is sent once a newer
  message of the type has replaced it, as long as the sends of a type come one after the other,
  none stores its message while a `Reset` goes over the map, and none returns while a retry of an
  older message has passed its check.

Two sends of a type that overlap, as `preCommitAndPropose` and `finalCommit` may, both stop the
message that was there and both stay active.
-/

namespace Benzene

namespace MessageSender

variable {s : MessageSender} {i : ℕ} {f : SendCall → SendCall}

/-! ## The number of repetitions -/

/-- `retryCount` counts the repetitions, and the goroutine goes on only below the limit. -/
def CountOk (retryTimes resent : ℕ) (c : SendCall) : Prop :=
  resent = c.msgRetry.retryCount ∧ resent ≤ retryTimes ∧
    (c.goroutine.passed = true → resent < retryTimes)

structure Counted (s : MessageSender) : Prop where
  calls : ∀ (i : ℕ) (c : SendCall), s.calls[i]? = some c → CountOk s.retryTimes (s.resends i) c
  free : ∀ i, s.calls[i]? = none → s.resends i = 0

theorem Counted.modifyCall (h : Counted s) (hf : ∀ c, s.calls[i]? = some c →
    CountOk s.retryTimes (s.resends i) (f c)) : Counted (s.modifyCall i f) := by
  refine ⟨fun j c' hc' => ?_, fun j hj => h.free j ?_⟩
  · obtain ⟨c, hc, ⟨rfl, rfl⟩ | ⟨-, rfl⟩⟩ := of_getElem?_modifyCall hc'
    · exact hf c hc
    · exact h.calls j c' hc
  · rwa [getElem?_modifyCall, Option.map_eq_none_iff] at hj

theorem Counted.deactivate (h : Counted s) (k : ℕ) : Counted (s.deactivate k) :=
  h.modifyCall (h.calls k)

theorem Counted.sendStep (h : Counted s) (i : ℕ) : Counted (s.sendStep i) := by
  have hpc : ∀ {t : MessageSender} (p : SendPc), Counted t → Counted (t.setPc i p) :=
    fun p ht => ht.modifyCall (ht.calls i)
  unfold MessageSender.sendStep
  cases hc : s.calls[i]? with
  | none => exact h
  | some c =>
    dsimp only
    cases c.pc with
    | loads =>
      dsimp only
      split <;> exact hpc _ h
    | stops old => exact hpc _ (h.deactivate old)
    | stores | sends | returns => exact hpc _ ⟨h.calls, h.free⟩
    | starts =>
      refine h.modifyCall fun d hd => ?_
      have hi := h.calls i d hd
      exact ⟨hi.1, hi.2.1, fun hp => absurd hp Bool.false_ne_true⟩
    | returned => exact h

theorem Counted.retryStep (h : Counted s) (i : ℕ) : Counted (s.retryStep i) := by
  rcases s.retryStep_cases i with heq | ⟨c, hc, -, hcases⟩
  · rw [heq]
    exact h
  have hi := h.calls i c hc
  rcases hcases with heq | ⟨g, hon, heq⟩ | ⟨hpassed, heq⟩
  all_goals rw [heq]
  · refine h.modifyCall fun d hd => ?_
    obtain rfl := Option.some.inj (hc.symm.trans hd)
    exact ⟨hi.1, hi.2.1, fun hp => absurd hp Bool.false_ne_true⟩
  · refine h.modifyCall fun d hd => ?_
    obtain rfl := Option.some.inj (hc.symm.trans hd)
    refine ⟨hi.1, hi.2.1, fun _ => ?_⟩
    rcases hon with hp | ⟨-, hlt⟩
    · exact hi.2.2 hp
    · exact hi.1.trans_lt hlt
  · have hresends : ∀ j, (s.sendMessageToGroups i c.msgRetry true).resends j =
        s.resends j + if i = j then 1 else 0 := by
      intro j
      simp [resends, MessageSender.sendMessageToGroups, MessageSender.act, List.countP_cons,
        SenderAction.isResend]
    refine ⟨fun j d hd => ?_, fun j hj => ?_⟩
    · show CountOk s.retryTimes ((s.sendMessageToGroups i c.msgRetry true).resends j) d
      rw [hresends]
      obtain ⟨c', hc', ⟨rfl, rfl⟩ | ⟨hne, rfl⟩⟩ := of_getElem?_modifyCall hd
      · obtain rfl := Option.some.inj (hc.symm.trans hc')
        rw [if_pos rfl]
        exact ⟨congrArg (· + 1) hi.1, hi.2.2 hpassed, fun hp => absurd hp Bool.false_ne_true⟩
      · rw [if_neg hne.symm]
        exact h.calls j d hc'
    · rw [getElem?_modifyCall, Option.map_eq_none_iff] at hj
      have hne : i ≠ j := fun hij => Option.some_ne_none c (hc.symm.trans (hij ▸ hj))
      exact (hresends j).trans ((congrArg _ (if_neg hne)).trans (h.free j hj))

theorem Counted.sendCall (h : Counted s) (delayed : Bool) (blockNum : UInt64)
    (msgType : MessageType) (groups : List String) (p2pMsg : Bytes) :
    Counted (s.sendCall delayed blockNum msgType groups p2pMsg) := by
  refine ⟨fun j c hc => ?_, fun j hj => h.free j ?_⟩
  · rcases of_getElem?_concat hc with hc | ⟨rfl, rfl⟩
    · exact h.calls j c hc
    · have hzero : s.resends s.calls.length = 0 := h.free _ (List.getElem?_eq_none le_rfl)
      exact ⟨hzero, hzero.trans_le (Nat.zero_le _), fun hp => absurd hp Bool.false_ne_true⟩
  · rw [List.getElem?_eq_none_iff] at hj ⊢
    exact (Nat.le_add_right _ _).trans (List.length_append.symm.trans_le hj)

theorem Counted.step (h : Counted s) (e : SenderEvent) : Counted (s.step e) := by
  cases e with
  | sendWithRetry | delayedSendWithRetry => exact h.sendCall _ _ _ _ _
  | send i => exact h.sendStep i
  | retry i => exact h.retryStep i
  | stopRetry | reset => exact ⟨h.calls, h.free⟩
  | stop i =>
    unfold MessageSender.step MessageSender.stopStep
    dsimp only
    split
    · exact h
    · exact h
    · split <;> exact ⟨h.calls, h.free⟩
    · next old _ => exact ⟨(h.deactivate old).calls, (h.deactivate old).free⟩
  | clear i order =>
    unfold MessageSender.step MessageSender.resetStep
    dsimp only
    split
    case h_7 found _ _ => exact ⟨(h.deactivate found).calls, (h.deactivate found).free⟩
    all_goals exact ⟨h.calls, h.free⟩

theorem Counted.resends_le (h : Counted s) (i : ℕ) : s.resends i ≤ s.retryTimes := by
  cases hc : s.calls[i]? with
  | none => exact (h.free i hc).trans_le (Nat.zero_le _)
  | some c => exact (h.calls i c hc).2.1

/-- In every run a message is repeated at most `retryTimes` times. -/
theorem counted_run (retryTimes : ℕ) (events : List SenderEvent) :
    Counted (Run.run step (newMessageSender retryTimes) events) := by
  have hany : Run.Steps step (fun _ _ => True) (newMessageSender retryTimes) events :=
    Run.Steps.of_forall fun _ _ _ => trivial
  exact Run.run_invariant Counted (fun s e hs _ => hs.step e) ⟨nofun, fun i _ => rfl⟩ hany

/-- At most one retry of a type is active, no replaced message is sent and none is repeated too
    often, in every run in which the sends of a type come one after the other, no message is stored
    while a `Reset` goes over the map, and no send returns while an older retry has passed its
    check. -/
theorem supersedes_of_orderly (retryTimes : ℕ) (events : List SenderEvent)
    (h : Run.Steps step (fun s e => s.orderly e = true) (newMessageSender retryTimes) events) :
    (Run.run step (newMessageSender retryTimes) events).Supersedes := by
  have hinv : EntryInv (Run.run step (newMessageSender retryTimes) events) :=
    Run.run_invariant EntryInv (fun s e hs hok => hs.step e hok)
      (entryInv_newMessageSender retryTimes) h
  exact ⟨hinv.oneActive, hinv.noneOutdated, (counted_run retryTimes events).resends_le⟩

/-- A PREPARED message is sent, repeated once, stopped and cleared, and the one of the next block
    is sent. -/
def preparedTwice : List SenderEvent :=
  [.sendWithRetry 1 .prepared ["shard"] [1], .send 0, .send 0, .send 0, .send 0, .send 0,
    .retry 0, .retry 0, .retry 0, .stopRetry .prepared, .stop 0, .stop 0,
    .reset 2, .clear 0 [], .clear 0 [], .clear 0 [], .clear 0 [], .clear 0 [], .clear 0 [],
    .clear 0 [], .clear 0 [], .clear 0 [],
    .sendWithRetry 2 .prepared ["shard"] [2], .send 1, .send 1, .send 1, .send 1, .send 1]

theorem preparedTwice_supersedes :
    (Run.run step (newMessageSender 3) preparedTwice).Supersedes :=
  supersedes_of_orderly 3 preparedTwice (by decide +kernel)

/-- The early commit and the final commit send their COMMITTED messages at once: each finds no
    entry to stop. -/
def overlap : List SenderEvent :=
  [.sendWithRetry 1 .committed ["shard"] [1], .delayedSendWithRetry 1 .committed ["shard"] [2],
    .send 0, .send 1, .send 0, .send 0, .send 0, .send 0, .send 1, .send 1, .send 1]

/-- The message of the next block is sent, and then the retry of the first message goes on. -/
def nextBlock : List SenderEvent :=
  [.sendWithRetry 2 .committed ["shard"] [3], .send 2, .send 2, .send 2, .send 2, .send 2, .send 2,
    .retry 0, .retry 0]

theorem overlap_not_superseded :
    ¬ (Run.run step (newMessageSender 3) overlap).OneActive ∧
      ¬ (Run.run step (newMessageSender 3) (overlap ++ nextBlock)).NoneOutdated := by
  decide +kernel

end MessageSender

end Benzene
