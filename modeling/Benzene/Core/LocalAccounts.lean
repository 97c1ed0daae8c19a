import Benzene.Core.AddLocal
import Benzene.Core.QueueTruncation
import Benzene.Core.Turns

/-!
# Local accounts

`AddLocal` (core/tx_pool.go:746-749) is to mark the sender of an accepted transaction as local and
to write the transaction to the journal.  `add` has two ways to succeed, and the one in which a
pending transaction is replaced returns before the mark is set; `journalTx` then writes nothing for
an account that is not local yet.

* `addLocal_marks_iff`: when an accepted transaction is marked and journalled;
* `spared_of_local`: what the mark is good for.  Neither the price heap nor a truncation drops a
  transaction of a local account.
-/

namespace Benzene

/-- Local accounts stay local. -/
theorem Books.History.contains {C : Crypto} {seen : List Transaction} {b b' : Books} {a : Address}
    (h : Books.History C seen b b') (ha : AccountSet.contains b.locals a = true) :
    AccountSet.contains b'.locals a = true := by
  induction h with
  | refl => exact ha
  | @tail seen new b b₁ b₂ _ hact ih =>
    cases hact with
    | left => exact ih ha
    | @entered _ isLocal tx =>
      cases isLocal with
      | false => exact ih ha
      | true =>
        simp only [AccountSet.contains, AccountSet.add, GoMap.lookup_insert_eq, if_true]
        split_ifs
        · rfl
        · exact ih ha
    | swept => exact ih ha

namespace TxPool

variable {C : Crypto} {ord : RangeOrder} {now : ℤ} {pool pool' : TxPool} {a : Address}
  {tx : Transaction} {isLocal : Bool}

/-! ## What a local account is spared -/

/-- No eviction for the price or the size takes a transaction of the account. -/
structure Spared (C : Crypto) (pool : TxPool) (a : Address) : Prop where
  /-- Making room in a full pool. -/
  discard : ∀ {slots : ℤ} {r : TxPricedList × List Transaction},
    pool.priced.discard C pool.all pool.locals slots = some r →
      ∀ t ∈ r.2, C.sender poolSigner t ≠ .ok a
  /-- A higher price limit. -/
  cap : ∀ price, ∀ t ∈ (pool.priced.cap C pool.all pool.locals price).2,
    C.sender poolSigner t ≠ .ok a
  /-- The limit of the pending transactions. -/
  pending : ∀ {ord : RangeOrder} {pool' : TxPool}, pool.truncatePending C ord = some pool' →
    ∀ n t, listAt pool.pending (a, n) = some t → listAt pool'.pending (a, n) = some t
  /-- The limit of the queue. -/
  queue : ∀ {ord : RangeOrder} {now : ℤ} {pool' : TxPool},
    pool.truncateQueue C ord now = some pool' →
      pool'.pending = pool.pending ∧ pool'.queue.lookup a = pool.queue.lookup a
  /-- The limit of the queue of one account. -/
  capQueue : ∀ list, pool.capQueue a list = some (list, [])

theorem sender_ne_of_taken {locals : AccountSet} {t : Transaction}
    (ha : AccountSet.contains locals a = true)
    (ht : AccountSet.containsTx C locals t = false) : C.sender poolSigner t ≠ .ok a := by
  intro hsender
  rw [AccountSet.containsTx, hsender] at ht
  exact absurd (ha.symm.trans ht) (by decide)

/-- A local account is spared. -/
theorem spared_of_local (h : Good C pool) (hslots : 1 ≤ pool.config.accountSlots.toNat)
    (ha : AccountSet.contains pool.locals a = true) : Spared C pool a where
  discard hr t ht := sender_ne_of_taken ha ((TxPricedList.discard_swept hr).1.taken t ht)
  cap price t ht := sender_ne_of_taken ha (TxPricedList.cap_swept.1.taken t ht)
  pending := by
    intro ord pool' hr n t ht
    obtain ⟨pool₁, heq, -, -, hiff⟩ := truncatePending_survives_iff ord h hslots ht
    obtain rfl : pool₁ = pool' := Option.some.inj (heq.symm.trans hr)
    exact hiff.2 (Or.inl ha)
  queue := by
    intro ord now pool' hr
    obtain ⟨pool₁, heq, hsheds⟩ := truncateQueue_sheds ord now h
    obtain rfl : pool₁ = pool' := Option.some.inj (heq.symm.trans hr)
    exact ⟨hsheds.pending, hsheds.queueCut.local_queue a ha⟩
  capQueue list := by rw [TxPool.capQueue, if_pos ha]

/-! ## The journal -/

theorem removeTx_journal (h : Good C pool) {hash : Hash} {outofbound : Bool}
    (hr : pool.removeTx C ord now hash outofbound = some pool') :
    pool'.journal = pool.journal := by
  obtain ⟨pool₁, heq, -, hcases⟩ := removeTx_cases h.sound ord now hash outofbound
  obtain rfl : pool₁ = pool' := Option.some.inj (heq.symm.trans hr)
  rcases hcases with ⟨-, rfl⟩ | ⟨tx, l, -, -, -, ⟨-, rfl⟩ | ⟨-, rfl⟩⟩
  · rfl
  · exact requeueAll_frame (f := journal) fun _ _ => rfl
  · rfl

theorem removeTxs_journal (h : Good C pool) {txs : List Transaction} {outofbound : Bool}
    (hr : removeTxs C ord now outofbound pool txs = some pool') :
    pool'.journal = pool.journal := by
  induction txs generalizing pool with
  | nil =>
    obtain rfl := Option.some.inj hr
    rfl
  | cons tx txs ih =>
    obtain ⟨pool₁, hpool₁, hr⟩ := Option.bind_eq_some_iff.1 hr
    obtain ⟨pool₂, heq, hg, -, -⟩ := removeTx_keeps ord now h tx outofbound
    obtain rfl : pool₂ = pool₁ := Option.some.inj (heq.symm.trans hpool₁)
    exact (ih hg hr).trans (removeTx_journal h hpool₁)

theorem Room.journal {r : TxPool × Bool} (hr : Room C ord now isLocal pool tx r)
    (h : Good C pool) : r.1.journal = pool.journal := by
  cases hr with
  | free | refused => rfl
  | @made d _ _ _ _ hremove =>
    have hjournal := removeTxs_journal (h.setPriced d.1) hremove
    exact hjournal

theorem Room.locals {r : TxPool × Bool} (hr : Room C ord now isLocal pool tx r)
    (h : Good C pool) : r.1.locals = pool.locals :=
  (hr.keeps h).1.history.locals_eq rfl

/-! ## What stays pending -/

/-- A pending transaction stays so if neither it nor one below it is removed. -/
theorem removeTx_pending_iff (h : Good C pool) {hash : Hash} {outofbound : Bool}
    (hr : pool.removeTx C ord now hash outofbound = some pool') {n : UInt64} {t : Transaction} :
    listAt pool'.pending (a, n) = some t ↔ listAt pool.pending (a, n) = some t ∧
      ∀ m x, m ≤ n → listAt pool.pending (a, m) = some x → C.txHash x ≠ hash := by
  have hs := h.sound
  obtain ⟨pool₁, heq, -, hcases⟩ := removeTx_cases hs ord now hash outofbound
  obtain rfl : pool₁ = pool' := Option.some.inj (heq.symm.trans hr)
  rcases hcases with ⟨hnone, rfl⟩ | ⟨tx, l, hget, rfl, ht, ⟨hl, rfl⟩ | ⟨hl, rfl⟩⟩
  · refine (and_iff_left fun m x _ hx heq => ?_).symm
    rw [← heq, hs.get_of_pending hx] at hnone
    cases hnone
  · have hat : listAt pool.pending (C.cell tx) = some tx := (listAt_of_lookup hl _).trans ht
    -- the one that is removed is the only one of its hash
    have hunique : ∀ {m x}, listAt pool.pending (a, m) = some x → C.txHash x = C.txHash tx →
        C.cell tx = (a, m) := by
      intro m x hx heq
      have hsome := hs.get_of_pending hx
      rw [heq, hget] at hsome
      exact Option.some.inj hsome ▸ hs.shelved.left_place hx
    rw [unpend, requeueAll_pending, listAt_storePending]
    show listAt (pool.pending.insert (C.poolSender tx) (l.remove ord tx).1) (a, n) = some t ↔ _
    rw [listAt_insert]
    split_ifs with ha
    · dsimp only at ha
      subst ha
      rw [TxList.get_remove_of_strict ord (hs.pending_strict hl) ht, listAt_of_lookup hl]
      refine and_congr_right fun _ => ⟨fun hlt m x hm hx heq => ?_, fun hstays => ?_⟩
      · have hm' : tx.accountNonce = m := congrArg Prod.snd (hunique hx heq)
        exact absurd (hm' ▸ hm) (UInt64.not_le.2 hlt)
      · by_contra hle
        exact hstays _ tx (UInt64.not_lt.1 hle) hat rfl
    · refine (and_iff_left fun m x _ hx heq => ha ?_).symm
      exact (congrArg Prod.fst (hunique hx heq)).symm
  · refine (and_iff_left fun m x _ hx heq => ?_).symm
    have hsome := hs.get_of_pending hx
    rw [heq, hget] at hsome
    obtain rfl := Option.some.inj hsome
    -- the one that is removed is queued
    have hat : listAt pool.queue (C.cell tx) = some tx := (listAt_of_lookup hl _).trans ht
    rw [hs.shelved.left_place hx, hs.shelved.disjoint hx] at hat
    cases hat

theorem removeTxs_pending_iff (h : Good C pool) {txs : List Transaction} {outofbound : Bool}
    (hr : removeTxs C ord now outofbound pool txs = some pool') {n : UInt64} {t : Transaction} :
    listAt pool'.pending (a, n) = some t ↔ listAt pool.pending (a, n) = some t ∧
      ∀ m x, m ≤ n → listAt pool.pending (a, m) = some x → C.txHash x ∉ txs.map C.txHash := by
  induction txs generalizing pool with
  | nil =>
    obtain rfl := Option.some.inj hr
    simp
  | cons tx txs ih =>
    obtain ⟨pool₁, hpool₁, hr⟩ := Option.bind_eq_some_iff.1 hr
    obtain ⟨pool₂, heq, hg, -, -⟩ := removeTx_keeps ord now h tx outofbound
    obtain rfl : pool₂ = pool₁ := Option.some.inj (heq.symm.trans hpool₁)
    have hone := fun m x => @removeTx_pending_iff C ord now pool pool₂ a h _ _ hpool₁ m x
    rw [ih hg hr, hone]
    simp only [List.map_cons, List.mem_cons, not_or]
    constructor
    · rintro ⟨⟨hat, hfirst⟩, hrest⟩
      refine ⟨hat, fun m x hm hx => ⟨hfirst m x hm hx, hrest m x hm ((hone m x).2 ⟨hx, ?_⟩)⟩⟩
      exact fun m' x' hm' => hfirst m' x' (UInt64.le_trans hm' hm)
    · rintro ⟨hat, hstays⟩
      exact ⟨⟨hat, fun m x hm hx => (hstays m x hm hx).1⟩,
        fun m x hm hx => (hstays m x hm ((hone m x).1 hx).1).2⟩

/-- Room for the transaction is made by evicting a pending one of its sender, of the same nonce or a
    lower one. -/
def Unseats (C : Crypto) (pool : TxPool) (tx : Transaction) (isLocal : Bool) : Prop :=
  ∃ n x, n ≤ tx.accountNonce ∧ listAt pool.pending (C.poolSender tx, n) = some x ∧
    C.txHash x ∈ (pool.evicted C tx isLocal).map C.txHash

/-- The nonce is not pending once there is room. -/
theorem Room.vacant_iff {room : TxPool} (hroom : Room C ord now isLocal pool tx (room, true))
    (h : Good C pool) : listAt room.pending (C.cell tx) = none ↔
      listAt pool.pending (C.cell tx) = none ∨ pool.Unseats C tx isLocal := by
  cases hroom with
  | free hfree => simp [Unseats, evicted, Nat.not_le.2 hfree]
  | @made d _ hfull _ hd hremove =>
    have hone := fun t => @removeTxs_pending_iff C ord now _ _ (C.poolSender tx)
      (h.setPriced d.1) _ _ hremove tx.accountNonce t
    rw [Room.evicted_eq hfull hd] at hone
    simp only [Option.eq_none_iff_forall_ne_some, ne_eq, Crypto.cell, hone, not_and, Unseats]
    constructor
    · intro hgone
      refine or_iff_not_imp_right.2 fun hseated t ht => hgone t ht fun m x hm hx hmem => ?_
      exact hseated ⟨m, x, hm, hx, hmem⟩
    · rintro (hnone | ⟨n, x, hn, hx, hmem⟩) t ht hstays
      · exact hnone t ht
      · exact hstays n x hn hx hmem

/-! ## An accepted transaction -/

variable {old : Transaction}

theorem requeue_swapAll_journal :
    ((pool.swapAll C ord old tx).requeue C now tx).journal = pool.journal := by
  simp only [requeue, setQueue, firstBeat, swapAll, allAdd, pricedRemoved, forgetAll]

theorem requeue_allAdd_journal : ((pool.allAdd C tx).requeue C now tx).journal = pool.journal := by
  simp only [requeue, setQueue, firstBeat, allAdd]

theorem replaced_locals {l : TxList} :
    (pool.replaced C ord now l old tx).locals = pool.locals := by
  simp only [replaced, journalTx, setPending, swapAll, allAdd, pricedRemoved, forgetAll]

theorem replaced_journal {l : TxList} :
    (pool.replaced C ord now l old tx).journal =
      if AccountSet.contains pool.locals (C.poolSender tx) then pool.journal.map (· ++ [tx])
      else pool.journal := by
  simp only [replaced, journalTx, setPending, swapAll, allAdd, pricedRemoved, forgetAll]
  rfl

/-- A transaction that has been accepted as local is marked and journalled, unless it has taken the
    place of a pending one. -/
theorem Inserted.marks_iff {r : TxPool × Except TxError Bool} {replaced : Bool}
    (hr : Inserted C ord now true pool tx r) (hok : r.2 = .ok replaced) :
    (AccountSet.contains r.1.locals (C.poolSender tx) = true ∧
        ∀ j, pool.journal = some j → r.1.journal = some (j ++ [tx])) ↔
      AccountSet.contains pool.locals (C.poolSender tx) = true ∨
        listAt pool.pending (C.cell tx) = none := by
  -- what is settled is marked and journalled
  have hsettled : ∀ p : TxPool, p.journal = pool.journal →
      AccountSet.contains (p.settle C true tx).locals (C.poolSender tx) = true ∧
        ∀ j, pool.journal = some j → (p.settle C true tx).journal = some (j ++ [tx]) := by
    intro p hp
    have hmark : AccountSet.contains (p.markLocal (C.poolSender tx) true).locals
        (C.poolSender tx) = true := (contains_markLocal p true _).2 (Or.inr ⟨rfl, rfl⟩)
    refine ⟨hmark, fun j hj => ?_⟩
    rw [settle, journalTx, if_pos hmark]
    show p.journal.map _ = _
    rw [hp, hj]
    rfl
  cases hr with
  | pendingKept => cases hok
  | @pendingReplaced l old hl hold hkeep =>
    have hpending : listAt pool.pending (C.cell tx) = some old :=
      (listAt_of_lookup hl _).trans hold
    rw [replaced_locals, replaced_journal]
    simp only [hpending, reduceCtorEq, or_false]
    refine ⟨fun h => h.1, fun hlocal => ⟨hlocal, fun j hj => ?_⟩⟩
    rw [if_pos hlocal, hj]
    rfl
  | queuedKept => cases hok
  | queuedReplaced hpending =>
    exact iff_of_true (hsettled _ requeue_swapAll_journal) (Or.inr hpending)
  | queued hpending => exact iff_of_true (hsettled _ requeue_allAdd_journal) (Or.inr hpending)

/-- **Local submission.**  For a pool with locals, reached in any way, and a transaction that
    `AddLocal` accepts: the sender is local afterwards, its transactions are spared from then on,
    and the transaction is in the journal of a pool that has one, exactly if the sender was local
    before, or had no pending transaction with this nonce, or loses it to make room. -/
theorem addLocal_marks_iff (C : Crypto) (config : TxPoolConfig) (statedb : StateView)
    (events : List Event) (pool pool' : TxPool) (ord : RangeOrder) (now : ℤ) (tx : Transaction)
    (dirty : Option AccountSet) (hlocals : config.noLocals = false)
    (hrun : runEvents C (newTxPool config statedb) events = some pool)
    (hadd : pool.addLocals C ord now [tx] = some (pool', [none], dirty)) :
    (AccountSet.contains pool'.locals (C.poolSender tx) = true ∧
      (∀ later pool'', runEvents C pool' later = some pool'' →
        AccountSet.contains pool''.locals (C.poolSender tx) = true ∧
          Spared C pool'' (C.poolSender tx)) ∧
      ∀ j, pool.journal = some j → pool'.journal = some (j ++ [tx])) ↔
    AccountSet.contains pool.locals (C.poolSender tx) = true ∨
      listAt pool.pending (C.cell tx) = none ∨ pool.Unseats C tx true := by
  obtain ⟨hgood, hfixed⟩ := runEvents_good hrun
  have hnoLocals : pool.config.noLocals = false := by
    rw [hfixed.config]
    exact hlocals
  rw [addLocals, hnoLocals, Bool.not_false] at hadd
  obtain ⟨-, replaced, hadd, -⟩ := added_of_addTxs hadd
  have hslots : 1 ≤ pool'.config.accountSlots.toNat := by
    rw [(add_keeps hgood hadd).2.same.config]
    exact hfixed.one_le_accountSlots
  have hgood' := (add_keeps hgood hadd).1.toGood
  have hlater : AccountSet.contains pool'.locals (C.poolSender tx) = true →
      ∀ later pool'', runEvents C pool' later = some pool'' →
        AccountSet.contains pool''.locals (C.poolSender tx) = true ∧
          Spared C pool'' (C.poolSender tx) := by
    intro hlocal later pool'' hr
    obtain ⟨hg'', hfixed''⟩ := runEvents_keeps hgood' hslots hr
    have hstill := hg''.history.contains hlocal
    exact ⟨hstill, spared_of_local hg''.toGood (hfixed''.config ▸ hslots) hstill⟩
  cases add_added hgood hadd with
  | inserted _ _ hroom hins =>
    have hmarks := hins.marks_iff rfl
    rw [hroom.journal hgood, hroom.locals hgood, hroom.vacant_iff hgood] at hmarks
    rw [← hmarks]
    exact ⟨fun h => ⟨h.1, h.2.2⟩, fun h => ⟨h.1, hlater h.1, h.2⟩⟩

end TxPool

namespace Concrete

open TxPool

/-- A transaction from the network becomes pending. -/
def strangerEvents : List Event :=
  [poolEvent (.addRemotes [payAt 1 7 0]),
    poolEvent (.runReorg none (some (AccountSet.add ∅ (crypto.poolSender (payAt 1 7 0)))))]

def strangerPool : TxPool := (runEvents crypto freshPool strangerEvents).get (by decide +kernel)

/-- Its owner replaces it through `AddLocal`, which succeeds: the account is not local, and the
    journal is empty. -/
theorem replacement_not_marked :
    (runEvents crypto freshPool strangerEvents).isSome ∧
      (strangerPool.addLocals crypto rangeOrder 0 [payAt 2 7 0]).map
          (fun r => (r.2.1, AccountSet.contains r.1.locals (crypto.poolSender (payAt 2 7 0)),
            r.1.journal, listAt r.1.pending (crypto.cell (payAt 2 7 0)))) =
        some ([none], false, some [], some (payAt 2 7 0)) := by
  decide +kernel

def submittedLocal : TxPool × List (Option TxError) × Option AccountSet :=
  (freshPool.addLocals crypto rangeOrder 0 [payAt 1 7 0]).get (by decide +kernel)

/-- A transaction that is queued is marked, journalled and spared. -/
theorem submittedLocal_marked : ∃ pool' dirty,
    freshPool.addLocals crypto rangeOrder 0 [payAt 1 7 0] = some (pool', [none], dirty) ∧
      AccountSet.contains pool'.locals (crypto.poolSender (payAt 1 7 0)) = true ∧
      pool'.journal = some [payAt 1 7 0] ∧
      Spared crypto pool' (crypto.poolSender (payAt 1 7 0)) := by
  have hadd : freshPool.addLocals crypto rangeOrder 0 [payAt 1 7 0] = some submittedLocal :=
    (Option.some_get _).symm
  have herrs : submittedLocal.2.1 = [none] := by decide +kernel
  have hsome : freshPool.addLocals crypto rangeOrder 0 [payAt 1 7 0] =
      some (submittedLocal.1, [none], submittedLocal.2.2) := hadd.trans (by rw [← herrs])
  have hrun : runEvents crypto freshPool [] = some freshPool := rfl
  have hvacant : listAt freshPool.pending (crypto.cell (payAt 1 7 0)) = none := rfl
  have hmarks := addLocal_marks_iff crypto defaultTxPoolConfig (uniformState 0 100) [] freshPool
    submittedLocal.1 rangeOrder 0 (payAt 1 7 0) submittedLocal.2.2 rfl hrun hsome
  obtain ⟨hlocal, hlater, hjournal⟩ := hmarks.2 (Or.inr (Or.inl hvacant))
  exact ⟨_, _, hsome, hlocal, hjournal [] rfl, (hlater [] _ rfl).2⟩

end Concrete

end Benzene
