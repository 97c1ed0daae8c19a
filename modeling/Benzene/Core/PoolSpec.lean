import Benzene.Core.PoolRemoval

/-!
# Admission

What `add` does to a pool in which nothing is held: `insertTx_inserted` and `add_added` list the
outcomes.  From them follows that admission in batches and `SetGasPrice` keep `Good`, and which
transactions enter the books.
-/

namespace Benzene.TxPool

open Books

variable {C : Crypto} {ord : RangeOrder} {now : ℤ} {pool pool' : TxPool} {tx old : Transaction}
  {a : Address} {l : TxList} {isLocal : Bool} {r : TxPool × Except TxError Bool}
  {txs : List Transaction}

/-! ## Insertion -/

/-- A transaction that is in no list and not in the table enters the table. -/
theorem Sound.allAdd (h : Sound C pool []) (hget : pool.all.get (C.txHash tx) = none)
    (hpending : listAt pool.pending (C.cell tx) = none)
    (hqueue : listAt pool.queue (C.cell tx) = none) : Sound C (pool.allAdd C tx) [tx] where
  shelved := h.shelved.hold hget hpending hqueue (by simp) (TxLookup.get_add _ _)
  tallied := h.tallied.add hget
  pending_strict := h.pending_strict
  queue_strict := h.queue_strict

/-- An older transaction leaves the table and a newer one enters it. -/
def swapAll (C : Crypto) (ord : RangeOrder) (pool : TxPool) (old tx : Transaction) : TxPool :=
  ((pool.forgetAll C [old]).pricedRemoved ord 1).allAdd C tx

@[simp] theorem swapAll_pending : (pool.swapAll C ord old tx).pending = pool.pending := rfl

theorem replaceOld_some (hold : pool.all.get (C.txHash old) = some old) :
    pool.replaceOld C ord (some old) =
      some ((pool.forgetAll C [old]).pricedRemoved ord 1) := by
  simp only [replaceOld, allRemove_eq hold, Option.bind_eq_bind, Option.bind_some]

theorem get_swapAll (hash : Hash) :
    (pool.swapAll C ord old tx).all.get hash = if hash = C.txHash tx then some tx
      else if hash = C.txHash old then none else pool.all.get hash := by
  show ((pool.all.drop C old).add C tx).get hash = _
  rw [TxLookup.get_add, TxLookup.get_drop]

theorem tallied_swapAll (h : pool.all.Tallied) (hold : pool.all.get (C.txHash old) = some old)
    (hget : pool.all.get (C.txHash tx) = none) : (pool.swapAll C ord old tx).all.Tallied := by
  refine (h.drop hold).add ?_
  rw [TxLookup.get_drop, hget, ite_self]

/-- The outcomes of `enqueueTx` on a transaction that is not in the table. -/
theorem enqueueTx_new (ord : RangeOrder) (now : ℤ) (h : Sound C pool [])
    (hget : pool.all.get (C.txHash tx) = none) :
    (listAt pool.queue (C.cell tx) = none ∧
        pool.enqueueTx C ord now (C.txHash tx) tx =
          some ((pool.allAdd C tx).requeue C now tx, .ok false)) ∨
      ∃ old l, pool.queue.lookup (C.poolSender tx) = some l ∧ l.get tx.accountNonce = some old ∧
        pool.enqueueTx C ord now (C.txHash tx) tx =
          if TxList.keepsOld old tx pool.config.priceBump then
            some (pool.setQueue (C.poolSender tx) l, .error .replaceUnderpriced)
          else some ((pool.swapAll C ord old tx).requeue C now tx, .ok true) := by
  cases hold : listAt pool.queue (C.cell tx) with
  | none =>
    refine Or.inl ⟨rfl, ?_⟩
    simp only [enqueueTx_of_free ord now hold, allAddIfNew, hget, Option.isNone_none, if_true]
  | some old =>
    obtain ⟨l, hl, hlold⟩ := listAt_eq_some.1 hold
    refine Or.inr ⟨old, l, hl, hlold, ?_⟩
    have hold' : pool.all.get (C.txHash old) = some old := h.get_of_queued hold
    have hset : (pool.setQueue (C.poolSender tx) (l.put tx)).all.get (C.txHash old) = some old :=
      hold'
    have hl' : pool.queue.lookup (C.poolSender tx) = some l := hl
    simp only [enqueueTx, hl', Option.getD_some]
    by_cases hkeep : TxList.keepsOld old tx pool.config.priceBump
    · rw [TxList.add_of_some hlold, if_pos hkeep, if_pos hkeep]
      rfl
    · have hnew : (((pool.setQueue (C.poolSender tx) (l.put tx)).forgetAll C [old]).pricedRemoved
          ord 1).all.get (C.txHash tx) = none := by
        show (pool.all.drop C old).get (C.txHash tx) = none
        rw [TxLookup.get_drop, hget, ite_self]
      rw [TxList.add_of_some hlold, if_neg hkeep, if_neg hkeep]
      simp only [Bool.not_true, Bool.false_eq_true, if_false, replaceOld_some hset,
        Option.bind_eq_bind, Option.bind_some, allAddIfNew, hnew, Option.isNone_none, if_true,
        requeue, swapAll]
      have hsame : (((pool.forgetAll C [old]).pricedRemoved ord 1).allAdd C tx).queue.lookup
          (C.poolSender tx) = some l := hl
      rw [hsame]
      rfl

theorem Good.allAdd_requeue (h : Good C pool) (hget : pool.all.get (C.txHash tx) = none)
    (hpending : listAt pool.pending (C.cell tx) = none)
    (hqueue : listAt pool.queue (C.cell tx) = none) :
    Good C ((pool.allAdd C tx).requeue C now tx) :=
  ⟨(h.sound.allAdd hget hpending hqueue).requeue,
    (h.tidy.congr rfl rfl rfl : Tidy (pool.allAdd C tx) none none).requeue⟩

theorem Good.swapAll_requeue (h : Good C pool) (hget : pool.all.get (C.txHash tx) = none)
    (hl : pool.queue.lookup (C.poolSender tx) = some l)
    (hold : l.get tx.accountNonce = some old) :
    Good C ((pool.swapAll C ord old tx).requeue C now tx) := by
  have hat : listAt pool.queue (C.cell tx) = some old := (listAt_of_lookup hl _).trans hold
  have htidy : Tidy (pool.swapAll C ord old tx) none none := h.tidy.congr rfl rfl rfl
  refine ⟨⟨(h.sound.shelved.swap.replace hat hget (listAt_insert_put pool.queue tx false)
      get_swapAll).swap, tallied_swapAll h.sound.tallied (h.sound.get_of_queued hat) hget,
    fun hb => ?_, strict_of_lookup_insert_put h.sound.queue_strict⟩, htidy.requeue⟩
  rw [requeue_pending, swapAll_pending] at hb
  exact h.sound.pending_strict hb

/-- A pending transaction is replaced by a better one. -/
def replaced (C : Crypto) (ord : RangeOrder) (now : ℤ) (pool : TxPool) (l : TxList)
    (old tx : Transaction) : TxPool :=
  { ((pool.swapAll C ord old tx).setPending (C.poolSender tx) (l.put tx)).journalTx
      (C.poolSender tx) tx with
    beats := pool.beats.insert (C.poolSender tx) now }

theorem replaced_pending : (pool.replaced C ord now l old tx).pending =
    pool.pending.insert (C.poolSender tx) (l.put tx) := rfl

@[simp] theorem replaced_queue : (pool.replaced C ord now l old tx).queue = pool.queue := by
  simp only [replaced, journalTx, TxPool.setPending, swapAll, allAdd, pricedRemoved, forgetAll]

@[simp] theorem replaced_all : (pool.replaced C ord now l old tx).all =
    (pool.swapAll C ord old tx).all := by
  simp only [replaced, journalTx, TxPool.setPending]

theorem replacePending_eq (h : Sound C pool [])
    (hl : pool.pending.lookup (C.poolSender tx) = some l)
    (hold : l.get tx.accountNonce = some old) :
    pool.replacePending C ord now (C.poolSender tx) l tx =
      if TxList.keepsOld old tx pool.config.priceBump then
        some (pool.setPending (C.poolSender tx) l, .error .replaceUnderpriced)
      else some (pool.replaced C ord now l old tx, .ok true) := by
  have hold' : (pool.setPending (C.poolSender tx) (l.put tx)).all.get (C.txHash old) = some old :=
    h.get_of_pending ((listAt_of_lookup hl _).trans hold)
  simp only [replacePending]
  by_cases hkeep : TxList.keepsOld old tx pool.config.priceBump
  · rw [TxList.add_of_some hold, if_pos hkeep, if_pos hkeep]
    rfl
  · rw [TxList.add_of_some hold, if_neg hkeep, if_neg hkeep]
    simp only [Bool.not_true, Bool.false_eq_true, if_false, replaceOld_some hold',
      Option.bind_eq_bind, Option.bind_some]
    rfl

theorem Good.replaced (h : Good C pool) (hget : pool.all.get (C.txHash tx) = none)
    (hl : pool.pending.lookup (C.poolSender tx) = some l)
    (hold : l.get tx.accountNonce = some old) : Good C (pool.replaced C ord now l old tx) := by
  have hat : listAt pool.pending (C.cell tx) = some old := (listAt_of_lookup hl _).trans hold
  refine ⟨⟨?_, ?_, ?_, fun hb => ?_⟩, ⟨?_, fun hb => ?_, fun hb => ?_⟩⟩
  any_goals rw [replaced_queue] at hb
  · have hput := listAt_insert_put (C := C) pool.pending tx true
    rw [hl, Option.getD_some] at hput
    rw [replaced_pending, replaced_queue, replaced_all]
    exact h.sound.shelved.replace hat hget hput get_swapAll
  · rw [replaced_all]
    exact tallied_swapAll h.sound.tallied (h.sound.get_of_pending hat) hget
  · exact GoMap.forall_insert h.sound.pending_strict
      ((TxList.strict_put tx).trans (h.sound.pending_strict hl))
  · exact h.sound.queue_strict hb
  · exact GoMap.forall_insert h.tidy.pending_ne fun _ => len_put_ne_zero l tx
  · exact h.tidy.queue_ne hb
  · exact h.tidy.beats_insert hb _ now

/-- The account of a local transaction is marked and the transaction goes to the journal. -/
def settle (C : Crypto) (isLocal : Bool) (pool : TxPool) (tx : Transaction) : TxPool :=
  (pool.markLocal (C.poolSender tx) isLocal).journalTx (C.poolSender tx) tx

theorem Good.settle (h : Good C pool) (isLocal : Bool) : Good C (pool.settle C isLocal tx) :=
  ⟨h.sound.congr rfl rfl rfl, h.tidy.congr rfl rfl rfl⟩

/-- The outcomes of the second half of `add`. -/
inductive Inserted (C : Crypto) (ord : RangeOrder) (now : ℤ) (isLocal : Bool) (pool : TxPool)
    (tx : Transaction) : TxPool × Except TxError Bool → Prop
  /-- A pending transaction keeps its place. -/
  | pendingKept {l : TxList} {old : Transaction}
      (hl : pool.pending.lookup (C.poolSender tx) = some l)
      (hold : l.get tx.accountNonce = some old)
      (hkeep : TxList.keepsOld old tx pool.config.priceBump = true) :
      Inserted C ord now isLocal pool tx
        (pool.setPending (C.poolSender tx) l, .error .replaceUnderpriced)
  /-- A pending transaction is replaced. -/
  | pendingReplaced {l : TxList} {old : Transaction}
      (hl : pool.pending.lookup (C.poolSender tx) = some l)
      (hold : l.get tx.accountNonce = some old)
      (hkeep : TxList.keepsOld old tx pool.config.priceBump = false) :
      Inserted C ord now isLocal pool tx (pool.replaced C ord now l old tx, .ok true)
  /-- A queued transaction keeps its place. -/
  | queuedKept {l : TxList} {old : Transaction}
      (hpending : listAt pool.pending (C.cell tx) = none)
      (hl : pool.queue.lookup (C.poolSender tx) = some l)
      (hold : l.get tx.accountNonce = some old)
      (hkeep : TxList.keepsOld old tx pool.config.priceBump = true) :
      Inserted C ord now isLocal pool tx
        (pool.setQueue (C.poolSender tx) l, .error .replaceUnderpriced)
  /-- A queued transaction is replaced. -/
  | queuedReplaced {l : TxList} {old : Transaction}
      (hpending : listAt pool.pending (C.cell tx) = none)
      (hl : pool.queue.lookup (C.poolSender tx) = some l)
      (hold : l.get tx.accountNonce = some old)
      (hkeep : TxList.keepsOld old tx pool.config.priceBump = false) :
      Inserted C ord now isLocal pool tx
        (((pool.swapAll C ord old tx).requeue C now tx).settle C isLocal tx, .ok true)
  /-- The nonce is new. -/
  | queued (hpending : listAt pool.pending (C.cell tx) = none)
      (hqueue : listAt pool.queue (C.cell tx) = none) :
      Inserted C ord now isLocal pool tx
        (((pool.allAdd C tx).requeue C now tx).settle C isLocal tx, .ok false)

theorem insertTx_inserted (ord : RangeOrder) (now : ℤ) (isLocal : Bool) (h : Sound C pool [])
    (hget : pool.all.get (C.txHash tx) = none) :
    ∃ r, pool.insertTx C ord now tx isLocal = some r ∧
      Inserted C ord now isLocal pool tx r := by
  -- the transaction is not pending: it goes to the queue
  have hnew : listAt pool.pending (C.cell tx) = none →
      ∃ r, pool.enqueueNew C ord now (C.poolSender tx) tx isLocal = some r ∧
        Inserted C ord now isLocal pool tx r := by
    intro hpending
    rcases enqueueTx_new ord now h hget with ⟨hqueue, heq⟩ | ⟨old, l, hl, hold, heq⟩
    · refine ⟨_, ?_, .queued hpending hqueue⟩
      simp only [enqueueNew, heq, Option.bind_eq_bind, Option.bind_some]
      rfl
    · by_cases hkeep : TxList.keepsOld old tx pool.config.priceBump
      · rw [if_pos hkeep] at heq
        refine ⟨_, ?_, .queuedKept hpending hl hold hkeep⟩
        simp only [enqueueNew, heq, Option.bind_eq_bind, Option.bind_some]
      · rw [if_neg hkeep] at heq
        refine ⟨_, ?_, .queuedReplaced hpending hl hold (by simpa using hkeep)⟩
        simp only [enqueueNew, heq, Option.bind_eq_bind, Option.bind_some]
        rfl
  simp only [insertTx]
  cases hl : pool.pending.lookup (C.poolSender tx) with
  | none => exact hnew (by simp [listAt, Crypto.cell, hl])
  | some l =>
    cases hold : l.get tx.accountNonce with
    | none =>
      simp only [TxList.overlaps, hold, Option.isSome_none, Bool.false_eq_true, if_false]
      exact hnew ((listAt_of_lookup hl _).trans hold)
    | some old =>
      simp only [TxList.overlaps, hold, Option.isSome_some, if_true, replacePending_eq h hl hold]
      by_cases hkeep : TxList.keepsOld old tx pool.config.priceBump
      · rw [if_pos hkeep]
        exact ⟨_, rfl, .pendingKept hl hold hkeep⟩
      · rw [if_neg hkeep]
        exact ⟨_, rfl, .pendingReplaced hl hold (by simpa using hkeep)⟩

theorem Inserted.good (hr : Inserted C ord now isLocal pool tx r) (h : Good C pool)
    (hget : pool.all.get (C.txHash tx) = none) : Good C r.1 := by
  cases hr with
  | pendingKept hl hold _ =>
    exact ⟨h.sound.setPending hl (TxList.Drops.refl _),
      h.tidy.setPending_of_ne (TxList.len_ne_zero_of_get hold)⟩
  | pendingReplaced hl hold _ => exact h.replaced hget hl hold
  | queuedKept _ hl hold _ =>
    exact ⟨h.sound.setQueue hl (TxList.Drops.refl _),
      h.tidy.setQueue_of_ne hl (TxList.len_ne_zero_of_get hold)⟩
  | queuedReplaced _ hl hold _ => exact (h.swapAll_requeue hget hl hold).settle isLocal
  | queued hpending hqueue => exact (h.allAdd_requeue hget hpending hqueue).settle isLocal

/-- What the heap makes of a transaction that finds the pool full: the heap, and whether the
    transaction is refused. -/
def quote (C : Crypto) (pool : TxPool) (tx : Transaction) (isLocal : Bool) :
    TxPricedList × Bool :=
  if isLocal then (pool.priced, false) else pool.priced.underpriced C pool.all pool.locals tx

/-- What a full pool gives up for a transaction. -/
def giveUp (C : Crypto) (pool : TxPool) (tx : Transaction) (isLocal : Bool) :
    Option (TxPricedList × List Transaction) :=
  (pool.quote C tx isLocal).1.discard C pool.all pool.locals
    (pool.all.slots - goInt pool.globalLimit + numSlots tx)

/-- The outcomes of `makeRoom`. -/
inductive Room (C : Crypto) (ord : RangeOrder) (now : ℤ) (isLocal : Bool) (pool : TxPool)
    (tx : Transaction) : TxPool × Bool → Prop
  /-- The pool is not full. -/
  | free (hfree : pool.all.count < pool.globalLimit.toNat) :
      Room C ord now isLocal pool tx (pool, true)
  /-- The transaction is underpriced. -/
  | refused (hfull : pool.globalLimit.toNat ≤ pool.all.count)
      (hquote : (pool.quote C tx isLocal).2 = true) :
      Room C ord now isLocal pool tx
        ({ pool with priced := (pool.quote C tx isLocal).1 }, false)
  /-- Cheaper transactions are dropped. -/
  | made {d : TxPricedList × List Transaction} {pool' : TxPool}
      (hfull : pool.globalLimit.toNat ≤ pool.all.count)
      (hquote : (pool.quote C tx isLocal).2 = false) (hd : pool.giveUp C tx isLocal = some d)
      (hremove : removeTxs C ord now false { pool with priced := d.1 } d.2 = some pool') :
      Room C ord now isLocal pool tx (pool', true)

theorem makeRoom_eq : pool.makeRoom C ord now tx isLocal =
    if pool.globalLimit.toNat ≤ pool.all.count then
      if (pool.quote C tx isLocal).2 then
        some ({ pool with priced := (pool.quote C tx isLocal).1 }, false)
      else (pool.giveUp C tx isLocal).bind fun d =>
        (removeTxs C ord now false { pool with priced := d.1 } d.2).map (·, true)
    else some (pool, true) := by
  simp only [makeRoom, Option.bind_eq_bind, Option.map_eq_bind]
  rfl

theorem makeRoom_room {r : TxPool × Bool} (hr : pool.makeRoom C ord now tx isLocal = some r) :
    Room C ord now isLocal pool tx r := by
  rw [makeRoom_eq] at hr
  split_ifs at hr with hfull hquote
  · obtain rfl := Option.some.inj hr
    exact .refused hfull hquote
  · obtain ⟨d, hd, hr⟩ := Option.bind_eq_some_iff.1 hr
    obtain ⟨pool', hremove, rfl⟩ := Option.map_eq_some_iff.1 hr
    exact .made hfull (by simpa using hquote) hd hremove
  · obtain rfl := Option.some.inj hr
    exact .free (Nat.not_le.1 hfull)

theorem Good.setPriced (h : Good C pool) (priced : TxPricedList) :
    Good C { pool with priced := priced } :=
  ⟨h.sound.congr rfl rfl rfl, h.tidy.congr rfl rfl rfl⟩

theorem quote_history : History C [] pool.books
    { pool.books with priced := (pool.quote C tx isLocal).1 } := by
  unfold quote
  split_ifs
  · exact .refl _
  · have hact : Act C [] pool.books { pool.books with
        priced := (pool.priced.underpriced C pool.all pool.locals tx).1 } :=
      Act.swept TxPricedList.underpriced_swept.1 TxPricedList.underpriced_swept.2
    exact hact.history

theorem Room.keeps {r : TxPool × Bool} (hr : Room C ord now isLocal pool tx r) (h : Good C pool) :
    Kept C [] pool r.1 ∧ Shortens pool r.1 ∧ ∀ k, pool.all.get k = none → r.1.all.get k = none := by
  have hshort : ∀ priced : TxPricedList, Shortens pool { pool with priced := priced } :=
    fun priced => Same.shortens ⟨rfl, rfl, rfl⟩ (fun _ => rfl) rfl
  cases hr with
  | free => exact ⟨.refl h, Shortens.refl _, fun _ => id⟩
  | refused => exact ⟨⟨h.setPriced _, quote_history⟩, hshort _, fun _ => id⟩
  | @made d pool' _ _ hd hremove =>
    obtain ⟨pool₁, heq, hg, hsame, hbooks⟩ := removeTxs_keeps ord now (h.setPriced d.1) d.2 false
    obtain rfl : pool₁ = pool' := Option.some.inj (heq.symm.trans hremove)
    obtain ⟨hswept, ho⟩ := TxPricedList.discard_swept hd
    have hact : Act C [] { pool.books with priced := (pool.quote C tx isLocal).1 } pool₁.books :=
      hbooks ▸ Act.swept hswept ho
    refine ⟨⟨hg, quote_history.quiet hact.history⟩, (hshort d.1).trans hsame, fun k hk => ?_⟩
    have hall : pool₁.all = pool.all.expunge C d.2 := congrArg Books.all hbooks
    rw [hall, TxLookup.get_expunge, hk, ite_self]

/-! ## Admission -/

/-- The outcomes of `add`. -/
inductive Added (C : Crypto) (ord : RangeOrder) (now : ℤ) (isLocal : Bool) (pool : TxPool)
    (tx : Transaction) : TxPool × Except TxError Bool → Prop
  | known (hget : (pool.all.get (C.txHash tx)).isSome) :
      Added C ord now isLocal pool tx (pool, .error .alreadyKnown)
  | invalid {err : TxError} (hget : pool.all.get (C.txHash tx) = none)
      (hvalid : pool.validateTx C tx isLocal = .error err) :
      Added C ord now isLocal pool tx (pool, .error err)
  | refused {room : TxPool} (hget : pool.all.get (C.txHash tx) = none)
      (hvalid : pool.validateTx C tx isLocal = .ok ())
      (hroom : Room C ord now isLocal pool tx (room, false)) :
      Added C ord now isLocal pool tx (room, .error .underpriced)
  | inserted {room : TxPool} {r : TxPool × Except TxError Bool}
      (hget : pool.all.get (C.txHash tx) = none)
      (hvalid : pool.validateTx C tx isLocal = .ok ())
      (hroom : Room C ord now isLocal pool tx (room, true))
      (hins : Inserted C ord now isLocal room tx r) : Added C ord now isLocal pool tx r

theorem add_added (h : Good C pool) (hr : pool.add C ord now tx isLocal = some r) :
    Added C ord now isLocal pool tx r := by
  simp only [add] at hr
  split_ifs at hr with hknown
  · obtain rfl := Option.some.inj hr
    exact .known hknown
  · have hget : pool.all.get (C.txHash tx) = none := by simpa using hknown
    cases hvalid : pool.validateTx C tx isLocal with
    | error err =>
      rw [hvalid] at hr
      obtain rfl := Option.some.inj hr
      exact .invalid hget hvalid
    | ok u =>
      rw [hvalid] at hr
      obtain ⟨⟨room, fits⟩, hmake, hr⟩ := Option.bind_eq_some_iff.1 hr
      have hroom := makeRoom_room hmake
      cases fits with
      | false =>
        obtain rfl := Option.some.inj hr
        exact .refused hget hvalid hroom
      | true =>
        obtain ⟨hg, -, hnone⟩ := hroom.keeps h
        obtain ⟨r', heq, hins⟩ := insertTx_inserted ord now isLocal hg.sound (hnone _ hget)
        obtain rfl : r' = r := Option.some.inj (heq.symm.trans hr)
        exact .inserted hget hvalid hroom hins

theorem Inserted.same (hr : Inserted C ord now isLocal pool tx r) : Same pool r.1 := by
  cases hr <;> constructor <;> simp only [TxPool.setPending, TxPool.setQueue, TxPool.replaced,
    TxPool.settle, markLocal, journalTx, swapAll, allAdd, pricedRemoved, forgetAll,
    TxPool.requeue, firstBeat]

theorem Inserted.pendingNonces (hr : Inserted C ord now isLocal pool tx r) :
    r.1.pendingNonces = pool.pendingNonces := by
  cases hr <;> simp only [TxPool.setPending, TxPool.setQueue, TxPool.replaced, TxPool.settle,
    markLocal, journalTx, swapAll, allAdd, pricedRemoved, forgetAll, TxPool.requeue, firstBeat]

@[simp] theorem settle_pending (isLocal : Bool) :
    (pool.settle C isLocal tx).pending = pool.pending := rfl

@[simp] theorem settle_all (isLocal : Bool) : (pool.settle C isLocal tx).all = pool.all := rfl

/-- A transaction that takes a place in the pending lists takes that of another. -/
theorem Inserted.nonces (hr : Inserted C ord now isLocal pool tx r) (a : Address) :
    (r.1.view a).nonces = (pool.view a).nonces := by
  cases hr with
  | pendingKept hl hold _ =>
    ext k
    simp only [AccountView.nonces, view, Set.mem_ofPred_eq, TxPool.setPending, listAt_insert]
    by_cases ha : a = C.poolSender tx
    · simp only [ha, if_true, listAt_of_lookup hl]
    · simp only [ha, if_false]
  | @pendingReplaced l old hl hold _ =>
    ext k
    simp only [AccountView.nonces, view, Set.mem_ofPred_eq, replaced_pending, listAt_insert]
    by_cases ha : a = C.poolSender tx
    · simp only [ha, if_true, listAt_of_lookup hl, TxList.get_put]
      refine exists_congr fun n => ?_
      by_cases hn : n = tx.accountNonce
      · simp [hn, hold]
      · simp [hn]
    · simp only [ha, if_false]
  | queuedKept => simp only [AccountView.nonces, view, TxPool.setQueue]
  | queuedReplaced =>
    simp only [AccountView.nonces, view, settle_pending, requeue_pending, swapAll_pending]
  | queued => simp only [AccountView.nonces, view, settle_pending, requeue_pending, allAdd]

theorem Inserted.shortens (hr : Inserted C ord now isLocal pool tx r) : Shortens pool r.1 :=
  hr.same.shortens hr.nonces hr.pendingNonces

theorem replaced_books {old : Transaction} : (pool.replaced C ord now l old tx).books =
    (pool.swapAll C ord old tx).books := by
  simp only [books, replaced, journalTx, TxPool.setPending]

theorem settle_requeue_books : ((pool.requeue C now tx).settle C isLocal tx).books =
    { pool.books with
      locals :=
        if isLocal then AccountSet.add pool.locals (C.poolSender tx) else pool.locals } := by
  cases isLocal <;>
    simp only [books, TxPool.settle, markLocal, journalTx, TxPool.requeue, TxPool.setQueue,
      firstBeat, Bool.false_eq_true, if_true, if_false]

/-- A transaction that is accepted enters, maybe after another one has left. -/
theorem Inserted.history {r : TxPool × Except TxError Bool}
    (hr : Inserted C ord now isLocal pool tx r) (h : Sound C pool [])
    (hget : pool.all.get (C.txHash tx) = none) :
    History C (if r.2.isOk then [tx] else []) pool.books r.1.books := by
  -- a replacement leaves before the transaction enters
  have hleft : ∀ {old}, pool.all.get (C.txHash old) = some old →
      History C [] pool.books { pool.books with
          all := pool.all.drop C old
          priced := pool.priced.removed ord (pool.all.drop C old) 1 } ∧
        (pool.all.drop C old).get (C.txHash tx) = none := by
    intro old hold
    have hleaves : pool.books.all.Leaves C [old] := ⟨hold, trivial⟩
    refine ⟨(Act.left ord hleaves).history, ?_⟩
    rw [TxLookup.get_drop, hget, ite_self]
  cases hr with
  | pendingKept => exact .refl _
  | pendingReplaced hl hold _ =>
    obtain ⟨hist, hnone⟩ := hleft (h.get_of_pending ((listAt_of_lookup hl _).trans hold))
    rw [replaced_books]
    exact hist.loud (Act.entered false hnone).history
  | queuedKept => exact .refl _
  | queuedReplaced _ hl hold _ =>
    obtain ⟨hist, hnone⟩ := hleft (h.get_of_queued ((listAt_of_lookup hl _).trans hold))
    rw [settle_requeue_books]
    exact hist.loud (Act.entered isLocal hnone).history
  | queued =>
    rw [settle_requeue_books]
    exact (Act.entered isLocal hget).history

theorem add_keeps (h : Good C pool) (hr : pool.add C ord now tx isLocal = some r) :
    Kept C (if r.2.isOk then [tx] else []) pool r.1 ∧ Shortens pool r.1 := by
  cases add_added h hr with
  | known | invalid => exact ⟨.refl h, Shortens.refl _⟩
  | refused _ _ hroom => exact ⟨(hroom.keeps h).1, (hroom.keeps h).2.1⟩
  | inserted hget _ hroom hins =>
    obtain ⟨hg, hshort, hnone⟩ := hroom.keeps h
    exact ⟨hg.trans ⟨hins.good hg.toGood (hnone _ hget), hins.history hg.sound (hnone _ hget)⟩,
      hshort.trans hins.shortens⟩

/-- The transactions of a list that have no error. -/
def admitted : List Transaction → List (Option TxError) → List Transaction
  | tx :: txs, none :: errs => tx :: admitted txs errs
  | _ :: txs, some _ :: errs => admitted txs errs
  | _, _ => []

/-- The transactions that `addTxsLocked` accepts. -/
def admits (C : Crypto) (ord : RangeOrder) (now : ℤ) (pool : TxPool) (txs : List Transaction)
    (isLocal : Bool) : List Transaction :=
  ((pool.addTxsLocked C ord now txs isLocal).map fun r => admitted txs r.2.1).getD []

theorem addTxsLoop_keeps (h : Good C pool) {errs : List (Option TxError)} {dirty : AccountSet}
    {r : TxPool × List (Option TxError) × AccountSet}
    (hr : addTxsLoop C ord now isLocal pool txs errs dirty = some r) :
    ∃ errs', r.2.1 = errs ++ errs' ∧ Kept C (admitted txs errs') pool r.1 ∧ Shortens pool r.1 := by
  induction txs generalizing pool errs dirty with
  | nil =>
    obtain rfl := Option.some.inj hr
    exact ⟨[], by simp, .refl h, Shortens.refl _⟩
  | cons tx txs ih =>
    obtain ⟨⟨pool₁, err | replaced⟩, hadd, hr⟩ := Option.bind_eq_some_iff.1 hr
    all_goals
      obtain ⟨hg, hsame⟩ := add_keeps h hadd
      obtain ⟨errs', heq, hg', hsame'⟩ := ih hg.toGood hr
    · exact ⟨some err :: errs', by simp [heq], hg.trans hg', hsame.trans hsame'⟩
    · exact ⟨none :: errs', by simp [heq], hg.trans hg', hsame.trans hsame'⟩

theorem addTxsLocked_keeps (h : Good C pool) {r : TxPool × List (Option TxError) × AccountSet}
    (hr : pool.addTxsLocked C ord now txs isLocal = some r) :
    Kept C (pool.admits C ord now txs isLocal) pool r.1 ∧ Shortens pool r.1 := by
  obtain ⟨errs, heq, hkept⟩ := addTxsLoop_keeps h hr
  rw [admits, hr, Option.map_some, Option.getD_some, heq]
  exact hkept

theorem addTxs_keeps (h : Good C pool) {r : TxPool × List (Option TxError) × Option AccountSet}
    (hr : pool.addTxs C ord now txs isLocal = some r) :
    Kept C (pool.admits C ord now (txs.filter fun tx => (pool.knownOrInvalid C tx).isNone) isLocal)
      pool r.1 ∧ Shortens pool r.1 := by
  simp only [addTxs] at hr
  split_ifs at hr with hnews
  · obtain rfl := Option.some.inj hr
    rw [List.isEmpty_iff.1 hnews]
    exact ⟨.refl h, Shortens.refl _⟩
  · obtain ⟨r', hr', hr⟩ := Option.bind_eq_some_iff.1 hr
    obtain rfl := Option.some.inj hr
    exact addTxsLocked_keeps h hr'

theorem setGasPrice_returns (ord : RangeOrder) (now : ℤ) (h : Good C pool) (price : ℤ) :
    ∃ pool', pool.setGasPrice C ord now price = some pool' ∧ Good C pool' ∧
      Shortens pool pool' ∧ pool'.books = { pool.books with
        all := pool.all.expunge C (pool.priced.cap C pool.all pool.locals price).2
        priced := (pool.priced.cap C pool.all pool.locals price).1 } := by
  have hpriced : ∀ priced : TxPricedList,
      Good C { pool with gasPrice := price, priced := priced } := fun priced =>
    ⟨h.sound.congr rfl rfl rfl, h.tidy.congr rfl rfl rfl⟩
  obtain ⟨pool', heq, hg, hsame, hbooks⟩ := removeTxs_keeps ord now (hpriced _) _ false
  have hshort : Shortens pool { pool with
      gasPrice := price, priced := (pool.priced.cap C pool.all pool.locals price).1 } :=
    Same.shortens ⟨rfl, rfl, rfl⟩ (fun _ => rfl) rfl
  exact ⟨pool', heq, hg, hshort.trans hsame, hbooks⟩

theorem setGasPrice_keeps (h : Good C pool) {price : ℤ}
    (hr : pool.setGasPrice C ord now price = some pool') :
    Kept C [] pool pool' ∧ Shortens pool pool' := by
  obtain ⟨pool₁, heq, hg, hshort, hbooks⟩ := setGasPrice_returns ord now h price
  obtain rfl : pool₁ = pool' := Option.some.inj (heq.symm.trans hr)
  have hact : Act C [] pool.books pool₁.books :=
    hbooks ▸ Act.swept TxPricedList.cap_swept.1 TxPricedList.cap_swept.2
  exact ⟨⟨hg, hact.history⟩, hshort⟩

/-! ## Results -/

theorem Inserted.get_of_ok {replaced : Bool} (h : Inserted C ord now isLocal pool tx r)
    (hr : r.2 = .ok replaced) : r.1.all.get (C.txHash tx) = some tx := by
  have hswap : ∀ old, (pool.swapAll C ord old tx).all.get (C.txHash tx) = some tx := fun old => by
    rw [get_swapAll, if_pos rfl]
  have hadd : (pool.allAdd C tx).all.get (C.txHash tx) = some tx := by
    simp only [allAdd, TxLookup.add, TxLookup.get, AList.lookup_insert]
  cases h with
  | pendingKept => cases hr
  | pendingReplaced => rw [replaced_all, hswap]
  | queuedKept => cases hr
  | queuedReplaced => rw [settle_all, requeue_all, hswap]
  | queued => rw [settle_all, requeue_all, hadd]

theorem Inserted.all_of_error {err : TxError} (h : Inserted C ord now isLocal pool tx r)
    (hr : r.2 = .error err) : r.1.all = pool.all := by
  cases h with
  | pendingKept => rfl
  | pendingReplaced => cases hr
  | queuedKept => rfl
  | queuedReplaced | queued => cases hr

/-- A transaction that is accepted is in the pool; one that is refused brings nothing into it. -/
theorem add_result (h : Good C pool) (hr : pool.add C ord now tx isLocal = some r) :
    (∀ replaced, r.2 = .ok replaced → r.1.all.get (C.txHash tx) = some tx) ∧
      ∀ err, r.2 = .error err → ∀ k, pool.all.get k = none → r.1.all.get k = none := by
  cases add_added h hr with
  | known | invalid => exact ⟨fun _ hok => (by cases hok), fun _ _ _ => id⟩
  | refused _ _ hroom => exact ⟨fun _ hok => (by cases hok), fun _ _ => (hroom.keeps h).2.2⟩
  | inserted hget _ hroom hins =>
    refine ⟨fun replaced hok => hins.get_of_ok hok, fun err herr k hk => ?_⟩
    rw [hins.all_of_error herr]
    exact (hroom.keeps h).2.2 k hk

/-! ## The results of a batch -/

/-- The error of a result of `add`. -/
def errorOf : Except TxError Bool → Option TxError
  | .error err => some err
  | .ok _ => none

/-- The outcomes of a batch that comes to the pool `start`, one transaction after the other: the
    error of one that is filtered out, and otherwise the result of `add` in the pool at its turn;
    `none` is a panic. -/
def outcomes (C : Crypto) (ord : RangeOrder) (now : ℤ) (isLocal : Bool) (start : TxPool) :
    TxPool → List Transaction → Option (TxPool × List (Option TxError))
  | pool, [] => some (pool, [])
  | pool, tx :: txs =>
    match start.knownOrInvalid C tx with
    | some err => do
      let r ← outcomes C ord now isLocal start pool txs
      some (r.1, some err :: r.2)
    | none => do
      let added ← pool.add C ord now tx isLocal
      let r ← outcomes C ord now isLocal start added.1 txs
      some (r.1, errorOf added.2 :: r.2)

theorem mergeErrs_nil (errs : List (Option TxError)) : mergeErrs errs [] = errs := by
  induction errs with
  | nil => rfl
  | cons err errs ih =>
    cases err with
    | none => rfl
    | some err => rw [mergeErrs, ih]

/-- The results of the new transactions of a batch go to the free slots. -/
theorem addTxsLoop_outcomes (start : TxPool) (txs : List Transaction) (pool : TxPool)
    (errs : List (Option TxError)) (dirty : AccountSet) :
    addTxsLoop C ord now isLocal pool
        (txs.filter fun tx => (start.knownOrInvalid C tx).isNone) errs dirty = none ∧
      outcomes C ord now isLocal start pool txs = none ∨
    ∃ pool' newErrs dirty', addTxsLoop C ord now isLocal pool
        (txs.filter fun tx => (start.knownOrInvalid C tx).isNone) errs dirty =
          some (pool', errs ++ newErrs, dirty') ∧
      outcomes C ord now isLocal start pool txs =
        some (pool', mergeErrs (txs.map (start.knownOrInvalid C)) newErrs) := by
  induction txs generalizing pool errs dirty with
  | nil => exact Or.inr ⟨pool, [], dirty, by simp [addTxsLoop], rfl⟩
  | cons tx txs ih =>
    cases hknown : start.knownOrInvalid C tx with
    | some err =>
      simp only [outcomes, hknown, List.filter_cons, Option.isNone_some, Bool.false_eq_true,
        if_false, List.map_cons, mergeErrs]
      rcases ih pool errs dirty with ⟨hloop, hout⟩ | ⟨pool', newErrs, dirty', hloop, hout⟩
      · exact Or.inl ⟨hloop, by rw [hout]; rfl⟩
      · exact Or.inr ⟨pool', newErrs, dirty', hloop, by rw [hout]; rfl⟩
    | none =>
      simp only [outcomes, hknown, List.filter_cons, Option.isNone_none, if_true, List.map_cons]
      cases hadd : pool.add C ord now tx isLocal with
      | none => exact Or.inl ⟨by simp [addTxsLoop, hadd], rfl⟩
      | some added =>
        -- the accounts to promote depend on the result, the pool and the outcomes do not
        have hcons : ∃ dirty₁, addTxsLoop C ord now isLocal pool (tx :: txs.filter fun tx =>
            (start.knownOrInvalid C tx).isNone) errs dirty = addTxsLoop C ord now isLocal added.1
            (txs.filter fun tx => (start.knownOrInvalid C tx).isNone)
            (errs ++ [errorOf added.2]) dirty₁ := by
          obtain ⟨pool₁, err | replaced⟩ := added <;>
            exact ⟨_, by simp only [addTxsLoop, hadd]; rfl⟩
        obtain ⟨dirty₁, hcons⟩ := hcons
        rw [hcons]
        rcases ih added.1 (errs ++ [errorOf added.2]) dirty₁ with
          ⟨hloop, hout⟩ | ⟨pool', newErrs, dirty', hloop, hout⟩
        · exact Or.inl ⟨hloop, by simp [hout]⟩
        · refine Or.inr ⟨pool', errorOf added.2 :: newErrs, dirty', ?_, by simp [hout, mergeErrs]⟩
          simpa using hloop

/-- A batch returns the outcomes of its transactions. -/
theorem addTxs_outcomes (C : Crypto) (ord : RangeOrder) (now : ℤ) (pool : TxPool)
    (txs : List Transaction) (isLocal : Bool) :
    (pool.addTxs C ord now txs isLocal).map (fun r => (r.1, r.2.1)) =
      outcomes C ord now isLocal pool pool txs := by
  simp only [addTxs, addTxsLocked]
  rcases addTxsLoop_outcomes (C := C) pool txs pool [] ∅ with
    ⟨hloop, hout⟩ | ⟨pool', newErrs, dirty', hloop, hout⟩
  all_goals rw [hout]
  all_goals split_ifs with hnil
  · rw [List.isEmpty_iff.1 hnil] at hloop
    cases hloop
  · rw [hloop]
    rfl
  · rw [List.isEmpty_iff.1 hnil] at hloop
    cases hloop
    rw [mergeErrs_nil]
    rfl
  · rw [hloop]
    rfl

/-- The outcome of the first transaction, and those of the others. -/
theorem of_outcomes_cons {start : TxPool} {r : TxPool × List (Option TxError)}
    (hr : outcomes C ord now isLocal start pool (tx :: txs) = some r) :
    ∃ pool₁ err r', outcomes C ord now isLocal start pool₁ txs = some r' ∧ r.1 = r'.1 ∧
      r.2 = err :: r'.2 ∧ (pool₁ = pool ∧ err.isSome = true ∨ start.knownOrInvalid C tx = none ∧
        ∃ res, pool.add C ord now tx isLocal = some (pool₁, res)) := by
  rw [outcomes] at hr
  split at hr
  · rename_i err hknown
    obtain ⟨r', hr', hr⟩ := Option.bind_eq_some_iff.1 hr
    obtain rfl := Option.some.inj hr
    exact ⟨pool, some err, r', hr', rfl, rfl, Or.inl ⟨rfl, rfl⟩⟩
  · rename_i hknown
    obtain ⟨added, hadd, hr⟩ := Option.bind_eq_some_iff.1 hr
    obtain ⟨r', hr', hr⟩ := Option.bind_eq_some_iff.1 hr
    obtain rfl := Option.some.inj hr
    exact ⟨added.1, _, r', hr', rfl, rfl, Or.inr ⟨hknown, added.2, hadd⟩⟩

/-- A pool returns one result for each transaction. -/
theorem length_outcomes {start : TxPool} {r : TxPool × List (Option TxError)}
    (hr : outcomes C ord now isLocal start pool txs = some r) : r.2.length = txs.length := by
  induction txs generalizing pool r with
  | nil => exact Option.some.inj hr ▸ rfl
  | cons tx txs ih =>
    obtain ⟨pool₁, err, r', hr', -, herrs, -⟩ := of_outcomes_cons hr
    rw [herrs, List.length_cons, ih hr', List.length_cons]

theorem outcomes_of_addTxs {r : TxPool × List (Option TxError) × Option AccountSet}
    (hr : pool.addTxs C ord now txs isLocal = some r) :
    outcomes C ord now isLocal pool pool txs = some (r.1, r.2.1) := by
  rw [← addTxs_outcomes, hr]
  rfl

theorem length_addTxs {r : TxPool × List (Option TxError) × Option AccountSet}
    (hr : pool.addTxs C ord now txs isLocal = some r) : r.2.1.length = txs.length :=
  length_outcomes (outcomes_of_addTxs hr)

/-- The batch returns, and entry by entry the outcome of its transaction. -/
def LinesUp (C : Crypto) (ord : RangeOrder) (now : ℤ) (pool : TxPool) (txs : List Transaction)
    (isLocal : Bool) : Prop :=
  ∃ pool' errs dirty, pool.addTxs C ord now txs isLocal = some (pool', errs, dirty) ∧
    errs.length = txs.length ∧ outcomes C ord now isLocal pool pool txs = some (pool', errs)

/-- A single transaction is filtered out, or `add` decides. -/
theorem addTxs_singleton (C : Crypto) (ord : RangeOrder) (now : ℤ) (pool : TxPool)
    (tx : Transaction) (isLocal : Bool) :
    pool.addTxs C ord now [tx] isLocal =
      match pool.knownOrInvalid C tx with
      | some err => some (pool, [some err], none)
      | none => (pool.add C ord now tx isLocal).map fun r =>
        (r.1, [errorOf r.2],
          some (if r.2.toOption = some false then AccountSet.addTx C ∅ tx else ∅)) := by
  cases hknown : pool.knownOrInvalid C tx with
  | some err => simp [addTxs, hknown]
  | none =>
    simp only [addTxs, addTxsLocked, addTxsLoop, hknown, List.map_cons, List.map_nil,
      List.filter_cons, List.filter_nil, Option.isNone_none, List.isEmpty_cons, if_true]
    cases pool.add C ord now tx isLocal with
    | none => rfl
    | some r =>
      obtain ⟨pool', res⟩ := r
      rcases res with err | _ | _ <;> rfl

/-- A transaction that is accepted went through `add`. -/
theorem added_of_addTxs {dirty : Option AccountSet}
    (hr : pool.addTxs C ord now [tx] isLocal = some (pool', [none], dirty)) :
    pool.knownOrInvalid C tx = none ∧
      ∃ replaced, pool.add C ord now tx isLocal = some (pool', .ok replaced) ∧
        dirty = some (if replaced then ∅ else AccountSet.addTx C ∅ tx) := by
  rw [addTxs_singleton] at hr
  cases hknown : pool.knownOrInvalid C tx with
  | some err =>
    rw [hknown] at hr
    cases hr
  | none =>
    rw [hknown] at hr
    obtain ⟨⟨pool₁, res⟩, hadd, heq⟩ := Option.map_eq_some_iff.1 hr
    rcases res with err | replaced
    · cases heq
    · refine ⟨rfl, replaced, ?_⟩
      cases replaced <;> cases heq <;> exact ⟨hadd, rfl⟩

/-- What a pool makes of a single transaction. -/
theorem addTxs_single (h : Good C pool) {r : TxPool × List (Option TxError) × Option AccountSet}
    (hr : pool.addTxs C ord now [tx] isLocal = some r) :
    r.2.1 = [none] ∧ r.1.all.get (C.txHash tx) = some tx ∨
      ∃ err, r.2.1 = [some err] ∧ ∀ k, pool.all.get k = none → r.1.all.get k = none := by
  rw [addTxs_singleton] at hr
  cases hknown : pool.knownOrInvalid C tx with
  | some err =>
    rw [hknown] at hr
    obtain rfl := Option.some.inj hr
    exact Or.inr ⟨err, rfl, fun _ => id⟩
  | none =>
    rw [hknown] at hr
    obtain ⟨⟨pool₁, res⟩, hadd, rfl⟩ := Option.map_eq_some_iff.1 hr
    obtain ⟨hok, herror⟩ := add_result h hadd
    cases res with
    | error err => exact Or.inr ⟨err, rfl, herror err rfl⟩
    | ok replaced => exact Or.inl ⟨rfl, hok replaced rfl⟩

end Benzene.TxPool
