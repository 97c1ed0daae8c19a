import Benzene.Core.PendingOrder

/-!
# A local transaction and the reorganisation it triggers

`addLocal_pending_iff`: when a pool below its limits accepts a local transaction with the pool
nonce of its sender, the reorganisation that follows makes it pending exactly when a pending
transaction was replaced, or it is new, needs no gas, no gap is left below it and it survives the
truncation.

The pool never sets `currentMaxGas`, which stays at zero, so that `Filter` drops a transaction
with any gas limit above zero; and a queued transaction that is replaced is not promoted.
-/

namespace Benzene.TxPool

variable {C : Crypto} {ord : RangeOrder} {now : ℤ} {pool pool' : TxPool} {a b : Address}
  {l : TxList} {tx : Transaction}

/-! ## The state of the pool -/

/-- The pool has room for another transaction in each of its parts. -/
structure BelowLimits (pool : TxPool) : Prop where
  count : pool.all.count < pool.globalLimit.toNat
  pending : pool.pendingCount < pool.config.globalSlots.toNat
  queued : pool.queuedCount < pool.config.globalQueue.toNat

/-- The sender is local once the transaction has been added by `AddLocal`. -/
def exempt (C : Crypto) (pool : TxPool) (tx : Transaction) : Prop :=
  pool.config.noLocals = false ∨ AccountSet.contains pool.locals (C.poolSender tx) = true

/-- The number of transactions of the sender below a new one, pending or about to become so. -/
noncomputable def standing (C : Crypto) (pool : TxPool) (tx : Transaction) : ℕ :=
  (below ((pool.view (C.poolSender tx)).nonces ∪ (pool.view (C.poolSender tx)).candidates)
    tx.accountNonce.toNat).ncard

/-- A transaction that is new and becomes pending. -/
structure Promotable (C : Crypto) (pool : TxPool) (tx : Transaction) : Prop where
  gas : tx.gasLimit = 0
  vacant : listAt pool.queue (C.cell tx) = none
  /-- The executable transactions in the queue reach up to it. -/
  joined : ∀ k ∈ (pool.view (C.poolSender tx)).candidates, k < tx.accountNonce.toNat →
    ∀ j, k ≤ j → j < tx.accountNonce.toNat → j ∈ (pool.view (C.poolSender tx)).candidates
  /-- The limit for the queue is a positive `int`. -/
  limited : exempt C pool tx ∨ 0 ≤ goInt pool.config.accountQueue
  /-- It survives the truncation. -/
  fits : exempt C pool tx ∨ standing C pool tx < pool.config.accountSlots.toNat ∨
    pool.othersCut (C.poolSender tx) (standing C pool tx + 1) + (standing C pool tx + 1) ≤
      pool.config.globalSlots.toNat

/-! ## Admission -/

theorem of_validateTx {isLocal : Bool} (h : pool.validateTx C tx isLocal = .ok ()) :
    C.sender poolSigner tx = .ok (C.poolSender tx) ∧
      pool.currentState.getNonce (C.poolSender tx) ≤ tx.accountNonce ∧
      tx.cost ≤ pool.currentState.getBalance (C.poolSender tx) := by
  simp only [validateTx, Crypto.poolSender] at h ⊢
  cases hfrom : C.sender poolSigner tx with
  | error err =>
    rw [hfrom] at h
    split_ifs at h
  | ok from_ =>
    simp only [hfrom] at h
    split_ifs at h with hsize hneg hprice hnonce hcost
    exact ⟨rfl, UInt64.not_lt.1 hnonce, not_lt.1 hcost⟩

/-- What `AddLocal` does when it returns no error. -/
theorem addLocal_inserted (h : Good C pool) (hcount : pool.all.count < pool.globalLimit.toNat)
    {dirty : Option AccountSet}
    (hadd : pool.addLocals C ord now [tx] = some (pool', [none], dirty)) :
    ∃ replaced, Inserted C ord now (!pool.config.noLocals) pool tx (pool', .ok replaced) ∧
      dirty = some (if replaced then ∅ else AccountSet.add ∅ (C.poolSender tx)) ∧
      pool.all.get (C.txHash tx) = none ∧
      pool.currentState.getNonce (C.poolSender tx) ≤ tx.accountNonce ∧
      tx.cost ≤ pool.currentState.getBalance (C.poolSender tx) := by
  obtain ⟨-, replaced, hadded, hdirty⟩ := added_of_addTxs hadd
  cases add_added h hadded with
  | inserted hget hvalid hroom hins =>
    obtain ⟨hfrom, hstate⟩ := of_validateTx hvalid
    simp only [AccountSet.addTx, hfrom] at hdirty
    cases hroom with
    | free => exact ⟨replaced, hins, hdirty, hget, hstate⟩
    | made hfull => exact absurd hcount (not_lt.2 hfull)

/-! ## The end of the reorganisation -/

/-- A queue that fits is left alone, and only the truncation changes the pending lists. -/
theorem finishReorg_pending (now : ℤ) (hg : Good C pool')
    (htr : pool.truncatePending C ord = some pool') (htrim : Trims C pool pool')
    (hq : pool.queuedCount ≤ pool.config.globalQueue.toNat) :
    ∃ pool₁, pool.finishReorg C ord now = some pool₁ ∧ pool₁.pending = pool'.pending := by
  have hq' : pool'.queuedCount ≤ pool'.config.globalQueue.toNat := by
    rwa [queuedCount, htrim.queue, htrim.same.config]
  obtain ⟨pool₁, hset⟩ := setNonces_returns ord hg
  obtain ⟨nonces, heq⟩ := setNonces_eq hset
  refine ⟨pool₁, ?_, by rw [heq]⟩
  simp only [finishReorg, htr, Option.bind_eq_bind, Option.bind_some, truncateQueue, hq', if_true,
    hset]

/-- Nothing becomes pending at the end of a reorganisation. -/
theorem finishReorg_nonces (h : Good C pool) (hslots : 1 ≤ pool.config.accountSlots.toNat)
    (hr : pool.finishReorg C ord now = some pool') (a : Address) :
    (pool'.view a).nonces ⊆ (pool.view a).nonces := by
  obtain ⟨pool₁, hpool₁, hr⟩ := Option.bind_eq_some_iff.1 hr
  obtain ⟨pool₂, hpool₂, hr⟩ := Option.bind_eq_some_iff.1 hr
  obtain ⟨hg₁, hshort₁⟩ := truncatePending_keeps h hslots hpool₁
  obtain ⟨-, hshort₂⟩ := truncateQueue_keeps hg₁.toGood hpool₂
  obtain ⟨nonces, heq⟩ := setNonces_eq hr
  rw [heq]
  exact ((hshort₁.trans hshort₂).nonces a).1

/-! ## The promotion -/

/-- A payable transaction with the pool nonce of its sender, which is neither pending nor
    queued. -/
structure Awaited (C : Crypto) (pool : TxPool) (tx : Transaction) : Prop where
  gas : pool.currentMaxGas = 0
  absent : listAt pool.pending (C.cell tx) = none
  vacant : listAt pool.queue (C.cell tx) = none
  le : pool.currentState.getNonce (C.poolSender tx) ≤ tx.accountNonce
  cost : tx.cost ≤ pool.currentState.getBalance (C.poolSender tx)
  nonce : tx.accountNonce = pool.pendingNonces.get (C.poolSender tx)

/-- The pool after such a transaction has gone to the queue. -/
structure Enqueued (C : Crypto) (pool : TxPool) (tx : Transaction) (pool₁ : TxPool) : Prop
    extends Awaited C pool tx where
  same : Same pool pool₁
  pending : pool₁.pending = pool.pending
  pendingNonces : pool₁.pendingNonces = pool.pendingNonces
  queue : ∀ c, listAt pool₁.queue c = if c = C.cell tx then some tx else listAt pool.queue c
  others : ∀ b, b ≠ C.poolSender tx → pool₁.queue.lookup b = pool.queue.lookup b
  list : ∃ l, pool₁.queue.lookup (C.poolSender tx) = some l ∧
    l.len = (pool.queue.lookup (C.poolSender tx)).elim 0 TxList.len + 1
  locals : ∀ b, AccountSet.contains pool₁.locals b = true ↔
    AccountSet.contains pool.locals b = true ∨
      (pool.config.noLocals = false ∧ b = C.poolSender tx)

theorem contains_markLocal (pool : TxPool) (isLocal : Bool) (b : Address) :
    AccountSet.contains (pool.markLocal a isLocal).locals b = true ↔
      AccountSet.contains pool.locals b = true ∨ (isLocal = true ∧ b = a) := by
  cases isLocal with
  | false => simp [markLocal]
  | true =>
    simp only [markLocal, if_true, AccountSet.contains, AccountSet.add, GoMap.lookup_insert_eq]
    split_ifs with hb
    · simp [hb]
    · simp [hb]

theorem enqueued (h : Awaited C pool tx) :
    Enqueued C pool tx
      (((pool.allAdd C tx).requeue C now tx).settle C (!pool.config.noLocals) tx) where
  toAwaited := h
  same := by
    constructor <;> simp only [TxPool.settle, markLocal, journalTx, TxPool.allAdd, TxPool.requeue,
      firstBeat, TxPool.setQueue]
  pending := rfl
  pendingNonces := rfl
  queue c := listAt_insert_put pool.queue tx false c
  others b hb := (GoMap.lookup_insert_eq _ _ _ _).trans (if_neg hb)
  list := by
    refine ⟨_, AList.lookup_insert _, ?_⟩
    have hfree : ((pool.queue.lookup (C.poolSender tx)).getD (.new false)).get tx.accountNonce =
        none := (listAt_getD pool.queue _ false _).trans h.vacant
    refine (TxList.len_put_of_none hfree).trans ?_
    cases pool.queue.lookup (C.poolSender tx) <;> rfl
  locals b := by
    rw [← Bool.not_eq_true']
    exact contains_markLocal ((pool.allAdd C tx).requeue C now tx) (!pool.config.noLocals) b

variable {pool₁ : TxPool}

/-- The transaction is a candidate if it needs no gas. -/
theorem Enqueued.mem_candidates (h : Enqueued C pool tx pool₁) (k : ℕ) :
    k ∈ (pool₁.view (C.poolSender tx)).candidates ↔
      k ∈ (pool.view (C.poolSender tx)).candidates ∨
        (tx.gasLimit = 0 ∧ k = tx.accountNonce.toNat) := by
  have hpay : TxList.unpayable (pool.currentState.getBalance (C.poolSender tx))
      pool.currentMaxGas tx = false ↔ tx.gasLimit = 0 := by
    simp [TxList.unpayable, h.gas, h.cost]
  simp only [AccountView.candidates, AccountView.Payable, view, h.same.currentState,
    h.same.currentMaxGas, h.queue, Set.mem_ofPred_eq]
  constructor
  · rintro ⟨n, t, hq, hle, ht, rfl⟩
    split_ifs at hq with hc
    · obtain rfl := Option.some.inj hq
      obtain rfl : n = tx.accountNonce := congrArg Prod.snd hc
      exact Or.inr ⟨hpay.1 ht, rfl⟩
    · exact Or.inl ⟨n, t, hq, hle, ht, rfl⟩
  · rintro (⟨n, t, hq, hle, ht, rfl⟩ | ⟨hzero, rfl⟩)
    · refine ⟨n, t, ?_, hle, ht, rfl⟩
      rw [if_neg fun hc => ?_, hq]
      rw [hc, h.vacant] at hq
      cases hq
    · exact ⟨_, tx, if_pos rfl, h.le, hpay.2 hzero, rfl⟩

/-- What becomes pending at the place of the transaction is the transaction. -/
theorem Enqueued.listAt_promoted (h : Enqueued C pool tx pool₁) (hg₁ : Good C pool₁)
    (hr : pool₁.promoteAccount C ord now (C.poolSender tx) = some pool') :
    tx.accountNonce.toNat ∈ (pool'.view (C.poolSender tx)).nonces ↔
      listAt pool'.pending (C.cell tx) = some tx := by
  obtain ⟨l, hl, -⟩ := h.list
  have hplace : (C.poolSender tx, tx.accountNonce) = C.cell tx := rfl
  rw [AccountView.mem_nonces]
  refine ⟨fun ⟨t, ht⟩ => ?_, fun ht => ⟨tx, ht⟩⟩
  rcases ((promoteAccount_spec hg₁ hl hr).1 _ _).1 ht with hold | ⟨hready, hcell⟩
  · rw [h.pending, hplace, h.absent] at hold
    cases hold
  · have hget := (pool₁.dropsOf ord (C.poolSender tx) l).1.ready_drops
      (pool₁.pendingNonces.get (C.poolSender tx)) |>.get_of_mem hready
    have hnonce : t.accountNonce = tx.accountNonce := congrArg Prod.snd hcell
    rw [hnonce, get_dropsOf hg₁.sound hl, h.queue, if_pos hplace] at hget
    obtain rfl := Option.some.inj hget.1
    exact ht

/-- The transaction becomes pending if it needs no gas and there is no gap below it; and then
    `standing` transactions of its sender are below it. -/
theorem Enqueued.promoted (h : Enqueued C pool tx pool₁) (hg₁ : Good C pool₁)
    (hr : pool₁.promoteAccount C ord now (C.poolSender tx) = some pool') :
    (listAt pool'.pending (C.cell tx) = some tx ↔ tx.gasLimit = 0 ∧
      ∀ k ∈ (pool.view (C.poolSender tx)).candidates, k < tx.accountNonce.toNat →
        ∀ j, k ≤ j → j < tx.accountNonce.toNat →
          j ∈ (pool.view (C.poolSender tx)).candidates) ∧
    (listAt pool'.pending (C.cell tx) = some tx →
      pool'.rank (C.poolSender tx) tx.accountNonce = standing C pool tx) := by
  have hp := (promoteAccount_view hg₁ hr).2
  have hcand := h.mem_candidates
  have hnonces : (pool₁.view (C.poolSender tx)).nonces = (pool.view (C.poolSender tx)).nonces := by
    simp only [AccountView.nonces, view, h.pending]
  have hpool : (pool₁.view (C.poolSender tx)).poolNonce = tx.accountNonce := by
    rw [h.nonce]
    simp only [view, h.pendingNonces]
  have hnot : tx.accountNonce.toNat ∉ (pool₁.view (C.poolSender tx)).nonces := by
    rw [hnonces, AccountView.mem_nonces]
    rintro ⟨t, ht⟩
    have hsome := h.absent.symm.trans ht
    cases hsome
  have hold : tx.accountNonce.toNat ∉ (pool.view (C.poolSender tx)).candidates := by
    rintro ⟨n, t, ht, -, -, hn⟩
    obtain rfl := UInt64.toNat_inj.1 hn
    have hsome := h.vacant.symm.trans ht
    cases hsome
  have hmem := hp.mem_poolNonce (hpool ▸ hnot)
  have hbelow := hp.below_poolNonce (hpool ▸ hnot)
  rw [hpool] at hmem hbelow
  rw [← h.listAt_promoted hg₁ hr]
  refine ⟨hmem.trans ?_, fun hin => ?_⟩
  · constructor
    · rintro ⟨hself, hjoined⟩
      refine ⟨(((hcand _).1 hself).resolve_left hold).1, fun k hk hkn j hkj hj => ?_⟩
      refine ((hcand j).1 (hjoined k ((hcand k).2 (Or.inl hk)) hkn j hkj hj)).resolve_right ?_
      rintro ⟨-, rfl⟩
      exact lt_irrefl _ hj
    · rintro ⟨hzero, hjoined⟩
      refine ⟨(hcand _).2 (Or.inr ⟨hzero, rfl⟩), fun k hk hkn j hkj hj => (hcand j).2 (Or.inl ?_)⟩
      refine hjoined k (((hcand k).1 hk).resolve_right ?_) hkn j hkj hj
      rintro ⟨-, rfl⟩
      exact lt_irrefl _ hkn
  · rw [rank, standing, hbelow hin, hnonces]
    congr 1
    ext j
    refine and_congr_left fun hj => or_congr_right ((hcand j).trans (or_iff_left ?_))
    rintro ⟨-, rfl⟩
    exact lt_irrefl _ hj

/-- The length of a pending list is the number of its nonces. -/
theorem Good.pendingLen_eq_some (h : Good C pool) {k : ℕ} :
    pool.pendingLen b = some k ↔ k ≠ 0 ∧ (pool.view b).nonces.ncard = k := by
  cases hl : pool.pending.lookup b with
  | none =>
    simp only [pendingLen, hl, nonces_of_none hl, Set.ncard_empty]
    exact iff_of_false (by simp) fun h => h.1 h.2.symm
  | some l =>
    have hlen : (pool.view b).nonces.ncard = l.len :=
      AccountView.ncard_nonces fun n => listAt_of_lookup hl n
    rw [pendingLen_of_lookup hl, hlen, Option.some.injEq]
    exact ⟨fun heq => ⟨heq ▸ h.tidy.pending_ne hl (by simp), heq⟩, And.right⟩

/-- What the other accounts keep does not depend on the account. -/
theorem othersCut_congr (h : Good C pool) (h' : Good C pool')
    (hv : ∀ b, b ≠ a → (pool'.view b).pending = (pool.view b).pending)
    (hlocals : ∀ b, b ≠ a →
      AccountSet.contains pool'.locals b = AccountSet.contains pool.locals b) (level : ℕ) :
    pool'.othersCut a level = pool.othersCut a level := by
  have hlen : ∀ b, b ≠ a → pool'.pendingLen b = pool.pendingLen b := by
    intro b hb
    ext k
    simp only [h.pendingLen_eq_some, h'.pendingLen_eq_some, AccountView.nonces, hv b hb]
  have hne : ∀ b, b ∈ pool.pending.keys.erase a → b ≠ a := by
    rintro b hb rfl
    exact pool.pending.keys_nodup.not_mem_erase hb
  have hperm : (pool'.pending.keys.erase a).Perm (pool.pending.keys.erase a) := by
    rw [List.perm_ext_iff_of_nodup (pool'.pending.keys_nodup.erase a)
      (pool.pending.keys_nodup.erase a)]
    intro b
    rw [pool'.pending.keys_nodup.mem_erase_iff, pool.pending.keys_nodup.mem_erase_iff]
    refine and_congr_right fun hb => ?_
    rw [mem_pending_keys, mem_pending_keys, hlen b hb]
  rw [othersCut, othersCut, (hperm.map _).sum_eq]
  congr 1
  apply List.map_congr_left
  intro b hb
  rw [cutLen, cutLen, hlen b (hne b hb), hlocals b (hne b hb)]

/-! ## The result -/

theorem flatten_singleton (ord : RangeOrder) (a : Address) :
    AccountSet.flatten ord (AccountSet.add ∅ a) = [a] := by
  have hkeys : (AccountSet.add ∅ a).keys = [a] := rfl
  rw [AccountSet.flatten, hkeys]
  exact List.perm_singleton.1 (ord.perm [a])

/-- The reorganisation after a pending transaction has been replaced. -/
theorem replaced_stays (h : Good C pool) (hbelow : BelowLimits pool) {old : Transaction}
    {ord' : RangeOrder} (hl : pool.pending.lookup (C.poolSender tx) = some l)
    (hold : l.get tx.accountNonce = some old) (hget : pool.all.get (C.txHash tx) = none)
    (now' : ℤ) :
    ∃ pool₂, (pool.replaced C ord now l old tx).finishReorg C ord' now' = some pool₂ ∧
      listAt pool₂.pending (C.cell tx) = some tx := by
  have hconfig : (pool.replaced C ord now l old tx).config = pool.config := by
    simp only [TxPool.replaced, journalTx, TxPool.setPending, swapAll, allAdd, pricedRemoved,
      forgetAll]
  have hcount : (pool.replaced C ord now l old tx).pendingCount ≤ pool.pendingCount := by
    refine GoMap.sum_values_le (k := C.poolSender tx) (d := 0) (fun b hb => ?_) ?_
    · rw [replaced_pending, GoMap.lookup_insert_eq, if_neg hb]
    · rw [replaced_pending, GoMap.lookup_insert_eq, if_pos rfl, hl]
      exact (TxList.len_put_of_some hold).le
  have hq : (pool.replaced C ord now l old tx).queuedCount ≤
      (pool.replaced C ord now l old tx).config.globalQueue.toNat := by
    rw [queuedCount, replaced_queue, hconfig]
    exact hbelow.queued.le
  have hfits : (pool.replaced C ord now l old tx).pendingCount ≤
      (pool.replaced C ord now l old tx).config.globalSlots.toNat := by
    rw [hconfig]
    exact hcount.trans hbelow.pending.le
  obtain ⟨pool₂, heq, hpending⟩ := finishReorg_pending now' (h.replaced hget hl hold)
    (truncatePending_of_fits hfits : _ = some _) (Trims.refl _) hq
  refine ⟨pool₂, heq, ?_⟩
  have hplace : (C.cell tx).1 = C.poolSender tx := rfl
  rw [hpending, replaced_pending, listAt_insert, if_pos hplace]
  exact (TxList.get_put _ _ _).trans (if_pos rfl)

/-- The reorganisation after a new transaction has gone to the queue. -/
theorem Enqueued.pending_iff (h : Enqueued C pool tx pool₁) (hg : Good C pool)
    (hg₁ : Good C pool₁) (hbelow : BelowLimits pool)
    (hslots : 1 ≤ pool.config.accountSlots.toNat) :
    (∃ pool₂, (promoteExecutables C ord now pool₁ [C.poolSender tx]).bind
        (finishReorg C ord now) = some pool₂ ∧ listAt pool₂.pending (C.cell tx) = some tx) ↔
      Promotable C pool tx := by
  obtain ⟨l, hl, hlen⟩ := h.list
  have hexempt : AccountSet.contains pool₁.locals (C.poolSender tx) = true ↔ exempt C pool tx := by
    rw [h.locals, exempt, or_comm]
    simp
  have hsome := promoteAccount_isSome ord now hg₁ hl
  rw [hexempt, h.same.config] at hsome
  have hrun : promoteExecutables C ord now pool₁ [C.poolSender tx] =
      pool₁.promoteAccount C ord now (C.poolSender tx) := by
    simp [promoteExecutables]
  rw [hrun]
  cases hr : pool₁.promoteAccount C ord now (C.poolSender tx) with
  | none =>
    refine iff_of_false (by simp) fun hp => ?_
    obtain ⟨pool', hpool'⟩ := hsome.2 hp.limited
    rw [hr] at hpool'
    cases hpool'
  | some pool' =>
    have hlimited := hsome.1 ⟨pool', hr⟩
    obtain ⟨hkept, hsame'⟩ := promoteAccount_keeps hg₁ hr
    have hg' := hkept.toGood
    have hlocals : pool'.locals = pool₁.locals := hkept.history.locals_eq rfl
    have hsame := h.same.trans hsame'
    obtain ⟨hiff, hrank⟩ := h.promoted hg₁ hr
    rw [Option.bind_some]
    by_cases hin : listAt pool'.pending (C.cell tx) = some tx
    · obtain ⟨hzero, hjoined⟩ := hiff.1 hin
      obtain ⟨pool₂, htr, hg₂, htrim, hsurvives⟩ := truncatePending_survives_iff ord hg'
        (hsame.config ▸ hslots) hin
      -- the queue has grown by at most the transaction
      have hq : pool'.queuedCount ≤ pool'.config.globalQueue.toNat := by
        refine le_trans ?_ (hsame.config ▸ hbelow.queued)
        refine GoMap.sum_values_le (k := C.poolSender tx) (d := 1) (fun b hb => ?_) ?_
        · rw [(promoteAccount_spec hg₁ hl hr).2.2 b hb, h.others b hb]
        · exact hlen ▸ promoteAccount_queueLen hg₁ hl hr
      obtain ⟨pool₃, hfin, hpool₃⟩ := finishReorg_pending now hg₂ htr htrim hq
      have hcut : ∀ level, pool'.othersCut (C.poolSender tx) level =
          pool.othersCut (C.poolSender tx) level := by
        refine othersCut_congr hg hg' (fun b hb => ?_) (fun b hb => ?_)
        · rw [(promoteAccount_view hg₁ hr).1 b hb]
          simp only [view, h.pending]
        · rw [hlocals, Bool.eq_iff_iff, h.locals]
          exact or_iff_left fun hb' => hb hb'.2
      rw [hlocals, hexempt, hrank hin, hcut, hsame.config] at hsurvives
      constructor
      · rintro ⟨pool₄, hpool₄, hlast⟩
        obtain rfl := Option.some.inj (hfin.symm.trans hpool₄)
        exact ⟨hzero, h.vacant, hjoined, hlimited, hsurvives.1 (hpool₃ ▸ hlast)⟩
      · intro hp
        exact ⟨pool₃, hfin, hpool₃ ▸ hsurvives.2 hp.fits⟩
    · refine iff_of_false ?_ fun hp => hin (hiff.2 ⟨hp.gas, hp.joined⟩)
      rintro ⟨pool₂, hfin, hlast⟩
      refine hin ((h.listAt_promoted hg₁ hr).1 ?_)
      exact finishReorg_nonces hg' (hsame.config ▸ hslots) hfin _
        (AccountView.mem_nonces.2 ⟨tx, hlast⟩)

/-- **A local transaction with the pool nonce** becomes pending in the reorganisation that follows
    exactly when it replaces a pending transaction, or it is `Promotable`. -/
theorem addLocal_pending_iff (C : Crypto) (config : TxPoolConfig) (statedb : StateView)
    (events : List Event) (pool : TxPool)
    (hrun : runEvents C (newTxPool config statedb) events = some pool)
    (hbelow : BelowLimits pool) (ord ord' : RangeOrder) (now now' : ℤ) (tx : Transaction)
    (pool₁ : TxPool) (dirty : Option AccountSet)
    (hadd : pool.addLocals C ord now [tx] = some (pool₁, [none], dirty))
    (hnonce : tx.accountNonce = pool.pendingNonces.get (C.poolSender tx)) :
    (∃ pool₂, pool₁.runReorg C ord' now' none dirty = some pool₂ ∧
        listAt pool₂.pending (C.cell tx) = some tx) ↔
      (∃ old, listAt pool.pending (C.cell tx) = some old) ∨ Promotable C pool tx := by
  obtain ⟨hg, hfixed⟩ := runEvents_good hrun
  have hslots := hfixed.one_le_accountSlots
  have hgas : pool.currentMaxGas = 0 := hfixed.currentMaxGas
  obtain ⟨replaced, hins, rfl, hget, hle, hcost⟩ := addLocal_inserted hg hbelow.count hadd
  have hg₁ := hins.good hg hget
  have hslots₁ : 1 ≤ pool₁.config.accountSlots.toNat := by
    rw [hins.same.config]
    exact hslots
  have hempty : AccountSet.flatten ord' (∅ : AccountSet) = [] :=
    List.perm_nil.1 (ord'.perm [])
  cases hins with
  | @pendingReplaced l old hl hold hkeep =>
    refine iff_of_true ?_ (Or.inl ⟨old, (listAt_of_lookup hl _).trans hold⟩)
    simp only [runReorg, if_true, Option.map_some, Option.getD_some, hempty, promoteExecutables,
      Option.bind_eq_bind, Option.bind_some]
    exact replaced_stays hg hbelow hl hold hget now'
  | @queuedReplaced l old hpending hl hold hkeep =>
    have hqueue : listAt pool.queue (C.cell tx) = some old := (listAt_of_lookup hl _).trans hold
    refine iff_of_false ?_ ?_
    · simp only [runReorg, if_true, Option.map_some, Option.getD_some, hempty, promoteExecutables,
        Option.bind_eq_bind, Option.bind_some]
      rintro ⟨pool₂, hfin, hlast⟩
      obtain ⟨t, ht⟩ := AccountView.mem_nonces.1 (finishReorg_nonces hg₁ hslots₁ hfin _
        (AccountView.mem_nonces.2 ⟨tx, hlast⟩))
      simp only [view, settle_pending, requeue_pending, swapAll_pending] at ht
      have hsome := hpending.symm.trans ht
      cases hsome
    · rintro (⟨t, ht⟩ | hp)
      · rw [hpending] at ht
        cases ht
      · have hsome := hp.vacant.symm.trans hqueue
        cases hsome
  | queued hpending hqueue =>
    simp only [runReorg, Bool.false_eq_true, if_false, Option.map_some, Option.getD_some,
      flatten_singleton, Option.bind_eq_bind]
    have hawaited : Awaited C pool tx := ⟨hgas, hpending, hqueue, hle, hcost, hnonce⟩
    rw [(enqueued hawaited).pending_iff hg hg₁ hbelow hslots]
    refine (or_iff_right ?_).symm
    rintro ⟨t, ht⟩
    rw [hpending] at ht
    cases ht

end Benzene.TxPool

namespace Benzene.Concrete

open TxPool

/-- A pool without transactions, in which every account has the balance 100. -/
def freshPool : TxPool := newTxPool defaultTxPoolConfig (uniformState 0 100)

theorem belowLimits_freshPool : BelowLimits freshPool :=
  ⟨by decide +kernel, by decide +kernel, by decide +kernel⟩

/-- A transfer with the gas limit every transfer has. -/
def gasTransfer : Transaction := crypto.signTx (transfer 0 21000 5) (.eip155 1) (7 : UInt8)

/-- What `AddLocal` makes of a transaction. -/
def addedLocal (tx : Transaction) : Option (TxPool × List (Option TxError) × Option AccountSet) :=
  freshPool.addLocals crypto rangeOrder 0 [tx]

/-- The pool after the reorganisation. -/
def reorganised (tx : Transaction) : Option TxPool :=
  (addedLocal tx).bind fun r => r.1.runReorg crypto rangeOrder 0 none r.2.2

/-- The transfer is accepted, has the pool nonce and can be paid, and is in no list after the
    reorganisation. -/
theorem gasTransfer_not_pending :
    BelowLimits freshPool ∧ (addedLocal gasTransfer).map (fun r => r.2.1) = some [none] ∧
      gasTransfer.accountNonce = freshPool.pendingNonces.get (crypto.poolSender gasTransfer) ∧
      gasTransfer.cost ≤ freshPool.currentState.getBalance (crypto.poolSender gasTransfer) ∧
      (reorganised gasTransfer).map (fun pool => (listAt pool.pending (crypto.cell gasTransfer),
        listAt pool.queue (crypto.cell gasTransfer))) = some (none, none) :=
  ⟨belowLimits_freshPool, by decide +kernel, by decide +kernel, by decide +kernel,
    by decide +kernel⟩

def addedPool : TxPool := ((addedLocal (pay 7 0 5)).get (by decide +kernel)).1

def addedDirty : Option AccountSet := ((addedLocal (pay 7 0 5)).get (by decide +kernel)).2.2

theorem pay_pending :
    ((addedPool.runReorg crypto rangeOrder 0 none addedDirty).bind fun pool =>
      listAt pool.pending (crypto.cell (pay 7 0 5))) = some (pay 7 0 5) := by
  have hadd : freshPool.addLocals crypto rangeOrder 0 [pay 7 0 5] =
      some (addedPool, [none], addedDirty) := by
    have hsome : addedLocal (pay 7 0 5) =
        some ((addedLocal (pay 7 0 5)).get (by decide +kernel)) := (Option.some_get _).symm
    have herrs : ((addedLocal (pay 7 0 5)).get (by decide +kernel)).2.1 = [none] := by
      decide +kernel
    refine hsome.trans ?_
    rw [addedPool, addedDirty, ← herrs]
  have hvacant : ∀ a, (freshPool.view a).candidates = ∅ := by
    intro a
    ext k
    simp [AccountView.candidates, view, freshPool, newTxPool, listAt]
  have hpromotable : Promotable crypto freshPool (pay 7 0 5) := by
    refine ⟨by decide +kernel, by decide +kernel, fun k hk => ?_, Or.inl (Or.inl rfl),
      Or.inl (Or.inl rfl)⟩
    rw [hvacant] at hk
    exact absurd hk (Set.notMem_empty k)
  exact Option.bind_eq_some_iff.2 ((addLocal_pending_iff crypto defaultTxPoolConfig
    (uniformState 0 100) [] freshPool rfl belowLimits_freshPool rangeOrder rangeOrder 0 0
    (pay 7 0 5) addedPool addedDirty hadd (by decide +kernel)).2 (Or.inr hpromotable))

end Benzene.Concrete
