import Benzene.Core.PoolInvariant

/-!
# Transactions that come back

A reset adds the transactions that have left the chain to the pool again, at the new state, and
one after the other.  They are rejected like others: if they are invalid, if the pool is full, or
if their place is taken.

`FillsGaps` says, on the pool before, that nothing is missing between the state nonce of an account
and its pending transactions afterwards.  `FillsGaps.closes`: then nothing is.
-/

namespace Benzene.TxPool

variable {C : Crypto} {ord : RangeOrder} {now : ℤ} {pool pool' : TxPool} {a : Address} {n : UInt64}
  {tx : Transaction} {txs : List Transaction} {r : TxPool × Except TxError Bool}

/-! ## One transaction -/

/-- What a transaction that finds room makes of the queues. -/
theorem Inserted.queue {isLocal : Bool} (hr : Inserted C ord now isLocal pool tx r) :
    (listAt r.1.queue = listAt pool.queue ∧
        (listAt pool.pending (C.cell tx) ≠ none ∨ listAt pool.queue (C.cell tx) ≠ none)) ∨
      ∀ c, listAt r.1.queue c = if c = C.cell tx then some tx else listAt pool.queue c := by
  have hat : ∀ {m : GoMap Address TxList} {l : TxList} {old : Transaction},
      m.lookup (C.poolSender tx) = some l → l.get tx.accountNonce = some old →
      listAt m (C.cell tx) ≠ none := fun hl hold => by
    rw [Crypto.cell, listAt_of_lookup hl, hold]
    simp
  cases hr with
  | pendingKept hl hold _ => exact Or.inl ⟨rfl, Or.inl (hat hl hold)⟩
  | pendingReplaced hl hold _ => exact Or.inl ⟨by rw [replaced_queue], Or.inl (hat hl hold)⟩
  | @queuedKept l _ _ hl hold _ =>
    refine Or.inl ⟨funext fun c => ?_, Or.inr (hat hl hold)⟩
    show listAt (pool.queue.insert _ l) c = _
    rw [listAt_insert]
    split_ifs with hc
    · rw [← listAt_of_lookup hl, ← hc]
    · rfl
  | queuedReplaced | queued => exact Or.inr (listAt_insert_put pool.queue tx false)

/-- A transaction that is not local changes nothing that the validation reads. -/
theorem Inserted.validateTx_eq (hr : Inserted C ord now false pool tx r) (t : Transaction) :
    r.1.validateTx C t false = pool.validateTx C t false := by
  have hread : r.1.locals = pool.locals ∧ r.1.gasPrice = pool.gasPrice := by
    cases hr <;> simp only [TxPool.setPending, TxPool.setQueue, TxPool.replaced, TxPool.settle,
      markLocal, journalTx, swapAll, allAdd, pricedRemoved, forgetAll, TxPool.requeue, firstBeat,
      Bool.false_eq_true, if_false, and_self]
  simp only [validateTx, hread, hr.same.currentState]

/-! ## Transactions that come back -/

/-- The pool at another state, before the transactions come back. -/
def atState (pool : TxPool) (statedb : StateView) : TxPool :=
  { pool with currentState := statedb, pendingNonces := .new statedb }

/-- A transaction for a nonce of an account waits in the queue or comes back, and can be paid. -/
def Offers (C : Crypto) (pool : TxPool) (txs : List Transaction) (a : Address) (n : UInt64) :
    Prop :=
  ∃ t, (listAt pool.queue (a, n) = some t ∨ t ∈ txs ∧ C.cell t = (a, n)) ∧
    (pool.view a).Payable t

/-- The transaction is valid and unknown, and no other one that comes back has its hash. -/
structure Returning (C : Crypto) (pool : TxPool) (txs : List Transaction) (t : Transaction) :
    Prop where
  mem : t ∈ txs
  valid : pool.validateTx C t false = .ok ()
  new : pool.all.get (C.txHash t) = none
  unique : ∀ t' ∈ txs, C.txHash t' = C.txHash t → t' = t

/-- A nonce of an account is taken once the transactions are back: one that can be paid waits in
    the queue, or the place there is free and one comes back.  What comes back can be paid. -/
structure Fills (C : Crypto) (pool : TxPool) (txs : List Transaction) (a : Address) (n : UInt64) :
    Prop where
  source : (∃ t, listAt pool.queue (a, n) = some t ∧ (pool.view a).Payable t) ∨
    listAt pool.queue (a, n) = none ∧ ∃ t, Returning C pool txs t ∧ C.cell t = (a, n)
  payable : ∀ t ∈ txs, C.cell t = (a, n) → (pool.view a).Payable t

theorem Returning.tail {t : Transaction} (h : Returning C pool (tx :: txs) t) (hne : t ≠ tx) :
    Returning C pool txs t :=
  ⟨(List.mem_cons.1 h.mem).resolve_left hne, h.valid, h.new,
    fun t' ht' => h.unique t' (List.mem_cons_of_mem _ ht')⟩

/-- A transaction that is rejected does not matter. -/
theorem Fills.tail (h : Fills C pool (tx :: txs) a n) (hnot : ¬ Returning C pool (tx :: txs) tx) :
    Fills C pool txs a n := by
  refine ⟨h.source.imp_right fun ⟨hfree, t, ht, hcell⟩ => ⟨hfree, t, ht.tail ?_, hcell⟩,
    fun t ht => h.payable t (List.mem_cons_of_mem _ ht)⟩
  rintro rfl
  exact hnot ht

theorem Same.payable_iff (h : Same pool pool') {t : Transaction} :
    (pool'.view a).Payable t ↔ (pool.view a).Payable t := by
  simp only [AccountView.Payable, view, h.currentState, h.currentMaxGas]

/-- At a turn in a pool with room the nonce stays taken. -/
theorem Fills.inserted (hg : Good C pool) (h : Fills C pool (tx :: txs) a n)
    (hget : pool.all.get (C.txHash tx) = none)
    (hins : Inserted C ord now false pool tx r) :
    n.toNat ∈ (r.1.view a).nonces ∨ Fills C r.1 txs a n := by
  have hpay : ∀ {t}, (r.1.view a).Payable t ↔ (pool.view a).Payable t := hins.same.payable_iff
  have hlater : ∀ t ∈ txs, C.cell t = (a, n) → (r.1.view a).Payable t := fun t ht hcell =>
    hpay.2 (h.payable t (List.mem_cons_of_mem _ ht) hcell)
  -- the transactions after it still come back
  have hreturn : ∀ {t}, Returning C pool (tx :: txs) t → t ≠ tx → Returning C r.1 txs t := by
    intro t ht hne
    refine ⟨(ht.tail hne).mem, (hins.validateTx_eq t).trans ht.valid, ?_, (ht.tail hne).unique⟩
    by_contra hsome
    obtain ⟨t', ht'⟩ := Option.ne_none_iff_exists'.1 hsome
    rcases (hins.history hg.sound hget).enters ht' with hold | hnew
    · cases ht.new.symm.trans hold
    · have hhash := ((hins.good hg hget).sound.shelved.index_iff _ _).1 ht'
      split_ifs at hnew
      · obtain rfl := List.mem_singleton.1 hnew
        exact hne (ht.unique _ List.mem_cons_self hhash.1).symm
      · cases hnew
  rcases hins.queue with ⟨hqueue, htaken⟩ | hqueue
  · rcases h.source with ⟨t, ht, htpay⟩ | ⟨hfree, t, ht, hcell⟩
    · exact Or.inr ⟨Or.inl ⟨t, by rw [hqueue, ht], hpay.2 htpay⟩, hlater⟩
    · by_cases htx : t = tx
      · -- the place in the queue is free, so the nonce is pending
        subst htx
        rw [hcell] at htaken
        obtain ⟨t', ht'⟩ := Option.ne_none_iff_exists'.1 (htaken.resolve_right (· hfree))
        rw [hins.nonces a]
        exact Or.inl (AccountView.mem_nonces.2 ⟨t', ht'⟩)
      · exact Or.inr ⟨Or.inr ⟨by rw [hqueue, hfree], t, hreturn ht htx, hcell⟩, hlater⟩
  · right
    refine ⟨?_, hlater⟩
    rw [hqueue]
    by_cases hcell : C.cell tx = (a, n)
    · rw [if_pos hcell.symm]
      exact Or.inl ⟨tx, rfl, hpay.2 (h.payable tx List.mem_cons_self hcell)⟩
    · rw [if_neg (Ne.symm hcell)]
      refine h.source.imp (fun ⟨t, ht, htpay⟩ => ⟨t, ht, hpay.2 htpay⟩) ?_
      rintro ⟨hfree, t, ht, htcell⟩
      exact ⟨hfree, t, hreturn ht (fun heq => hcell (heq ▸ htcell)), htcell⟩

theorem add_fills (h : Good C pool) (hroom : pool.all.count < pool.globalLimit.toNat)
    (hfill : n.toNat ∈ (pool.view a).nonces ∨ Fills C pool (tx :: txs) a n)
    (hr : pool.add C ord now tx false = some r) :
    n.toNat ∈ (r.1.view a).nonces ∨ Fills C r.1 txs a n := by
  cases add_added h hr with
  | known hget =>
    refine hfill.imp_right fun hfill => hfill.tail fun hreturn => ?_
    rw [hreturn.new] at hget
    cases hget
  | invalid _ hvalid =>
    refine hfill.imp_right fun hfill => hfill.tail fun hreturn => ?_
    rw [hreturn.valid] at hvalid
    cases hvalid
  | refused _ _ hfull =>
    cases hfull with
    | refused hfull => omega
  | inserted hget _ hfree hins =>
    cases hfree with
    | made hfull => omega
    | free =>
      rcases hfill with hmem | hfill
      · exact Or.inl (hins.nonces a ▸ hmem)
      · exact hfill.inserted h hget hins

theorem addTxsLoop_fills (h : Good C pool)
    (hroom : pool.all.count + txs.length ≤ pool.globalLimit.toNat)
    (hfill : n.toNat ∈ (pool.view a).nonces ∨ Fills C pool txs a n)
    {errs : List (Option TxError)} {dirty : AccountSet}
    {r : TxPool × List (Option TxError) × AccountSet}
    (hr : addTxsLoop C ord now false pool txs errs dirty = some r) :
    n.toNat ∈ (r.1.view a).nonces ∨ Fills C r.1 [] a n := by
  induction txs generalizing pool errs dirty with
  | nil => exact Option.some.inj hr ▸ hfill
  | cons tx txs ih =>
    rw [List.length_cons] at hroom
    obtain ⟨⟨pool₁, res⟩, hadd, hr⟩ := Option.bind_eq_some_iff.1 hr
    obtain ⟨hkept, hshort⟩ := add_keeps h hadd
    have hcount := hkept.history.count_le
    have hlimit : pool₁.globalLimit = pool.globalLimit := by
      rw [globalLimit, globalLimit, hshort.same.config]
    have hroom₁ : pool₁.all.count + txs.length ≤ pool₁.globalLimit.toNat := by
      have hone : (if res.isOk then [tx] else []).length ≤ 1 := by split_ifs <;> simp
      simp only [books] at hcount
      rw [hlimit]
      omega
    have hfill₁ := add_fills h (by omega) hfill hadd
    cases res with
    | error err => exact ih hkept.toGood hroom₁ hfill₁ hr
    | ok replaced => exact ih hkept.toGood hroom₁ hfill₁ hr

theorem admitted_subset : ∀ (txs : List Transaction) (errs : List (Option TxError)),
    admitted txs errs ⊆ txs
  | [], _ => by simp [admitted]
  | _ :: _, [] => by simp [admitted]
  | _ :: txs, none :: errs => List.cons_subset_cons _ (admitted_subset txs errs)
  | _ :: txs, some _ :: errs => List.Subset.trans (admitted_subset txs errs) (by simp)

/-- What is queued is not pending. -/
theorem candidates_disjoint (h : Sound C pool []) {k : ℕ} (hk : k ∈ (pool.view a).candidates) :
    k ∉ (pool.view a).nonces := by
  rintro ⟨n, t, ht, hn⟩
  obtain ⟨n', t', ht', -, -, hn'⟩ := hk
  obtain rfl : n = n' := UInt64.toNat_inj.1 (hn.trans hn'.symm)
  have hnone := h.shelved.disjoint ht
  rw [show listAt pool.queue (a, n) = some t' from ht'] at hnone
  cases hnone

/-- A pending nonce that an account loses takes those above with it. -/
theorem Shortens.nonces (h : Shortens pool pool') (a : Address) :
    (pool'.view a).nonces ⊆ (pool.view a).nonces ∧
      ∀ j ∈ (pool.view a).nonces,
        j ∈ (pool'.view a).nonces ∨ ∀ k ∈ (pool'.view a).nonces, k < j := by
  refine h.rule (fun p => (p.view a).nonces ⊆ (pool.view a).nonces ∧
    ∀ j ∈ (pool.view a).nonces, j ∈ (p.view a).nonces ∨ ∀ k ∈ (p.view a).nonces, k < j) ?_
    ⟨subset_rfl, fun _ => Or.inl⟩
  rintro p p' ⟨hsub, hj⟩ hs
  rcases (hs.account a).loss with ⟨hn, -⟩ | ⟨n, -, hn, -⟩
  · rw [hn]
    exact ⟨hsub, hj⟩
  · rw [hn]
    refine ⟨fun k hk => hsub hk.1, fun j hmem => ?_⟩
    rcases hj j hmem with hold | hlow
    · by_cases hlt : j < n
      · exact Or.inl ⟨hold, hlt⟩
      · exact Or.inr fun k hk => hk.2.trans_le (not_lt.1 hlt)
    · exact Or.inr fun k hk => hlow k hk.1

/-- If a transaction comes back at the state nonce of an account, then the pool has room for all
    that come back, and they fill every nonce up to those that are pending. -/
def FillsGaps (C : Crypto) (pool : TxPool) (txs : List Transaction) (a : Address) : Prop :=
  Offers C pool txs a (pool.view a).stateNonce →
    ∀ k ∈ (pool.view a).nonces, (pool.view a).stateNonce.toNat ≤ k →
      pool.all.count + txs.length ≤ pool.globalLimit.toNat ∧
        ∀ n : UInt64, (pool.view a).stateNonce ≤ n → n.toNat < k →
          n.toNat ∈ (pool.view a).nonces ∨ Fills C pool txs a n

theorem FillsGaps.closes (h : FillsGaps C pool txs a) (hg : Good C pool)
    {r : TxPool × List (Option TxError) × AccountSet}
    (hr : pool.addTxsLocked C ord now txs false = some r) : (r.1.view a).Closes := by
  obtain ⟨errs, -, hkept, hshort⟩ := addTxsLoop_keeps hg hr
  obtain ⟨hsub, hlost⟩ := hshort.nonces a
  have hstate : (r.1.view a).stateNonce = (pool.view a).stateNonce := by
    simp only [view, hshort.same.currentState]
  intro hfront k hk hle j hj hjk
  rw [hstate] at hfront hle hj
  have hnot := candidates_disjoint hkept.sound hfront
  obtain ⟨m, t, hq, -, hpay, hm⟩ := hfront
  obtain rfl := UInt64.toNat_inj.1 hm
  have hq' : listAt r.1.queue (a, (pool.view a).stateNonce) = some t := hq
  have hcell := hkept.sound.shelved.right_place hq'
  -- the transaction at the state nonce was queued before, or it came back
  have hoffers : Offers C pool txs a (pool.view a).stateNonce := by
    refine ⟨t, ?_, hshort.same.payable_iff.1 hpay⟩
    rcases hkept.history.enters (hkept.sound.get_of_queued (hcell ▸ hq')) with hold | hnew
    · rcases ((hg.sound.shelved.index_iff _ _).1 hold).2 with hp | hq | hheld
      · rw [hcell] at hp
        rcases hlost _ (AccountView.mem_nonces.2 ⟨t, hp⟩) with hmem | hlow
        · exact absurd hmem hnot
        · exact absurd (hlow k hk) (not_lt.2 hle)
      · exact Or.inl (hcell ▸ hq)
      · cases hheld
    · exact Or.inr ⟨admitted_subset _ _ hnew, hcell⟩
  obtain ⟨hroom, hfills⟩ := h hoffers k (hsub hk) hle
  have hfits : j < 2 ^ 64 := by
    obtain ⟨m, -, -, rfl⟩ := hk
    exact hjk.trans m.toNat_lt
  obtain ⟨n, rfl⟩ : ∃ n : UInt64, n.toNat = j := ⟨.ofNat j, UInt64.toNat_ofNat_of_lt' hfits⟩
  have hn : (pool.view a).stateNonce ≤ n := UInt64.le_iff_toNat_le.2 hj
  refine (addTxsLoop_fills hg hroom (hfills n hn hjk) hr).imp_right fun hfill => ?_
  rcases hfill.source with ⟨t', ht', hpay'⟩ | ⟨-, t', hreturn, -⟩
  · exact ⟨n, t', ht', hstate ▸ hn, hpay', rfl⟩
  · cases hreturn.mem

end Benzene.TxPool
