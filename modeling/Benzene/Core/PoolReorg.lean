import Benzene.Core.PoolSpec

/-!
# Promotion and demotion

What `promoteExecutables` and `demoteUnexecutables` do to an account of a pool in which nothing
is held, as one equation each: `promoteAccount_eq` and `demoteAccount_eq`.  Both keep `Good`, and
the transactions they drop leave the books (`promoteAccount_books`, `demoted_books`).
-/

namespace Benzene.TxPool

open Books

variable {C : Crypto} {ord : RangeOrder} {now : ℤ} {pool pool' : TxPool}
  {held : List Transaction} {tx : Transaction} {a : Address} {l l' : TxList}

/-- The transactions of an account below the nonce of the state. -/
def oldsOf (pool : TxPool) (a : Address) (l : TxList) : TxList × List Transaction :=
  l.forward (pool.currentState.getNonce a)

/-- The transactions of an account that it cannot pay, and those after them in a pending list. -/
def dropsOf (ord : RangeOrder) (pool : TxPool) (a : Address) (l : TxList) :
    TxList × List Transaction × List Transaction :=
  (pool.oldsOf a l).1.filter ord (pool.currentState.getBalance a) pool.currentMaxGas

/-! ## Promotion -/

/-- The queued transactions of an account that become pending. -/
def readiesOf (ord : RangeOrder) (pool : TxPool) (a : Address) (l : TxList) :
    TxList × List Transaction :=
  (pool.dropsOf ord a l).1.ready (pool.pendingNonces.get a)

/-- The pool after the old transactions have left the queue. -/
def forwarded (C : Crypto) (pool : TxPool) (a : Address) (l : TxList) : TxPool :=
  (pool.setQueue a (pool.oldsOf a l).1).forgetAll C (pool.oldsOf a l).2

/-- The pool after the unpayable transactions have left the queue as well. -/
def cleaned (C : Crypto) (ord : RangeOrder) (pool : TxPool) (a : Address) (l : TxList) : TxPool :=
  ((pool.forwarded C a l).setQueue a (pool.dropsOf ord a l).1).forgetAll C
    (pool.dropsOf ord a l).2.1

/-- The pool after the executable transactions have become pending. -/
def advanced (C : Crypto) (ord : RangeOrder) (now : ℤ) (pool : TxPool) (a : Address)
    (l : TxList) : TxPool :=
  ((pool.cleaned C ord a l).setQueue a (pool.readiesOf ord a l).1).promotedAll C now
    (pool.readiesOf ord a l).2

/-- The pool after the rest of the queue has been capped. -/
def capped (C : Crypto) (ord : RangeOrder) (pool : TxPool) (a : Address)
    (caps : TxList × List Transaction) (count : ℕ) : TxPool :=
  (((pool.setQueue a caps.1).forgetAll C caps.2).pricedRemoved ord count).dropEmptyQueue a caps.1

variable {caps : TxList × List Transaction} {count : ℕ} {n : UInt64} {t : Transaction}

@[simp] theorem capped_pending : (pool.capped C ord a caps count).pending = pool.pending := rfl

@[simp] theorem capped_pendingNonces :
    (pool.capped C ord a caps count).pendingNonces = pool.pendingNonces := rfl

theorem cleaned_queue : (pool.cleaned C ord a l).queue.lookup a = some (pool.dropsOf ord a l).1 :=
  AList.lookup_insert _

theorem Sound.cleaned (ord : RangeOrder) (h : Sound C pool []) (hl : pool.queue.lookup a = some l) :
    allRemoveTxs C (pool.setQueue a (pool.oldsOf a l).1) (pool.oldsOf a l).2 =
        some (pool.forwarded C a l) ∧
      allRemoveTxs C ((pool.forwarded C a l).setQueue a (pool.dropsOf ord a l).1)
        (pool.dropsOf ord a l).2.1 = some (pool.cleaned C ord a l) ∧
      pool.all.Leaves C ((pool.oldsOf a l).2 ++ (pool.dropsOf ord a l).2.1) ∧
      Sound C (pool.cleaned C ord a l) [] := by
  have hset := h.setQueue hl (l.forward_drops (pool.currentState.getNonce a))
  have hforward := allRemoveTxs_held hset
  have hd := (pool.oldsOf a l).1.filter_drops ord (pool.currentState.getBalance a)
    pool.currentMaxGas
  have hstrict : (pool.oldsOf a l).1.strict = false :=
    (l.forward_drops _).2.trans (h.queue_strict hl)
  rw [TxList.filter_invalids _ _ _ hstrict, List.append_nil] at hd
  have hset' := hforward.2.setQueue (AList.lookup_insert _) hd
  have hdrop := allRemoveTxs_held hset'
  exact ⟨hforward.1, hdrop.1, TxLookup.Leaves.append hset.leaves hset'.leaves, hdrop.2⟩

theorem readies_sender (h : Sound C pool []) (hl : pool.queue.lookup a = some l) :
    ∀ t ∈ (pool.readiesOf ord a l).2, C.poolSender t = a := by
  intro t ht
  have hclean := (h.cleaned ord hl).2.2.2
  have hget := ((pool.dropsOf ord a l).1.ready_drops (pool.pendingNonces.get a)).get_of_mem ht
  have hat : listAt (pool.cleaned C ord a l).queue (a, t.accountNonce) = some t :=
    (listAt_of_lookup cleaned_queue _).trans hget
  exact congrArg Prod.fst (hclean.shelved.right_place hat)

theorem Sound.advanced (ord : RangeOrder) (now : ℤ) (h : Sound C pool [])
    (hl : pool.queue.lookup a = some l) :
    promoteTxs C ord now a ((pool.cleaned C ord a l).setQueue a (pool.readiesOf ord a l).1)
        (pool.readiesOf ord a l).2 = some (pool.advanced C ord now a l) ∧
      Sound C (pool.advanced C ord now a l) [] := by
  have hclean := (h.cleaned ord hl).2.2.2
  exact promoteTxs_held ord now (hclean.setQueue cleaned_queue
    ((pool.dropsOf ord a l).1.ready_drops _)) (readies_sender h hl)

theorem advanced_books : (pool.advanced C ord now a l).books = (pool.cleaned C ord a l).books :=
  promotedAll_frame (f := books) fun _ _ => rfl

theorem advanced_queue : (pool.advanced C ord now a l).queue =
    ((pool.cleaned C ord a l).setQueue a (pool.readiesOf ord a l).1).queue :=
  promotedAll_frame (f := queue) fun _ _ => rfl

theorem advanced_lookup : (pool.advanced C ord now a l).queue.lookup a =
    some (pool.readiesOf ord a l).1 := by
  rw [advanced_queue]
  exact AList.lookup_insert _

theorem capQueue_drops (h : pool.capQueue a l = some caps) : l.Drops caps.1 caps.2 := by
  unfold capQueue at h
  split_ifs at h
  · obtain rfl := Option.some.inj h
    exact TxList.Drops.refl l
  · obtain rfl := Option.some.inj h
    exact l.cap_drops _

theorem promoteAccount_eq (ord : RangeOrder) (now : ℤ) (h : Sound C pool [])
    (hl : pool.queue.lookup a = some l) :
    pool.promoteAccount C ord now a =
      ((pool.advanced C ord now a l).capQueue a (pool.readiesOf ord a l).1).map fun caps =>
        (pool.advanced C ord now a l).capped C ord a caps
          ((pool.oldsOf a l).2.length + (pool.dropsOf ord a l).2.1.length + caps.2.length) := by
  obtain ⟨hforward, hdrop, -⟩ := h.cleaned ord hl
  obtain ⟨hready, hadv⟩ := h.advanced ord now hl
  have hf : l.forward (pool.currentState.getNonce a) = pool.oldsOf a l := rfl
  simp only [promoteAccount, hl, hf, hforward, Option.bind_eq_bind, Option.bind_some]
  have hd : (pool.oldsOf a l).1.filter ord ((pool.forwarded C a l).currentState.getBalance a)
      (pool.forwarded C a l).currentMaxGas = pool.dropsOf ord a l := rfl
  simp only [hd, hdrop, Option.bind_some]
  have hr : (pool.dropsOf ord a l).1.ready ((pool.cleaned C ord a l).pendingNonces.get a) =
      pool.readiesOf ord a l := rfl
  simp only [hr, hready, Option.bind_some]
  cases hcaps : (pool.advanced C ord now a l).capQueue a (pool.readiesOf ord a l).1 with
  | none => rfl
  | some caps =>
    have hcapped := allRemoveTxs_held (hadv.setQueue advanced_lookup (capQueue_drops hcaps))
    simp only [Option.bind_some, hcapped.1, Option.map_some]
    rfl

theorem advanced_same : Same pool (pool.advanced C ord now a l) := by
  have h : Same pool ((pool.cleaned C ord a l).setQueue a (pool.readiesOf ord a l).1) := by
    constructor <;> simp only [TxPool.setQueue, TxPool.cleaned, forwarded, forgetAll]
  exact h.trans ⟨promotedAll_frame (f := config) fun _ _ => rfl,
    promotedAll_frame (f := currentState) fun _ _ => rfl,
    promotedAll_frame (f := currentMaxGas) fun _ _ => rfl⟩

theorem capped_same : Same pool (pool.capped C ord a caps count) := by
  constructor <;> simp only [TxPool.capped, TxPool.dropEmptyQueue, pricedRemoved, forgetAll,
    TxPool.setQueue]

theorem Tidy.advanced (h : Tidy pool none none) (hl : pool.queue.lookup a = some l) :
    Tidy (pool.advanced C ord now a l) none (some a) := by
  have hforward : Tidy (pool.forwarded C a l) none (some a) :=
    (h.setQueue (by simp) hl _).congr rfl rfl rfl
  have hclean : Tidy (pool.cleaned C ord a l) none (some a) :=
    (hforward.setQueue (by simp) (AList.lookup_insert _) _).congr rfl rfl rfl
  exact (hclean.setQueue (by simp) cleaned_queue _).promotedAll

theorem Good.capped (h : Sound C pool []) (ht : Tidy pool none (some a))
    (hl : pool.queue.lookup a = some l) (hd : l.Drops caps.1 caps.2) (count : ℕ) :
    Good C (pool.capped C ord a caps count) := by
  have hsound :
      Sound C (((pool.setQueue a caps.1).forgetAll C caps.2).pricedRemoved ord count) [] :=
    (allRemoveTxs_held (h.setQueue hl hd)).2.congr rfl rfl rfl
  have htidy : Tidy (((pool.setQueue a caps.1).forgetAll C caps.2).pricedRemoved ord count) none
      (some a) := (ht.setQueue (by simp) hl caps.1).congr rfl rfl rfl
  exact ⟨hsound.dropEmptyQueue (AList.lookup_insert _),
    htidy.dropEmptyQueue (AList.lookup_insert _)⟩

/-- The old, the unpayable and the capped transactions of the queue leave. -/
theorem promoteAccount_books (h : Good C pool) (hl : pool.queue.lookup a = some l)
    (hr : pool.promoteAccount C ord now a = some pool') :
    ∃ txs, pool.all.Leaves C ((pool.oldsOf a l).2 ++ txs) ∧ pool'.books = { pool.books with
      all := pool.all.dropAll C ((pool.oldsOf a l).2 ++ txs)
      priced := pool.priced.removed ord (pool.all.dropAll C ((pool.oldsOf a l).2 ++ txs))
        ((pool.oldsOf a l).2 ++ txs).length } := by
  rw [promoteAccount_eq ord now h.sound hl, Option.map_eq_some_iff] at hr
  obtain ⟨caps, hcaps, rfl⟩ := hr
  have hset := (h.sound.advanced ord now hl).2.setQueue advanced_lookup (capQueue_drops hcaps)
  have hall : (pool.advanced C ord now a l).all =
      pool.all.dropAll C ((pool.oldsOf a l).2 ++ (pool.dropsOf ord a l).2.1) :=
    (congrArg Books.all advanced_books).trans TxLookup.dropAll_append.symm
  have hpriced : (pool.advanced C ord now a l).priced = pool.priced :=
    congrArg Books.priced advanced_books
  have hlocals : (pool.advanced C ord now a l).locals = pool.locals :=
    congrArg Books.locals advanced_books
  refine ⟨(pool.dropsOf ord a l).2.1 ++ caps.2, ?_, ?_⟩
  · rw [← List.append_assoc]
    refine (h.sound.cleaned ord hl).2.2.1.append ?_
    rw [← hall]
    exact hset.leaves
  · simp only [books, TxPool.capped, TxPool.dropEmptyQueue, pricedRemoved, forgetAll,
      TxPool.setQueue, hall, hpriced, hlocals, ← TxLookup.dropAll_append,
      List.length_append, List.append_assoc, Nat.add_assoc]

theorem promoteAccount_keeps (h : Good C pool)
    (hr : pool.promoteAccount C ord now a = some pool') :
    Kept C [] pool pool' ∧ Same pool pool' := by
  cases hl : pool.queue.lookup a with
  | none =>
    simp only [promoteAccount, hl] at hr
    obtain rfl := Option.some.inj hr
    exact ⟨.refl h, Same.refl _⟩
  | some l =>
    obtain ⟨txs, hleaves, hbooks⟩ := promoteAccount_books h hl hr
    rw [promoteAccount_eq ord now h.sound hl, Option.map_eq_some_iff] at hr
    obtain ⟨caps, hcaps, rfl⟩ := hr
    exact ⟨⟨Good.capped (h.sound.advanced ord now hl).2 (h.tidy.advanced hl) advanced_lookup
      (capQueue_drops hcaps) _, hbooks ▸ (Act.left ord hleaves).history⟩,
      advanced_same.trans capped_same⟩

theorem get_dropsOf (h : Sound C pool []) (hl : pool.queue.lookup a = some l) :
    (pool.dropsOf ord a l).1.get n = some t ↔
      listAt pool.queue (a, n) = some t ∧ pool.currentState.getNonce a ≤ n ∧
        TxList.unpayable (pool.currentState.getBalance a) pool.currentMaxGas t = false := by
  have hstrict : (pool.oldsOf a l).1.strict = false :=
    (l.forward_drops _).2.trans (h.queue_strict hl)
  rw [dropsOf, TxList.get_filter_of_not_strict hstrict, oldsOf, TxList.get_forward,
    listAt_of_lookup hl, and_assoc]

/-- The pending lists and the pool nonces after a promotion. -/
theorem promoteAccount_spec (h : Good C pool) (hl : pool.queue.lookup a = some l)
    (hr : pool.promoteAccount C ord now a = some pool') :
    (∀ c t, listAt pool'.pending c = some t ↔
        listAt pool.pending c = some t ∨ (t ∈ (pool.readiesOf ord a l).2 ∧ C.cell t = c)) ∧
      (∀ b, pool'.pendingNonces.get b = if b = a then
        ((pool.readiesOf ord a l).2.getLast?.map fun tx => tx.accountNonce + 1).getD
          (pool.pendingNonces.get a) else pool.pendingNonces.get b) ∧
      ∀ b, b ≠ a → pool'.queue.lookup b = pool.queue.lookup b := by
  rw [promoteAccount_eq ord now h.sound hl, Option.map_eq_some_iff] at hr
  obtain ⟨caps, -, rfl⟩ := hr
  have hready : Sound C ((pool.cleaned C ord a l).setQueue a (pool.readiesOf ord a l).1)
      ((pool.readiesOf ord a l).2 ++ []) :=
    (h.sound.cleaned ord hl).2.2.2.setQueue cleaned_queue
      ((pool.dropsOf ord a l).1.ready_drops (pool.pendingNonces.get a))
  refine ⟨fun c t => ?_, fun b => ?_, fun b hb => ?_⟩
  · rw [capped_pending, advanced, listAt_promotedAll hready]
    simp only [TxPool.setQueue, TxPool.cleaned, forwarded, forgetAll]
  · rw [capped_pendingNonces, advanced, get_pendingNonces_promotedAll (readies_sender h.sound hl)]
    simp only [TxPool.setQueue, TxPool.cleaned, forwarded, forgetAll]
  have hqueue : (pool.advanced C ord now a l).queue.lookup b = pool.queue.lookup b := by
    rw [advanced_queue]
    simp only [TxPool.setQueue, TxPool.cleaned, forwarded, forgetAll, GoMap.lookup_insert_eq,
      if_neg hb]
  have hset : ((pool.advanced C ord now a l).setQueue a caps.1).queue.lookup b =
      pool.queue.lookup b := by
    rw [← hqueue]
    simp only [TxPool.setQueue, GoMap.lookup_insert_eq, if_neg hb]
  simp only [TxPool.capped, TxPool.dropEmptyQueue, pricedRemoved, forgetAll]
  split_ifs
  · rw [GoMap.lookup_erase_eq, if_neg hb, hset]
  · exact hset

/-- The queue of the account does not grow. -/
theorem promoteAccount_queueLen (h : Good C pool) (hl : pool.queue.lookup a = some l)
    (hr : pool.promoteAccount C ord now a = some pool') :
    (pool'.queue.lookup a).elim 0 TxList.len ≤ l.len := by
  rw [promoteAccount_eq ord now h.sound hl, Option.map_eq_some_iff] at hr
  obtain ⟨caps, hcaps, rfl⟩ := hr
  have hforward := (l.forward_drops (pool.currentState.getNonce a)).len_eq
  have hdrop := ((pool.oldsOf a l).1.filter_drops ord (pool.currentState.getBalance a)
    pool.currentMaxGas).len_eq
  have hready := ((pool.dropsOf ord a l).1.ready_drops (pool.pendingNonces.get a)).len_eq
  have hcap := (capQueue_drops hcaps).len_eq
  have hle : caps.1.len ≤ l.len := by
    simp only [oldsOf, dropsOf, readiesOf] at hforward hdrop hready hcap
    omega
  simp only [TxPool.capped, TxPool.dropEmptyQueue, pricedRemoved, forgetAll, TxPool.setQueue]
  split_ifs
  · rw [GoMap.lookup_erase_eq, if_pos rfl]
    exact Nat.zero_le _
  · rw [GoMap.lookup_insert_eq, if_pos rfl]
    exact hle

/-- A promotion fails only on a limit for the queue that is negative as an `int`. -/
theorem promoteAccount_isSome (ord : RangeOrder) (now : ℤ) (h : Good C pool)
    (hl : pool.queue.lookup a = some l) :
    (∃ pool', pool.promoteAccount C ord now a = some pool') ↔
      AccountSet.contains pool.locals a = true ∨ 0 ≤ goInt pool.config.accountQueue := by
  have hconfig : (pool.advanced C ord now a l).config = pool.config := advanced_same.config
  have hlocals : (pool.advanced C ord now a l).locals = pool.locals :=
    congrArg Books.locals advanced_books
  simp only [promoteAccount_eq ord now h.sound hl, Option.map_eq_some_iff, capQueue,
    hlocals, hconfig]
  split_ifs with hloc hneg
  · simp [hloc]
  · simp [hloc, hneg]
  · simp [hloc, Int.not_lt.1 hneg]

theorem promoteExecutables_keeps (h : Good C pool) {accounts : List Address}
    (hr : promoteExecutables C ord now pool accounts = some pool') :
    Kept C [] pool pool' ∧ Same pool pool' := by
  induction accounts generalizing pool with
  | nil =>
    obtain rfl := Option.some.inj hr
    exact ⟨.refl h, Same.refl _⟩
  | cons a accounts ih =>
    obtain ⟨pool₁, hpool₁, hr⟩ := Option.bind_eq_some_iff.1 hr
    obtain ⟨hg, hsame⟩ := promoteAccount_keeps h hpool₁
    obtain ⟨hg', hsame'⟩ := ih hg.toGood hr
    exact ⟨hg.quiet hg', hsame.trans hsame'⟩

/-! ## Demotion -/

/-- The pending transactions of an account behind a gap. -/
def gappedOf (ord : RangeOrder) (pool : TxPool) (a : Address) (l : TxList) :
    TxList × List Transaction :=
  demoteGapped (pool.currentState.getNonce a) (pool.dropsOf ord a l).1

/-- The pool after the old transactions have left the pending list. -/
def aged (C : Crypto) (pool : TxPool) (a : Address) (l : TxList) : TxPool :=
  (pool.setPending a (pool.oldsOf a l).1).forgetAll C (pool.oldsOf a l).2

/-- The pool after the unpayable transactions have left the pending list as well. -/
def pruned (C : Crypto) (ord : RangeOrder) (pool : TxPool) (a : Address) (l : TxList) : TxPool :=
  ((pool.aged C a l).setPending a (pool.dropsOf ord a l).1).forgetAll C
    (pool.dropsOf ord a l).2.1

/-- The pool after the transactions behind the unpayable ones have gone back to the queue. -/
def requeued (C : Crypto) (ord : RangeOrder) (now : ℤ) (pool : TxPool) (a : Address)
    (l : TxList) : TxPool :=
  ((pool.pruned C ord a l).pricedRemoved ord ((pool.oldsOf a l).2.length +
    (pool.dropsOf ord a l).2.1.length)).requeueAll C now (pool.dropsOf ord a l).2.2

/-- The pool after the transactions behind a gap have gone back to the queue as well. -/
def demoted (C : Crypto) (ord : RangeOrder) (now : ℤ) (pool : TxPool) (a : Address)
    (l : TxList) : TxPool :=
  (((pool.requeued C ord now a l).setPending a (pool.gappedOf ord a l).1).requeueAll C now
    (pool.gappedOf ord a l).2).storePending a (pool.gappedOf ord a l).1

theorem demoteGapped_drops (nonce : UInt64) (l : TxList) :
    l.Drops (demoteGapped nonce l).1 (demoteGapped nonce l).2 := by
  unfold demoteGapped
  split_ifs
  · exact l.cap_drops 0
  · exact TxList.Drops.refl l

theorem Sound.pruned (ord : RangeOrder) (h : Sound C pool [])
    (hl : pool.pending.lookup a = some l) :
    allRemoveTxs C (pool.setPending a (pool.oldsOf a l).1) (pool.oldsOf a l).2 =
        some (pool.aged C a l) ∧
      allRemoveTxs C ((pool.aged C a l).setPending a (pool.dropsOf ord a l).1)
        (pool.dropsOf ord a l).2.1 = some (pool.pruned C ord a l) ∧
      pool.all.Leaves C ((pool.oldsOf a l).2 ++ (pool.dropsOf ord a l).2.1) ∧
      Sound C (pool.pruned C ord a l) ((pool.dropsOf ord a l).2.2 ++ []) := by
  have hset := h.setPending hl (l.forward_drops (pool.currentState.getNonce a))
  have hold := allRemoveTxs_held hset
  have hd := (pool.oldsOf a l).1.filter_drops ord (pool.currentState.getBalance a)
    pool.currentMaxGas
  have hset' := hold.2.setPending (AList.lookup_insert _) hd
  rw [List.append_assoc] at hset'
  have hdrop := allRemoveTxs_held hset'
  exact ⟨hold.1, hdrop.1, TxLookup.Leaves.append hset.leaves hset'.leaves, hdrop.2⟩

theorem requeued_pending :
    (pool.requeued C ord now a l).pending.lookup a = some (pool.dropsOf ord a l).1 := by
  rw [requeued, requeueAll_pending]
  exact AList.lookup_insert _

theorem demoteAccount_eq (ord : RangeOrder) (now : ℤ) (h : Sound C pool [])
    (hl : pool.pending.lookup a = some l) :
    pool.demoteAccount C ord now a = some (pool.demoted C ord now a l) ∧
      Sound C (pool.demoted C ord now a l) [] := by
  obtain ⟨hold, hdrop, -, hpruned⟩ := h.pruned ord hl
  have hq := enqueueTxs_held ord now (hpruned.congr rfl rfl rfl : Sound C
    ((pool.pruned C ord a l).pricedRemoved ord ((pool.oldsOf a l).2.length +
      (pool.dropsOf ord a l).2.1.length)) ((pool.dropsOf ord a l).2.2 ++ []))
  have hgap := enqueueTxs_held ord now (hq.2.setPending requeued_pending
    (demoteGapped_drops (pool.currentState.getNonce a) _))
  have hlookup : (((pool.requeued C ord now a l).setPending a
      (pool.gappedOf ord a l).1).requeueAll C now (pool.gappedOf ord a l).2).pending.lookup a =
        some (pool.gappedOf ord a l).1 := by
    rw [requeueAll_pending]
    exact AList.lookup_insert _
  refine ⟨?_, (hgap.2.setPending hlookup (TxList.Drops.refl _)).storePending⟩
  have ho : l.forward (pool.currentState.getNonce a) = pool.oldsOf a l := rfl
  simp only [demoteAccount, hl, ho, hold, Option.bind_eq_bind, Option.bind_some]
  have hd : (pool.oldsOf a l).1.filter ord ((pool.aged C a l).currentState.getBalance a)
      (pool.aged C a l).currentMaxGas = pool.dropsOf ord a l := rfl
  have hg : demoteGapped (pool.currentState.getNonce a) (pool.dropsOf ord a l).1 =
      pool.gappedOf ord a l := rfl
  rw [hg] at hgap
  simp only [hd, hdrop, hq.1, hg, Option.bind_some]
  exact Option.bind_eq_some_iff.2 ⟨_, hgap.1, rfl⟩

theorem demoted_books : (pool.demoted C ord now a l).books = { pool.books with
    all := pool.all.dropAll C ((pool.oldsOf a l).2 ++ (pool.dropsOf ord a l).2.1)
    priced := pool.priced.removed ord
      (pool.all.dropAll C ((pool.oldsOf a l).2 ++ (pool.dropsOf ord a l).2.1))
      ((pool.oldsOf a l).2 ++ (pool.dropsOf ord a l).2.1).length } := by
  have hstore : (pool.demoted C ord now a l).books = (((pool.requeued C ord now a l).setPending a
      (pool.gappedOf ord a l).1).requeueAll C now (pool.gappedOf ord a l).2).books := rfl
  have hset : ((pool.requeued C ord now a l).setPending a (pool.gappedOf ord a l).1).books =
      (pool.requeued C ord now a l).books := rfl
  rw [hstore, requeueAll_books, hset, requeued, requeueAll_books]
  simp only [books, TxPool.pruned, aged, pricedRemoved, forgetAll, TxPool.setPending,
    ← TxLookup.dropAll_append, List.length_append]

theorem demoted_same : Same pool (pool.demoted C ord now a l) := by
  have hpruned : Same pool ((pool.pruned C ord a l).pricedRemoved ord
      ((pool.oldsOf a l).2.length + (pool.dropsOf ord a l).2.1.length)) := by
    constructor <;> simp only [TxPool.pruned, aged, pricedRemoved, forgetAll, TxPool.setPending]
  have hq : Same pool (pool.requeued C ord now a l) := hpruned.trans (requeueAll_same C now _ _)
  have hset : Same pool ((pool.requeued C ord now a l).setPending a (pool.gappedOf ord a l).1) :=
    hq.trans ⟨rfl, rfl, rfl⟩
  exact (hset.trans (requeueAll_same C now _ (pool.gappedOf ord a l).2)).trans ⟨rfl, rfl, rfl⟩

theorem Tidy.demoted (h : Tidy pool none none) : Tidy (pool.demoted C ord now a l) none none := by
  have hold : Tidy (pool.aged C a l) (some a) none := (h.setPending (by simp) _).congr rfl rfl rfl
  have hpruned : Tidy ((pool.pruned C ord a l).pricedRemoved ord ((pool.oldsOf a l).2.length +
      (pool.dropsOf ord a l).2.1.length)) (some a) none :=
    (hold.setPending (by simp) _).congr rfl rfl rfl
  have hq : Tidy (pool.requeued C ord now a l) (some a) none := hpruned.requeueAll
  have hgap : Tidy (((pool.requeued C ord now a l).setPending a
      (pool.gappedOf ord a l).1).requeueAll C now (pool.gappedOf ord a l).2) (some a) none :=
    (hq.setPending (by simp) _).requeueAll
  exact (hgap.setPending (by simp) _).storePending

/-- A list with a gap in front keeps nothing. -/
theorem get_demoteGapped {nonce : UInt64} :
    (demoteGapped nonce l).1.get n = some t ↔ l.get n = some t ∧ ∃ t', l.get nonce = some t' := by
  unfold demoteGapped
  split_ifs with hgap
  · have hlen : (l.cap 0).1.len = 0 := (l.txs.cap_len 0).trans (by simp)
    rw [TxList.len_eq_zero_iff.1 hlen, Option.isNone_iff_eq_none.1 hgap.2]
    simp
  · refine ⟨fun ht => ⟨ht, ?_⟩, And.left⟩
    by_contra hnone
    refine hgap ⟨Nat.pos_of_ne_zero (TxList.len_ne_zero_of_get ht), ?_⟩
    rw [Option.isNone_iff_eq_none, Option.eq_none_iff_forall_ne_some]
    exact fun t' ht' => hnone ⟨t', ht'⟩

theorem get_dropsOf_pending (h : Sound C pool []) (hl : pool.pending.lookup a = some l) :
    (pool.dropsOf ord a l).1.get n = some t ↔
      (l.get n = some t ∧ pool.currentState.getNonce a ≤ n) ∧
        ∀ n' t', l.get n' = some t' ∧ pool.currentState.getNonce a ≤ n' →
          TxList.unpayable (pool.currentState.getBalance a) pool.currentMaxGas t' = true →
            n < n' := by
  have hstrict : (pool.oldsOf a l).1.strict = true :=
    (l.forward_drops _).2.trans (h.pending_strict hl)
  rw [dropsOf, TxList.get_filter_of_strict hstrict]
  simp only [oldsOf, TxList.get_forward]

/-- The pending lists after a demotion. -/
theorem listAt_demoted (c : Address × UInt64) : listAt (pool.demoted C ord now a l).pending c =
    if c.1 = a then (pool.gappedOf ord a l).1.get c.2 else listAt pool.pending c := by
  rw [demoted, listAt_storePending, requeueAll_pending, listAt_insert]
  by_cases hc : c.1 = a
  · rw [if_pos hc, if_pos hc]
  · rw [if_neg hc, if_neg hc]
    simp only [TxPool.setPending, requeued, requeueAll_pending, TxPool.pruned, aged,
      pricedRemoved, forgetAll, listAt_insert, if_neg hc]

theorem demoted_pendingNonces :
    (pool.demoted C ord now a l).pendingNonces = pool.pendingNonces := by
  simp only [TxPool.demoted, TxPool.storePending, TxPool.setPending, requeueAll_nonces, requeued,
    TxPool.pruned, aged, pricedRemoved, forgetAll]

theorem demoteAccount_keeps (h : Good C pool)
    (hr : pool.demoteAccount C ord now a = some pool') :
    Kept C [] pool pool' ∧ Same pool pool' := by
  cases hl : pool.pending.lookup a with
  | none =>
    simp only [demoteAccount, hl] at hr
    obtain rfl := Option.some.inj hr
    exact ⟨.refl h, Same.refl _⟩
  | some l =>
    obtain ⟨heq, hs⟩ := demoteAccount_eq ord now h.sound hl
    obtain rfl := Option.some.inj (heq.symm.trans hr)
    exact ⟨⟨⟨hs, h.tidy.demoted⟩,
      demoted_books ▸ (Act.left ord (h.sound.pruned ord hl).2.2.1).history⟩, demoted_same⟩

theorem demoteAccounts_keeps (h : Good C pool) {accounts : List Address}
    (hr : demoteAccounts C ord now pool accounts = some pool') :
    Kept C [] pool pool' ∧ Same pool pool' := by
  induction accounts generalizing pool with
  | nil =>
    obtain rfl := Option.some.inj hr
    exact ⟨.refl h, Same.refl _⟩
  | cons a accounts ih =>
    obtain ⟨pool₁, hpool₁, hr⟩ := Option.bind_eq_some_iff.1 hr
    obtain ⟨hg, hsame⟩ := demoteAccount_keeps h hpool₁
    obtain ⟨hg', hsame'⟩ := ih hg.toGood hr
    exact ⟨hg.quiet hg', hsame.trans hsame'⟩

end Benzene.TxPool
