import Benzene.Common.Shelves
import Benzene.Core.AccountView
import Benzene.Core.TxPool

/-!
# Moving transactions in the pool

`Sound C pool held` is the invariant of the pool while the transactions `held` have left one list
and not yet reached another: the lookup table has exactly the listed and the held transactions,
each account and nonce has one place, and the slots are counted.  `Tidy` says that no list is
empty and that every queue has a heartbeat; an account whose lists are being worked on may be
excepted.

Every routine of the pool is made of a few moves, and each move has an equation (under `Sound`
the source's tests are decided) and keeps both invariants:

* `forgetAll`: held transactions leave the table (`allRemoveTxs_held`);
* `requeue`, `requeueAll`: held transactions go to the queue (`enqueueTxs_held`);
* `promoted`, `promotedAll`: held transactions become pending (`promoteTxs_held`);
* `setPending`, `setQueue`, `storePending`, `dropEmptyQueue`: a list is written back, and what it
  has lost is held.
-/

namespace Benzene

/-- The transaction of an account with a nonce. -/
def listAt (m : GoMap Address TxList) (c : Address × UInt64) : Option Transaction :=
  (m.lookup c.1).bind fun l => l.get c.2

/-- The account and the nonce of a transaction. -/
def Crypto.cell (C : Crypto) (tx : Transaction) : Address × UInt64 :=
  (C.poolSender tx, tx.accountNonce)

section ListAt

variable {C : Crypto} {m : GoMap Address TxList} {a : Address} {l l' : TxList}
  {removed : List Transaction}

theorem listAt_of_lookup (h : m.lookup a = some l) (n : UInt64) : listAt m (a, n) = l.get n := by
  simp [listAt, h]

theorem listAt_eq_some {c : Address × UInt64} {t : Transaction} :
    listAt m c = some t ↔ ∃ l, m.lookup c.1 = some l ∧ l.get c.2 = some t := by
  simp [listAt, Option.bind_eq_some_iff]

theorem listAt_insert (m : GoMap Address TxList) (a : Address) (l : TxList)
    (c : Address × UInt64) :
    listAt (m.insert a l) c = if c.1 = a then l.get c.2 else listAt m c := by
  rw [listAt, GoMap.lookup_insert_eq]
  split_ifs <;> rfl

theorem listAt_erase (m : GoMap Address TxList) (a : Address) (c : Address × UInt64) :
    listAt (m.erase a) c = if c.1 = a then none else listAt m c := by
  rw [listAt, GoMap.lookup_erase_eq]
  split_ifs <;> rfl

/-- An empty list may as well be deleted. -/
theorem listAt_erase_of_empty (h : l.len = 0) :
    listAt (m.erase a) = listAt (m.insert a l) := by
  funext c
  rw [listAt_erase, listAt_insert, TxList.len_eq_zero_iff.1 h]

theorem listAt_getD (m : GoMap Address TxList) (a : Address) (strict : Bool) (n : UInt64) :
    ((m.lookup a).getD (.new strict)).get n = listAt m (a, n) := by
  cases h : m.lookup a <;> simp [listAt, h]

/-- A list that has lost some transactions is written back. -/
theorem listAt_insert_drops (hown : ∀ {c t}, listAt m c = some t → C.cell t = c)
    (hl : m.lookup a = some l) (hd : l.Drops l' removed) (c : Address × UInt64)
    (t : Transaction) :
    listAt (m.insert a l') c = some t ↔ listAt m c = some t ∧ t ∉ removed := by
  obtain ⟨b, n⟩ := c
  rw [listAt_insert]
  by_cases hb : b = a
  · subst hb
    rw [if_pos rfl, listAt_of_lookup hl, hd.get_iff]
  · rw [if_neg hb]
    constructor
    · intro ht
      refine ⟨ht, fun hr => hb ?_⟩
      have hat : listAt m (a, t.accountNonce) = some t := by
        rw [listAt_of_lookup hl]
        exact hd.get_of_mem hr
      have hcell := (hown ht).symm.trans (hown hat)
      exact congrArg Prod.fst hcell
    · exact And.left

/-- A transaction is added to the list of its sender. -/
theorem listAt_insert_put (m : GoMap Address TxList) (tx : Transaction) (strict : Bool)
    (c : Address × UInt64) :
    listAt (m.insert (C.poolSender tx) (((m.lookup (C.poolSender tx)).getD (.new strict)).put tx))
      c = if c = C.cell tx then some tx else listAt m c := by
  obtain ⟨b, n⟩ := c
  rw [listAt_insert, TxList.get_put, listAt_getD, Crypto.cell]
  by_cases hb : b = C.poolSender tx
  · by_cases hn : n = tx.accountNonce <;> simp [hb, hn]
  · simp [hb]

end ListAt

/-! ## The lookup table -/

namespace TxLookup

variable (C : Crypto)

/-- The slot counter is the number of slots of the transactions. -/
def Tallied (t : TxLookup) : Prop :=
  t.slots = ((GoMap.values t.all).map fun tx => (numSlots tx : ℤ)).sum

/-- The table without a transaction that it has. -/
def drop (t : TxLookup) (tx : Transaction) : TxLookup :=
  ⟨t.all.erase (C.txHash tx), t.slots - numSlots tx⟩

/-- The table without some transactions that it has. -/
def dropAll (t : TxLookup) (txs : List Transaction) : TxLookup := txs.foldl (drop C) t

variable {C} {t : TxLookup} {tx : Transaction}

theorem remove_eq (h : t.get (C.txHash tx) = some tx) :
    t.remove (C.txHash tx) = some (t.drop C tx) := by
  rw [remove, h]
  rfl

theorem get_drop (t : TxLookup) (tx : Transaction) (hash : Hash) :
    (t.drop C tx).get hash = if hash = C.txHash tx then none else t.get hash :=
  GoMap.lookup_erase_eq _ _ _

theorem get_add (t : TxLookup) (tx : Transaction) (hash : Hash) :
    (t.add C tx).get hash = if hash = C.txHash tx then some tx else t.get hash :=
  GoMap.lookup_insert_eq _ _ _ _

theorem Tallied.drop (h : t.Tallied) (htx : t.get (C.txHash tx) = some tx) :
    (t.drop C tx).Tallied := by
  have hsum := ((GoMap.values_perm_of_lookup htx).map fun tx => (numSlots tx : ℤ)).sum_eq
  unfold Tallied at h ⊢
  rw [List.map_cons, List.sum_cons] at hsum
  simp only [TxLookup.drop]
  omega

theorem Tallied.add (h : t.Tallied) (htx : t.get (C.txHash tx) = none) :
    (t.add C tx).Tallied := by
  have hvalues : GoMap.values (t.add C tx).all = tx :: GoMap.values t.all := by
    rw [TxLookup.add, GoMap.values_insert, GoMap.erase_of_lookup_eq_none htx]
  unfold Tallied at h ⊢
  rw [hvalues, List.map_cons, List.sum_cons, ← h]
  simp only [TxLookup.add]
  omega

theorem count_add (h : t.get (C.txHash tx) = none) : (t.add C tx).count = t.count + 1 := by
  simp only [count, GoMap.size_eq_length_values, TxLookup.add, GoMap.values_insert,
    GoMap.erase_of_lookup_eq_none h, List.length_cons]

end TxLookup

/-! ## The invariants -/

namespace TxPool

variable (C : Crypto) (ord : RangeOrder) (now : ℤ)

/-- What the pool knows of an account. -/
def view (pool : TxPool) (a : Address) : AccountView where
  pending n := listAt pool.pending (a, n)
  queue n := listAt pool.queue (a, n)
  poolNonce := pool.pendingNonces.get a
  stateNonce := pool.currentState.getNonce a
  balance := pool.currentState.getBalance a
  maxGas := pool.currentMaxGas

/-- The lookup table has exactly the listed and the held transactions. -/
structure Sound (pool : TxPool) (held : List Transaction) : Prop where
  shelved : Shelved C.cell C.txHash (listAt pool.pending) (listAt pool.queue) pool.all.get held
  tallied : pool.all.Tallied
  pending_strict : ∀ {a l}, pool.pending.lookup a = some l → l.strict = true
  queue_strict : ∀ {a l}, pool.queue.lookup a = some l → l.strict = false

/-- No list is empty, except a pending list of `pendingOf` and a queue of `queueOf`, and every
    queue has a heartbeat. -/
structure Tidy (pool : TxPool) (pendingOf queueOf : Option Address) : Prop where
  pending_ne : ∀ {a l}, pool.pending.lookup a = some l → some a ≠ pendingOf → l.len ≠ 0
  queue_ne : ∀ {a l}, pool.queue.lookup a = some l → some a ≠ queueOf → l.len ≠ 0
  beats : ∀ {a l}, pool.queue.lookup a = some l → ∃ beat, pool.beats.lookup a = some beat

variable {C ord now} {pool pool' : TxPool} {held removed txs : List Transaction}
  {tx : Transaction} {a : Address} {l l' : TxList} {pendingOf queueOf : Option Address}

/-- Only the lists and the table matter. -/
theorem Sound.congr (h : Sound C pool held) (hpending : pool'.pending = pool.pending)
    (hqueue : pool'.queue = pool.queue) (hall : pool'.all = pool.all) : Sound C pool' held where
  shelved := by
    rw [hpending, hqueue, hall]
    exact h.shelved
  tallied := hall ▸ h.tallied
  pending_strict hl := h.pending_strict (hpending ▸ hl)
  queue_strict hl := h.queue_strict (hqueue ▸ hl)

theorem Tidy.congr (h : Tidy pool pendingOf queueOf) (hpending : pool'.pending = pool.pending)
    (hqueue : pool'.queue = pool.queue) (hbeats : pool'.beats = pool.beats) :
    Tidy pool' pendingOf queueOf where
  pending_ne hl := h.pending_ne (hpending ▸ hl)
  queue_ne hl := h.queue_ne (hqueue ▸ hl)
  beats hl := hbeats ▸ h.beats (hqueue ▸ hl)

variable {c : Address × UInt64}

/-- What is pending is in the table. -/
theorem Sound.get_of_pending (h : Sound C pool held) (ht : listAt pool.pending c = some tx) :
    pool.all.get (C.txHash tx) = some tx :=
  h.shelved.index_of_left ht

theorem Sound.get_of_queued (h : Sound C pool held) (ht : listAt pool.queue c = some tx) :
    pool.all.get (C.txHash tx) = some tx :=
  h.shelved.swap.index_of_left ht

/-! ### Lists that lose transactions -/

theorem Sound.setPending (h : Sound C pool held) (hl : pool.pending.lookup a = some l)
    (hd : l.Drops l' removed) : Sound C (pool.setPending a l') (removed ++ held) where
  shelved := by
    refine h.shelved.take (listAt_insert_drops h.shelved.left_place hl hd) ?_ hd.1.nodup
    intro t ht
    have hat : listAt pool.pending (a, t.accountNonce) = some t := by
      rw [listAt_of_lookup hl]
      exact hd.get_of_mem ht
    rwa [h.shelved.left_place hat]
  tallied := h.tallied
  pending_strict := GoMap.forall_insert h.pending_strict (hd.2.trans (h.pending_strict hl))
  queue_strict := h.queue_strict

theorem Sound.setQueue (h : Sound C pool held) (hl : pool.queue.lookup a = some l)
    (hd : l.Drops l' removed) : Sound C (pool.setQueue a l') (removed ++ held) where
  shelved := by
    refine (h.shelved.swap.take (listAt_insert_drops h.shelved.right_place hl hd) ?_
      hd.1.nodup).swap
    intro t ht
    have hat : listAt pool.queue (a, t.accountNonce) = some t := by
      rw [listAt_of_lookup hl]
      exact hd.get_of_mem ht
    rwa [h.shelved.right_place hat]
  tallied := h.tallied
  pending_strict := h.pending_strict
  queue_strict := GoMap.forall_insert h.queue_strict (hd.2.trans (h.queue_strict hl))

theorem Sound.erasePending (h : Sound C (pool.setPending a l) held) (hlen : l.len = 0) :
    Sound C { pool with pending := pool.pending.erase a } held where
  shelved := by
    show Shelved _ _ (listAt (pool.pending.erase a)) _ _ _
    rw [listAt_erase_of_empty hlen]
    exact h.shelved
  tallied := h.tallied
  pending_strict := by
    intro b k hb
    obtain ⟨hba, hb⟩ := GoMap.of_lookup_erase hb
    refine h.pending_strict (a := b) ?_
    simpa [TxPool.setPending, GoMap.lookup_insert_eq, hba] using hb
  queue_strict := h.queue_strict

theorem Sound.dropEmptyQueue (h : Sound C pool held) (hl : pool.queue.lookup a = some l) :
    Sound C (pool.dropEmptyQueue a l) held := by
  by_cases hlen : l.isEmpty
  · have hat : listAt (pool.queue.erase a) = listAt pool.queue := by
      funext c
      rw [listAt_erase]
      split_ifs with hc
      · rw [listAt, hc, hl, Option.bind_some, TxList.len_eq_zero_iff.1 (TxList.isEmpty_iff.1 hlen)]
      · rfl
    simp only [TxPool.dropEmptyQueue, hlen, if_true]
    refine ⟨?_, h.tallied, h.pending_strict, fun hb => h.queue_strict (GoMap.of_lookup_erase hb).2⟩
    show Shelved _ _ _ (listAt (pool.queue.erase a)) _ _
    rw [hat]
    exact h.shelved
  · exact h.congr rfl (by simp [TxPool.dropEmptyQueue, hlen]) rfl

theorem Sound.storePending (h : Sound C (pool.setPending a l) held) :
    Sound C (pool.storePending a l) held := by
  by_cases hlen : l.isEmpty
  · exact (h.erasePending (TxList.isEmpty_iff.1 hlen)).congr (by simp [TxPool.storePending, hlen])
      rfl rfl
  · exact h.congr (by simp [TxPool.storePending, TxPool.setPending, hlen]) rfl rfl

theorem listAt_storePending (pool : TxPool) (a : Address) (l : TxList) :
    listAt (pool.storePending a l).pending = listAt (pool.pending.insert a l) := by
  by_cases hlen : l.isEmpty
  · simp only [TxPool.storePending, hlen, if_true]
    exact listAt_erase_of_empty (TxList.isEmpty_iff.1 hlen)
  · simp only [TxPool.storePending, hlen]
    rfl

section

variable (h : Tidy pool pendingOf queueOf)

include h

theorem Tidy.setPending (hof : ∀ b, pendingOf = some b → b = a) (l : TxList) :
    Tidy (pool.setPending a l) (some a) queueOf where
  pending_ne := by
    intro b k hb hne
    simp only [TxPool.setPending, GoMap.lookup_insert_eq] at hb
    rw [if_neg fun hba => hne (by rw [hba])] at hb
    exact h.pending_ne hb fun hb => hne (by rw [hof b hb.symm])
  queue_ne := h.queue_ne
  beats := h.beats

theorem Tidy.setPending_of_ne (hlen : l.len ≠ 0) :
    Tidy (pool.setPending a l) pendingOf queueOf where
  pending_ne := GoMap.forall_insert h.pending_ne fun _ => hlen
  queue_ne := h.queue_ne
  beats := h.beats

theorem Tidy.setQueue (hof : ∀ b, queueOf = some b → b = a) (hl : pool.queue.lookup a = some l)
    (l' : TxList) :
    Tidy (pool.setQueue a l') pendingOf (some a) where
  pending_ne := h.pending_ne
  queue_ne := by
    intro b k hb hne
    simp only [TxPool.setQueue, GoMap.lookup_insert_eq] at hb
    rw [if_neg fun hba => hne (by rw [hba])] at hb
    exact h.queue_ne hb fun hb => hne (by rw [hof b hb.symm])
  beats := GoMap.forall_insert h.beats (h.beats hl)

theorem Tidy.setQueue_of_ne (hl : pool.queue.lookup a = some l) (hlen : l'.len ≠ 0) :
    Tidy (pool.setQueue a l') pendingOf queueOf where
  pending_ne := h.pending_ne
  queue_ne := GoMap.forall_insert h.queue_ne fun _ => hlen
  beats := GoMap.forall_insert h.beats (h.beats hl)

end

theorem Tidy.storePending (h : Tidy (pool.setPending a l) (some a) queueOf) :
    Tidy (pool.storePending a l) none queueOf := by
  have hother : ∀ {b k}, pool.pending.lookup b = some k → b ≠ a → k.len ≠ 0 := by
    intro b k hb hne
    refine h.pending_ne (a := b) ?_ (by simpa using hne)
    simpa [TxPool.setPending, GoMap.lookup_insert_eq, hne] using hb
  refine ⟨?_, h.queue_ne, h.beats⟩
  intro b k hb _
  simp only [TxPool.storePending] at hb
  split_ifs at hb with hlen
  · exact hother (GoMap.of_lookup_erase hb).2 (GoMap.of_lookup_erase hb).1
  · rcases GoMap.lookup_insert_cases hb with ⟨-, rfl⟩ | ⟨hba, hb⟩
    · simpa using hlen
    · exact hother hb hba

theorem Tidy.dropEmptyQueue (h : Tidy pool pendingOf (some a)) (hl : pool.queue.lookup a = some l) :
    Tidy (pool.dropEmptyQueue a l) pendingOf none := by
  by_cases hlen : l.isEmpty
  · simp only [TxPool.dropEmptyQueue, hlen, if_true]
    refine ⟨h.pending_ne, ?_, ?_⟩
    · intro b k hb _
      obtain ⟨hba, hb⟩ := GoMap.of_lookup_erase hb
      exact h.queue_ne hb (by simpa using hba)
    · intro b k hb
      obtain ⟨hba, hb⟩ := GoMap.of_lookup_erase hb
      rw [GoMap.lookup_erase_eq, if_neg hba]
      exact h.beats hb
  · have hsame : pool.dropEmptyQueue a l = pool := by simp [TxPool.dropEmptyQueue, hlen]
    rw [hsame]
    refine ⟨h.pending_ne, ?_, h.beats⟩
    intro b k hb _
    by_cases hba : b = a
    · rw [hba, hl] at hb
      rw [← Option.some.inj hb]
      simpa using hlen
    · exact h.queue_ne hb (by simpa using hba)

/-! ### Held transactions -/

/-- Held transactions leave the table. -/
def forgetAll (C : Crypto) (pool : TxPool) (txs : List Transaction) : TxPool :=
  { pool with all := pool.all.dropAll C txs }

theorem allRemove_eq (h : pool.all.get (C.txHash tx) = some tx) :
    pool.allRemove (C.txHash tx) = some (pool.forgetAll C [tx]) := by
  rw [allRemove, TxLookup.remove_eq h]
  rfl

theorem Sound.forget (h : Sound C pool (tx :: held)) : Sound C (pool.forgetAll C [tx]) held where
  shelved := h.shelved.forget (TxLookup.get_drop _ _)
  tallied := h.tallied.drop (h.shelved.index_of_held List.mem_cons_self)
  pending_strict := h.pending_strict
  queue_strict := h.queue_strict

theorem allRemoveTxs_held (h : Sound C pool (txs ++ held)) :
    allRemoveTxs C pool txs = some (pool.forgetAll C txs) ∧
      Sound C (pool.forgetAll C txs) held := by
  induction txs generalizing pool with
  | nil => exact ⟨rfl, h⟩
  | cons tx txs ih =>
    have hget := h.shelved.index_of_held (x := tx) List.mem_cons_self
    have hrest := ih h.forget
    simp only [allRemoveTxs, allRemove_eq hget]
    exact hrest

/-- A held transaction goes to the queue. -/
def requeue (C : Crypto) (now : ℤ) (pool : TxPool) (tx : Transaction) : TxPool :=
  (pool.setQueue (C.poolSender tx)
    (((pool.queue.lookup (C.poolSender tx)).getD (.new false)).put tx)).firstBeat now
      (C.poolSender tx)

@[simp] theorem requeue_pending : (pool.requeue C now tx).pending = pool.pending := rfl

@[simp] theorem requeue_all : (pool.requeue C now tx).all = pool.all := rfl

/-- Held transactions go to the queue. -/
def requeueAll (C : Crypto) (now : ℤ) (pool : TxPool) (txs : List Transaction) : TxPool :=
  txs.foldl (requeue C now) pool

/-- The account has a heartbeat, and no account loses one. -/
theorem firstBeat_beats (pool : TxPool) (now : ℤ) (b : Address) :
    ∀ {c}, c = b ∨ (∃ x, pool.beats.lookup c = some x) →
      ∃ x, (pool.firstBeat now b).beats.lookup c = some x := by
  intro c hc
  unfold firstBeat
  by_cases hnone : (pool.beats.lookup b).isNone
  · simp only [hnone, if_true, GoMap.lookup_insert_eq]
    by_cases hcb : c = b
    · exact ⟨now, if_pos hcb⟩
    · rw [if_neg hcb]
      exact hc.resolve_left hcb
  · simp only [hnone]
    rcases hc with rfl | hc
    · exact Option.ne_none_iff_exists'.1 (by simpa using hnone)
    · exact hc

variable {m : GoMap Address TxList}

/-- The list a transaction is added to is not empty. -/
theorem len_put_ne_zero (l : TxList) (tx : Transaction) : (l.put tx).len ≠ 0 :=
  TxList.len_ne_zero_of_get (by rw [TxList.get_put, if_pos rfl])

/-- The list a transaction is added to has the flag of the other lists. -/
theorem strict_of_lookup_insert_put {strict : Bool} {b : Address}
    (hm : ∀ {a l}, m.lookup a = some l → l.strict = strict)
    (h : (m.insert a (((m.lookup a).getD (.new strict)).put tx)).lookup b = some l) :
    l.strict = strict := by
  refine GoMap.forall_insert (P := fun _ l => l.strict = strict) hm ?_ h
  rw [TxList.strict_put]
  cases ha : m.lookup a with
  | none => rfl
  | some k => exact hm ha

theorem Sound.requeue (h : Sound C pool (tx :: held)) : Sound C (pool.requeue C now tx) held where
  shelved := (h.shelved.swap.put (listAt_insert_put pool.queue tx false)).swap
  tallied := h.tallied
  pending_strict := h.pending_strict
  queue_strict hl := strict_of_lookup_insert_put h.queue_strict hl

theorem Tidy.requeue (h : Tidy pool pendingOf queueOf) :
    Tidy (pool.requeue C now tx) pendingOf queueOf where
  pending_ne := h.pending_ne
  queue_ne := GoMap.forall_insert h.queue_ne fun _ => len_put_ne_zero _ tx
  beats := by
    intro b k hb
    apply firstBeat_beats
    rcases GoMap.lookup_insert_cases hb with ⟨hba, -⟩ | ⟨-, hb⟩
    · exact Or.inl hba
    · exact Or.inr (h.beats hb)

variable (ord)

/-- The queue of the sender has no transaction with the nonce. -/
theorem enqueueTx_of_free (now : ℤ) (hfree : listAt pool.queue (C.cell tx) = none) :
    pool.enqueueTx C ord now (C.txHash tx) tx =
      some ((pool.allAddIfNew C (C.txHash tx) tx).requeue C now tx, .ok false) := by
  have hadd : ((pool.queue.lookup (C.poolSender tx)).getD (.new false)).add tx
      pool.config.priceBump = _ := TxList.add_of_none (by rw [listAt_getD]; exact hfree)
  simp only [enqueueTx, hadd]
  simp only [Bool.not_true, Bool.false_eq_true, if_false, replaceOld, Option.bind_eq_bind,
    Option.bind_some, Option.isSome_none, allAddIfNew, TxPool.setQueue]
  split_ifs <;> rfl

theorem enqueueTx_held (now : ℤ) (h : Sound C pool (tx :: held)) :
    pool.enqueueTx C ord now (C.txHash tx) tx = some (pool.requeue C now tx, .ok false) := by
  have hget := h.shelved.index_of_held (x := tx) List.mem_cons_self
  rw [enqueueTx_of_free ord now (h.shelved.held_free tx List.mem_cons_self).2, allAddIfNew, hget]
  rfl

theorem enqueueTxs_held (now : ℤ) (h : Sound C pool (txs ++ held)) :
    enqueueTxs C ord now pool txs = some (pool.requeueAll C now txs) ∧
      Sound C (pool.requeueAll C now txs) held := by
  induction txs generalizing pool with
  | nil => exact ⟨rfl, h⟩
  | cons tx txs ih =>
    have hrest := ih (h.requeue : Sound C (pool.requeue C now tx) _)
    simp only [enqueueTxs, enqueueTx_held ord now h]
    exact hrest

theorem Tidy.requeueAll (h : Tidy pool pendingOf queueOf) :
    Tidy (pool.requeueAll C now txs) pendingOf queueOf := by
  induction txs generalizing pool with
  | nil => exact h
  | cons tx txs ih => exact ih h.requeue

/-- What the requeueing of one transaction does not change. -/
theorem requeueAll_frame {α : Type*} {f : TxPool → α}
    (hf : ∀ (pool : TxPool) (tx : Transaction), f (pool.requeue C now tx) = f pool) :
    f (pool.requeueAll C now txs) = f pool := by
  induction txs generalizing pool with
  | nil => rfl
  | cons tx txs ih => exact ih.trans (hf pool tx)

/-- A held transaction becomes pending. -/
def promoted (C : Crypto) (now : ℤ) (pool : TxPool) (tx : Transaction) : TxPool :=
  { pool.setPending (C.poolSender tx)
      (((pool.pending.lookup (C.poolSender tx)).getD (.new true)).put tx) with
    pendingNonces := pool.pendingNonces.set (C.poolSender tx) (tx.accountNonce + 1)
    beats := pool.beats.insert (C.poolSender tx) now }

/-- Held transactions become pending. -/
def promotedAll (C : Crypto) (now : ℤ) (pool : TxPool) (txs : List Transaction) : TxPool :=
  txs.foldl (promoted C now) pool

theorem Sound.promoted (h : Sound C pool (tx :: held)) :
    Sound C (pool.promoted C now tx) held where
  shelved := h.shelved.put (listAt_insert_put pool.pending tx true)
  tallied := h.tallied
  pending_strict hl := strict_of_lookup_insert_put h.pending_strict hl
  queue_strict := h.queue_strict

theorem Tidy.beats_insert (h : Tidy pool pendingOf queueOf) (hl : pool.queue.lookup a = some l)
    (b : Address) (now : ℤ) : ∃ beat, (pool.beats.insert b now).lookup a = some beat := by
  rw [GoMap.lookup_insert_eq]
  split_ifs
  · exact ⟨now, rfl⟩
  · exact h.beats hl

theorem Tidy.promoted (h : Tidy pool pendingOf queueOf) :
    Tidy (pool.promoted C now tx) pendingOf queueOf where
  pending_ne := GoMap.forall_insert h.pending_ne fun _ => len_put_ne_zero _ tx
  queue_ne := h.queue_ne
  beats hl := h.beats_insert hl _ now

theorem promoteTx_held (now : ℤ) (h : Sound C pool (tx :: held)) :
    pool.promoteTx C ord now (C.poolSender tx) (C.txHash tx) tx =
      some (pool.promoted C now tx, true) := by
  have hfree := (h.shelved.held_free tx List.mem_cons_self).1
  have hget := h.shelved.index_of_held (x := tx) List.mem_cons_self
  have hadd : ((pool.pending.lookup (C.poolSender tx)).getD (.new true)).add tx
      pool.config.priceBump = _ := TxList.add_of_none (by rw [listAt_getD]; exact hfree)
  simp only [promoteTx, hadd]
  simp only [Bool.not_true, Bool.false_eq_true, if_false, replaceOld, Option.bind_eq_bind,
    Option.bind_some, allAddIfNew, TxPool.setPending, hget, Option.isNone_some]
  rfl

theorem promoteTxs_held (now : ℤ) (h : Sound C pool (txs ++ held))
    (hsender : ∀ tx ∈ txs, C.poolSender tx = a) :
    promoteTxs C ord now a pool txs = some (pool.promotedAll C now txs) ∧
      Sound C (pool.promotedAll C now txs) held := by
  induction txs generalizing pool with
  | nil => exact ⟨rfl, h⟩
  | cons tx txs ih =>
    obtain rfl := hsender tx List.mem_cons_self
    have hrest := ih (h.promoted : Sound C (pool.promoted C now tx) _)
      fun t ht => hsender t (List.mem_cons_of_mem _ ht)
    simp only [promoteTxs, promoteTx_held ord now h]
    exact hrest

theorem Tidy.promotedAll (h : Tidy pool pendingOf queueOf) :
    Tidy (pool.promotedAll C now txs) pendingOf queueOf := by
  induction txs generalizing pool with
  | nil => exact h
  | cons tx txs ih => exact ih h.promoted

/-- What the promotion of one transaction does not change. -/
theorem promotedAll_frame {α : Type*} {f : TxPool → α}
    (hf : ∀ (pool : TxPool) (tx : Transaction), f (pool.promoted C now tx) = f pool) :
    f (pool.promotedAll C now txs) = f pool := by
  induction txs generalizing pool with
  | nil => rfl
  | cons tx txs ih => exact ih.trans (hf pool tx)

theorem listAt_promotedAll (h : Sound C pool (txs ++ held)) {t : Transaction} :
    listAt (pool.promotedAll C now txs).pending c = some t ↔
      listAt pool.pending c = some t ∨ (t ∈ txs ∧ C.cell t = c) := by
  induction txs generalizing pool with
  | nil => simp [TxPool.promotedAll]
  | cons tx txs ih =>
    have hfree := (h.shelved.held_free tx List.mem_cons_self).1
    have hstep : listAt (pool.promoted C now tx).pending c =
        if c = C.cell tx then some tx else listAt pool.pending c :=
      listAt_insert_put pool.pending tx true c
    have hcons : pool.promotedAll C now (tx :: txs) =
        (pool.promoted C now tx).promotedAll C now txs := rfl
    rw [hcons, ih h.promoted, hstep, List.mem_cons]
    by_cases hc : c = C.cell tx
    · rw [if_pos hc, hc, hfree]
      constructor
      · rintro (heq | ⟨ht, hcell⟩)
        · obtain rfl := Option.some.inj heq
          exact Or.inr ⟨Or.inl rfl, rfl⟩
        · exact Or.inr ⟨Or.inr ht, hcell⟩
      · rintro (heq | ⟨rfl | ht, hcell⟩)
        · cases heq
        · exact Or.inl rfl
        · exact Or.inr ⟨ht, hcell⟩
    · rw [if_neg hc]
      refine or_congr_right ⟨fun ⟨ht, hcell⟩ => ⟨Or.inr ht, hcell⟩, ?_⟩
      rintro ⟨rfl | ht, hcell⟩
      · exact absurd hcell.symm hc
      · exact ⟨ht, hcell⟩

/-- The pool nonce is one more than the last nonce that becomes pending. -/
theorem get_pendingNonces_promotedAll (hsender : ∀ tx ∈ txs, C.poolSender tx = a) (b : Address) :
    (pool.promotedAll C now txs).pendingNonces.get b =
      if b = a then (txs.getLast?.map fun tx => tx.accountNonce + 1).getD
        (pool.pendingNonces.get a) else pool.pendingNonces.get b := by
  induction txs generalizing pool with
  | nil =>
    rw [show pool.promotedAll C now [] = pool from rfl]
    split_ifs with hb
    · rw [hb]
      rfl
    · rfl
  | cons tx txs ih =>
    have hcons : pool.promotedAll C now (tx :: txs) =
        (pool.promoted C now tx).promotedAll C now txs := rfl
    have hstep : ∀ b, (pool.promoted C now tx).pendingNonces.get b =
        if b = a then tx.accountNonce + 1 else pool.pendingNonces.get b := by
      intro b
      rw [← hsender tx List.mem_cons_self]
      exact TxNoncer.get_set _ _ _ _
    rw [hcons, ih fun t ht => hsender t (List.mem_cons_of_mem _ ht), hstep, hstep]
    by_cases hb : b = a
    · rw [if_pos hb, if_pos hb, if_pos rfl]
      cases txs <;> simp [List.getLast?_cons]
    · rw [if_neg hb, if_neg hb, if_neg hb]

-- the equations above are all that is used of these loops
attribute [irreducible] requeueAll promotedAll

end TxPool

end Benzene
