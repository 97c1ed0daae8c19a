import Benzene.Core.Books

/-!
# Removal

What `removeTx` does to a pool in which nothing is held: `removeTx_cases` lists the outcomes.  From
them follows that removals keep `Good`, the conjunction of `Sound` and `Tidy`, and what they do to
the books.
-/

namespace Benzene.TxPool

open Books

variable {C : Crypto} {ord : RangeOrder} {now : ℤ} {pool pool' : TxPool}
  {held : List Transaction} {tx old : Transaction} {a : Address} {l l' : TxList}

/-! ## Removal -/

/-- The transaction leaves the table, and the heap may be told. -/
def unlist (C : Crypto) (ord : RangeOrder) (outofbound : Bool) (pool : TxPool)
    (tx : Transaction) : TxPool :=
  { pool.forgetAll C [tx] with
    priced := if outofbound then ((pool.forgetAll C [tx]).pricedRemoved ord 1).priced
      else pool.priced }

theorem forgetAll_pricedRemoved (outofbound : Bool) :
    (if outofbound then (pool.forgetAll C [tx]).pricedRemoved ord 1
      else pool.forgetAll C [tx]) = pool.unlist C ord outofbound tx := by
  cases outofbound <;> rfl

/-- A pending transaction is removed, and those after it go back to the queue. -/
def unpend (C : Crypto) (ord : RangeOrder) (now : ℤ) (outofbound : Bool) (pool : TxPool)
    (l : TxList) (tx : Transaction) : TxPool :=
  { requeueAll C now ((pool.unlist C ord outofbound tx).storePending (C.poolSender tx)
      (l.remove ord tx).1) (l.remove ord tx).2.2 with
    pendingNonces := pool.pendingNonces.setIfLower (C.poolSender tx) tx.accountNonce }

/-- A queued transaction is removed. -/
def unqueue (C : Crypto) (ord : RangeOrder) (outofbound : Bool) (pool : TxPool) (l : TxList)
    (tx : Transaction) : TxPool :=
  ((pool.unlist C ord outofbound tx).setQueue (C.poolSender tx)
    (l.remove ord tx).1).dropEmptyQueue (C.poolSender tx) (l.remove ord tx).1

theorem Sound.leaves (h : Sound C pool (txs ++ held)) : pool.all.Leaves C txs := by
  induction txs generalizing pool with
  | nil => trivial
  | cons tx txs ih => exact ⟨h.shelved.index_of_held List.mem_cons_self, ih h.forget⟩

theorem Sound.unlist (h : Sound C pool (tx :: held)) {outofbound : Bool} :
    Sound C (pool.unlist C ord outofbound tx) held :=
  h.forget.congr rfl rfl rfl

/-- The state `removeTx` sends the invalidated transactions to the queue in. -/
theorem Sound.unlist_storePending (h : Sound C pool [])
    (hl : pool.pending.lookup (C.poolSender tx) = some l) (ht : l.get tx.accountNonce = some tx)
    {outofbound : Bool} :
    Sound C ((pool.unlist C ord outofbound tx).storePending (C.poolSender tx)
      (l.remove ord tx).1) ((l.remove ord tx).2.2 ++ []) := by
  have hd := (TxList.remove_drops ord ht).2
  have hset : Sound C ((pool.unlist C ord outofbound tx).setPending (C.poolSender tx)
      (l.remove ord tx).1) ((l.remove ord tx).2.2 ++ []) :=
    (h.setPending hl hd).unlist.congr rfl rfl rfl
  exact hset.storePending

theorem requeueAll_nonces (pool : TxPool) (txs : List Transaction) :
    (pool.requeueAll C now txs).pendingNonces = pool.pendingNonces :=
  requeueAll_frame (f := pendingNonces) fun _ _ => rfl

theorem requeueAll_pending (pool : TxPool) (txs : List Transaction) :
    (pool.requeueAll C now txs).pending = pool.pending :=
  requeueAll_frame (f := pending) fun _ _ => rfl

theorem removeTx_of_pending (ord : RangeOrder) (now : ℤ) (h : Sound C pool [])
    (hl : pool.pending.lookup (C.poolSender tx) = some l) (ht : l.get tx.accountNonce = some tx)
    (outofbound : Bool) :
    pool.removeTx C ord now (C.txHash tx) outofbound =
        some (pool.unpend C ord now outofbound l tx) ∧
      Sound C (pool.unpend C ord now outofbound l tx) [] := by
  have hget : pool.all.get (C.txHash tx) = some tx :=
    h.get_of_pending ((listAt_of_lookup hl _).trans ht)
  have hfound := (TxList.remove_drops ord ht).1
  have hstore : Sound C ((pool.unlist C ord outofbound tx).storePending (C.poolSender tx)
      (l.remove ord tx).1) ((l.remove ord tx).2.2 ++ []) := h.unlist_storePending hl ht
  have hq := enqueueTxs_held ord now hstore
  refine ⟨?_, hq.2.congr rfl rfl rfl⟩
  have hlookup : (pool.unlist C ord outofbound tx).pending.lookup (C.poolSender tx) = some l := hl
  simp only [removeTx, hget, allRemove_eq hget, Option.bind_eq_bind, Option.bind_some,
    forgetAll_pricedRemoved, hlookup, hfound, if_true, hq.1, unpend, requeueAll_nonces]
  rfl

theorem removeTx_of_queued (ord : RangeOrder) (now : ℤ) (h : Sound C pool [])
    (hl : pool.queue.lookup (C.poolSender tx) = some l) (ht : l.get tx.accountNonce = some tx)
    (outofbound : Bool) :
    pool.removeTx C ord now (C.txHash tx) outofbound =
        some (pool.unqueue C ord outofbound l tx) ∧
      Sound C (pool.unqueue C ord outofbound l tx) [] := by
  have hat : listAt pool.queue (C.cell tx) = some tx := (listAt_of_lookup hl _).trans ht
  have hget := h.get_of_queued hat
  have hd := (TxList.remove_drops ord ht).2
  rw [TxList.remove_invalids ord tx (h.queue_strict hl)] at hd
  have hset : Sound C ((pool.unlist C ord outofbound tx).setQueue (C.poolSender tx)
      (l.remove ord tx).1) [] := (h.setQueue hl hd).unlist.congr rfl rfl rfl
  refine ⟨?_, hset.dropEmptyQueue (AList.lookup_insert _)⟩
  have hqueue : (pool.unlist C ord outofbound tx).queue.lookup (C.poolSender tx) = some l := hl
  have hremove : (pool.unlist C ord outofbound tx).removeQueued ord (C.poolSender tx) tx =
      pool.unqueue C ord outofbound l tx := by
    simp only [removeQueued, hqueue]
    rfl
  simp only [removeTx, hget, allRemove_eq hget, Option.bind_eq_bind, Option.bind_some,
    forgetAll_pricedRemoved]
  cases hp : (pool.unlist C ord outofbound tx).pending.lookup (C.poolSender tx) with
  | none => simp only [hremove]
  | some k =>
    -- the nonce is queued, so it is not pending
    have hnone : k.get tx.accountNonce = none := by
      rw [← listAt_of_lookup hp]
      exact h.shelved.swap.disjoint hat
    simp only [(TxList.remove_of_none ord hnone).1, hremove]
    rfl

/-- What `removeTx` does. -/
theorem removeTx_cases (h : Sound C pool []) (ord : RangeOrder) (now : ℤ) (hash : Hash)
    (outofbound : Bool) :
    ∃ pool', pool.removeTx C ord now hash outofbound = some pool' ∧ Sound C pool' [] ∧
      ((pool.all.get hash = none ∧ pool' = pool) ∨
        ∃ tx l, pool.all.get hash = some tx ∧ C.txHash tx = hash ∧
          l.get tx.accountNonce = some tx ∧
          ((pool.pending.lookup (C.poolSender tx) = some l ∧
              pool' = pool.unpend C ord now outofbound l tx) ∨
            (pool.queue.lookup (C.poolSender tx) = some l ∧
              pool' = pool.unqueue C ord outofbound l tx))) := by
  cases hget : pool.all.get hash with
  | none => exact ⟨pool, by simp [removeTx, hget], h, Or.inl ⟨rfl, rfl⟩⟩
  | some tx =>
    obtain ⟨hhash, hin⟩ := (h.shelved.index_iff hash tx).1 hget
    simp only [List.not_mem_nil, or_false] at hin
    rcases hin with hin | hin
    · obtain ⟨l, hl, ht⟩ := listAt_eq_some.1 hin
      have hrem := removeTx_of_pending ord now h hl ht outofbound
      rw [hhash] at hrem
      exact ⟨_, hrem.1, hrem.2, Or.inr ⟨tx, l, rfl, hhash, ht, Or.inl ⟨hl, rfl⟩⟩⟩
    · obtain ⟨l, hl, ht⟩ := listAt_eq_some.1 hin
      have hrem := removeTx_of_queued ord now h hl ht outofbound
      rw [hhash] at hrem
      exact ⟨_, hrem.1, hrem.2, Or.inr ⟨tx, l, rfl, hhash, ht, Or.inr ⟨hl, rfl⟩⟩⟩

theorem Tidy.unpend (h : Tidy pool none none) (outofbound : Bool) :
    Tidy (pool.unpend C ord now outofbound l tx) none none := by
  have hset : Tidy ((pool.unlist C ord outofbound tx).setPending (C.poolSender tx)
      (l.remove ord tx).1) (some (C.poolSender tx)) none :=
    (h.setPending (by simp) _).congr rfl rfl rfl
  exact (hset.storePending.requeueAll :
    Tidy (TxPool.requeueAll C now _ _) none none).congr rfl rfl rfl

theorem Tidy.unqueue (h : Tidy pool none none)
    (hl : pool.queue.lookup (C.poolSender tx) = some l) (outofbound : Bool) :
    Tidy (pool.unqueue C ord outofbound l tx) none none := by
  have hset : Tidy ((pool.unlist C ord outofbound tx).setQueue (C.poolSender tx)
      (l.remove ord tx).1) none (some (C.poolSender tx)) :=
    (h.setQueue (by simp) hl _).congr rfl rfl rfl
  exact hset.dropEmptyQueue (AList.lookup_insert _)

/-- Nothing is held and no account is being worked on. -/
structure Good (C : Crypto) (pool : TxPool) : Prop where
  sound : Sound C pool []
  tidy : Tidy pool none none

/-- The configuration and the state of the chain are the same. -/
structure Same (pool pool' : TxPool) : Prop where
  config : pool'.config = pool.config
  currentState : pool'.currentState = pool.currentState
  currentMaxGas : pool'.currentMaxGas = pool.currentMaxGas

theorem Same.refl (pool : TxPool) : Same pool pool := ⟨rfl, rfl, rfl⟩

variable {pool₁ pool₂ pool₃ : TxPool} {isLocal : Bool} {r : TxPool × Except TxError Bool}
  {txs : List Transaction}

theorem Same.trans (h : Same pool₁ pool₂) (h' : Same pool₂ pool₃) : Same pool₁ pool₃ :=
  ⟨h'.config.trans h.config, h'.currentState.trans h.currentState,
    h'.currentMaxGas.trans h.currentMaxGas⟩

/-- What no operation changes: the configuration, and the gas limit, which is never set. -/
structure Fixed (pool pool' : TxPool) : Prop where
  config : pool'.config = pool.config
  currentMaxGas : pool'.currentMaxGas = pool.currentMaxGas

theorem Fixed.trans (h : Fixed pool₁ pool₂) (h' : Fixed pool₂ pool₃) : Fixed pool₁ pool₃ :=
  ⟨h'.config.trans h.config, h'.currentMaxGas.trans h.currentMaxGas⟩

theorem Same.fixed {pool pool' : TxPool} (h : Same pool pool') : Fixed pool pool' :=
  ⟨h.config, h.currentMaxGas⟩

theorem requeueAll_same (C : Crypto) (now : ℤ) (pool : TxPool) (txs : List Transaction) :
    Same pool (pool.requeueAll C now txs) :=
  ⟨requeueAll_frame (f := config) fun _ _ => rfl,
    requeueAll_frame (f := currentState) fun _ _ => rfl,
    requeueAll_frame (f := currentMaxGas) fun _ _ => rfl⟩

theorem unpend_same (outofbound : Bool) : Same pool (pool.unpend C ord now outofbound l tx) :=
  have h : Same ((pool.unlist C ord outofbound tx).storePending (C.poolSender tx)
      (l.remove ord tx).1) _ := requeueAll_same C now _ _
  ⟨h.config, h.currentState, h.currentMaxGas⟩

theorem requeueAll_books (pool : TxPool) (txs : List Transaction) :
    (pool.requeueAll C now txs).books = pool.books :=
  requeueAll_frame (f := books) fun _ _ => rfl

theorem unpend_books (outofbound : Bool) : (pool.unpend C ord now outofbound l tx).books =
    (pool.unlist C ord outofbound tx).books :=
  requeueAll_books _ _

theorem unlist_unlists (ord : RangeOrder) (outofbound : Bool)
    (hget : pool.all.get (C.txHash tx) = some tx) :
    Unlists C outofbound [tx] pool.books (pool.unlist C ord outofbound tx).books := by
  cases outofbound with
  | true =>
    have hleaves : pool.books.all.Leaves C [tx] := ⟨hget, trivial⟩
    exact (Act.left ord hleaves).history
  | false =>
    have hexpunge : pool.all.expunge C [tx] = pool.all.drop C tx := by
      rw [TxLookup.expunge, List.foldl_cons, TxLookup.remove_eq hget]
      rfl
    exact congrArg (Books.mk · pool.priced pool.locals) hexpunge.symm

/-- Accounts may have lost their pending transactions from some nonce on. -/
structure Shortened (pool pool' : TxPool) : Prop extends Same pool pool' where
  account : ∀ a, (pool.view a).Shortened (pool'.view a)

/-- What every routine does to a pool, except for promotion, demotion and the reset of a head. -/
def Shortens : TxPool → TxPool → Prop := Relation.ReflTransGen Shortened

theorem Shortens.refl (pool : TxPool) : Shortens pool pool := Relation.ReflTransGen.refl

theorem Shortens.trans (h : Shortens pool₁ pool₂) (h' : Shortens pool₂ pool₃) :
    Shortens pool₁ pool₃ :=
  Relation.ReflTransGen.trans h h'

theorem Shortened.shortens (h : Shortened pool pool') : Shortens pool pool' :=
  Relation.ReflTransGen.single h

/-- An invariant of every single loss. -/
theorem Shortens.rule (Inv : TxPool → Prop)
    (hstep : ∀ pool pool', Inv pool → Shortened pool pool' → Inv pool')
    (h : Shortens pool pool') (h0 : Inv pool) : Inv pool' := by
  induction h with
  | refl => exact h0
  | tail _ hs ih => exact hstep _ _ ih hs

theorem Shortens.same (h : Shortens pool pool') : Same pool pool' := by
  refine h.rule (Same pool) ?_ (Same.refl pool)
  intro pool₁ pool₂ h₁ hs
  exact h₁.trans hs.toSame

theorem Same.shortens (h : Same pool pool')
    (hpending : ∀ a, (pool'.view a).nonces = (pool.view a).nonces)
    (hnonces : pool'.pendingNonces = pool.pendingNonces) : Shortens pool pool' := by
  refine Shortened.shortens ⟨h, fun a => ⟨?_, Or.inl ⟨hpending a, ?_⟩⟩⟩
  · simp only [view, h.currentState]
  · simp only [view, hnonces]

/-- A strict list has lost its transactions from a nonce on. -/
theorem Shortened.of_cut {l' : TxList} {n : UInt64} {t : Transaction} (hsame : Same pool pool')
    (hl : pool.pending.lookup a = some l) (ht : l.get n = some t)
    (hcut : ∀ k s, l'.get k = some s ↔ l.get k = some s ∧ k < n)
    (hpending : listAt pool'.pending = listAt (pool.pending.insert a l'))
    (hnonces : pool'.pendingNonces = pool.pendingNonces.setIfLower a n) :
    Shortened pool pool' where
  toSame := hsame
  account := by
    intro b
    refine ⟨by simp only [view, hsame.currentState], ?_⟩
    simp only [AccountView.nonces, view, hpending, listAt_insert, hnonces,
      TxNoncer.get_setIfLower]
    by_cases hb : b = a
    · subst hb
      refine Or.inr ⟨n.toNat, ⟨n, t, by rw [listAt_of_lookup hl, ht], rfl⟩, ?_, ?_⟩
      · ext k
        simp only [below, Set.mem_ofPred_eq, if_true, hcut, listAt_of_lookup hl]
        constructor
        · rintro ⟨k', s, ⟨hs, hlt⟩, rfl⟩
          exact ⟨⟨k', s, hs, rfl⟩, UInt64.lt_iff_toNat_lt.1 hlt⟩
        · rintro ⟨⟨k', s, hs, rfl⟩, hlt⟩
          exact ⟨k', s, ⟨hs, UInt64.lt_iff_toNat_lt.2 hlt⟩, rfl⟩
      · by_cases hle : pool.pendingNonces.get b ≤ n
        · rw [if_neg (by simp [hle]), min_eq_left (UInt64.le_iff_toNat_le.1 hle)]
        · rw [if_pos ⟨rfl, hle⟩, min_eq_right]
          rw [UInt64.le_iff_toNat_le] at hle
          omega
    · exact Or.inl ⟨by simp only [if_neg hb], if_neg fun h => hb h.1⟩

theorem unpend_shortened (h : Sound C pool [])
    (hl : pool.pending.lookup (C.poolSender tx) = some l) (ht : l.get tx.accountNonce = some tx)
    (outofbound : Bool) : Shortened pool (pool.unpend C ord now outofbound l tx) := by
  refine Shortened.of_cut (unpend_same outofbound) hl ht
    (fun k s => TxList.get_remove_of_strict ord (h.pending_strict hl) ht) ?_ rfl
  rw [unpend, requeueAll_pending, listAt_storePending]
  rfl

theorem removeTx_keeps (ord : RangeOrder) (now : ℤ) (h : Good C pool) (tx : Transaction)
    (outofbound : Bool) :
    ∃ pool', pool.removeTx C ord now (C.txHash tx) outofbound = some pool' ∧ Good C pool' ∧
      Shortens pool pool' ∧ Unlists C outofbound [tx] pool.books pool'.books := by
  obtain ⟨pool', heq, hs, ⟨hnone, rfl⟩ | ⟨x, l, hget, hhash, ht, hl⟩⟩ :=
    removeTx_cases h.sound ord now (C.txHash tx) outofbound
  · refine ⟨_, heq, h, Shortens.refl _, ?_⟩
    cases outofbound with
    | true => exact .refl _
    | false => simp [Unlists, books, TxLookup.expunge, TxLookup.remove, hnone]
  · have hremoves : Unlists C outofbound [tx] pool.books
        (pool.unlist C ord outofbound x).books := by
      have hx := unlist_unlists ord outofbound ((congrArg _ hhash).trans hget)
      cases outofbound with
      | true => exact hx
      | false => simpa only [Unlists, TxLookup.expunge, List.foldl_cons, hhash] using hx
    rcases hl with ⟨hl, rfl⟩ | ⟨hl, rfl⟩
    · exact ⟨_, heq, ⟨hs, h.tidy.unpend outofbound⟩,
        (unpend_shortened h.sound hl ht outofbound).shortens,
        (unpend_books outofbound).symm ▸ hremoves⟩
    · have hsame : Same pool (pool.unqueue C ord outofbound l x) := ⟨rfl, rfl, rfl⟩
      exact ⟨_, heq, ⟨hs, h.tidy.unqueue hl outofbound⟩, hsame.shortens (fun _ => rfl) rfl,
        hremoves⟩

theorem removeTxs_keeps (ord : RangeOrder) (now : ℤ) (h : Good C pool) (txs : List Transaction)
    (outofbound : Bool) :
    ∃ pool', removeTxs C ord now outofbound pool txs = some pool' ∧ Good C pool' ∧
      Shortens pool pool' ∧ Unlists C outofbound txs pool.books pool'.books := by
  induction txs generalizing pool with
  | nil => exact ⟨pool, rfl, h, Shortens.refl _, .nil⟩
  | cons tx txs ih =>
    obtain ⟨pool₁, heq, hg, hsame, hbooks⟩ := removeTx_keeps ord now h tx outofbound
    obtain ⟨pool₂, heq₂, hg₂, hsame₂, hbooks₂⟩ := ih hg
    refine ⟨pool₂, ?_, hg₂, hsame.trans hsame₂, hbooks.cons hbooks₂⟩
    simp only [removeTxs, heq, Option.bind_eq_bind, Option.bind_some, heq₂]

/-- Removals the heap is not told of. -/
theorem removeTxs_expunge (h : Good C pool)
    (hr : removeTxs C ord now false pool txs = some pool') :
    pool'.books = { pool.books with all := pool.all.expunge C txs } := by
  obtain ⟨pool₁, heq, -, -, hbooks⟩ := removeTxs_keeps ord now h txs false
  obtain rfl : pool₁ = pool' := Option.some.inj (heq.symm.trans hr)
  exact hbooks

/-- The pool keeps its structure, and its books have a history. -/
structure Kept (C : Crypto) (seen : List Transaction) (pool pool' : TxPool) : Prop extends
    Good C pool' where
  history : History C seen pool.books pool'.books

theorem Kept.refl (h : Good C pool) : Kept C [] pool pool := ⟨h, .refl _⟩

theorem Kept.trans {seen seen' : List Transaction} (h : Kept C seen pool₁ pool₂)
    (h' : Kept C seen' pool₂ pool₃) : Kept C (seen ++ seen') pool₁ pool₃ :=
  ⟨h'.toGood, h.history.trans h'.history⟩

theorem Kept.quiet {seen : List Transaction} (h : Kept C seen pool₁ pool₂)
    (h' : Kept C [] pool₂ pool₃) : Kept C seen pool₁ pool₃ :=
  ⟨h'.toGood, h.history.quiet h'.history⟩

end Benzene.TxPool
