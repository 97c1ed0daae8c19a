import Benzene.Core.PoolInvariant

/-!
# The limit of a pool without local accounts

`add` (core/tx_pool.go:585-600) compares the number of transactions with
`GlobalSlots + GlobalQueue`, and makes room in a full pool by dropping the cheapest transactions
that are not local.  In a pool without local accounts that is enough: `Capped.add` and
`Within.runReorg` say that it never has more transactions than the limit.

* `Sheds`: transactions leave the table and no account becomes local, as in a history of the books
  in which nothing enters.
* `Room.fits`: after `makeRoom` there is room for one transaction.
* `Capped`: the invariant, for transactions that take at least one slot.
* `Within`: the invariant of a pool that never gets local accounts.
-/

namespace Benzene

/-! ## Counting -/

/-- Different elements of weight one, apart from those of a list. -/
theorem sum_le_length_add {α : Type*} [DecidableEq α] (f : α → ℕ) {l apart : List α}
    (hnd : l.Nodup) (h : ∀ x ∈ l, f x ≤ 1 ∨ x ∈ apart) :
    (l.map f).sum ≤ l.length + (apart.map f).sum := by
  induction l generalizing apart with
  | nil => simp
  | cons x l ih =>
    obtain ⟨hx, hnd⟩ := List.nodup_cons.1 hnd
    have hrest : ∀ y ∈ l, f y ≤ 1 ∨ y ∈ apart := fun y hy => h y (List.mem_cons_of_mem _ hy)
    rw [List.map_cons, List.sum_cons, List.length_cons]
    rcases h x List.mem_cons_self with hone | hmem
    · have hsum := ih hnd hrest
      omega
    · have herase : ∀ y ∈ l, f y ≤ 1 ∨ y ∈ apart.erase x := by
        intro y hy
        have hne : y ≠ x := by
          rintro rfl
          exact hx hy
        exact (hrest y hy).imp_right (List.mem_erase_of_ne hne).2
      have hsum := ih hnd herase
      have hperm := ((List.perm_cons_erase hmem).map f).sum_eq
      rw [List.map_cons, List.sum_cons] at hperm
      omega

theorem goInt_le_toNat (x : UInt64) : goInt x ≤ x.toNat := by
  rw [goInt_eq]
  split_ifs
  · exact le_rfl
  · omega

namespace TxLookup

variable {t : TxLookup}

theorem Tallied.slots_eq (h : t.Tallied) :
    t.slots = (((GoMap.values t.all).map numSlots).sum : ℕ) := by
  rw [h, Nat.cast_list_sum, List.map_map]
  rfl

theorem Tallied.count_le_slots (h : t.Tallied)
    (hpos : ∀ {k x}, t.get k = some x → 0 < numSlots x) : (t.count : ℤ) ≤ t.slots := by
  have hone : ∀ n ∈ (GoMap.values t.all).map numSlots, 1 ≤ n := by
    intro n hn
    obtain ⟨x, hx, rfl⟩ := List.mem_map.1 hn
    obtain ⟨k, hk⟩ := GoMap.mem_values_iff.1 hx
    exact hpos hk
  have hle := List.length_le_sum_of_one_le _ hone
  rw [List.length_map] at hle
  rw [h.slots_eq, count, GoMap.size_eq_length_values]
  exact_mod_cast hle

end TxLookup

namespace TxPool

open Books

variable {C : Crypto} {ord : RangeOrder} {now : ℤ} {pool pool' : TxPool} {tx : Transaction}
  {isLocal : Bool}

/-! ## Transactions that leave -/

/-- Transactions may have left the table, and no account has become local. -/
structure Sheds (pool pool' : TxPool) : Prop where
  config : pool'.config = pool.config
  locals : pool'.locals = pool.locals
  sub : ∀ {k t}, pool'.all.get k = some t → pool.all.get k = some t

/-- A history in which nothing enters. -/
theorem Sheds.of_history (h : History C [] pool.books pool'.books)
    (hconfig : pool'.config = pool.config) : Sheds pool pool' :=
  ⟨hconfig, h.locals_eq rfl, fun hk => (h.enters hk).resolve_right (List.not_mem_nil)⟩

theorem Sheds.count_le (h : Sheds pool pool') : pool'.all.count ≤ pool.all.count :=
  TxLookup.count_le_of_sub h.sub

variable {dirtyAccounts : Option AccountSet}

/-- A reorganisation that is not for a new head adds nothing. -/
theorem runReorg_sheds (h : Good C pool) (hslots : 1 ≤ pool.config.accountSlots.toNat)
    (hr : pool.runReorg C ord now none dirtyAccounts = some pool') : Sheds pool pool' := by
  obtain ⟨hkept, hfixed⟩ := runReorg_keeps h hslots hr
  exact .of_history hkept.history hfixed.config

/-! ## Admission -/

theorem globalLimit_le (pool : TxPool) : pool.globalLimit.toNat ≤
    pool.config.globalSlots.toNat + pool.config.globalQueue.toNat := by
  rw [globalLimit, UInt64.toNat_add]
  exact Nat.mod_le _ _

/-- A full pool has to free slots. -/
theorem excess_pos (h : Good C pool) (hpos : ∀ {k t}, pool.all.get k = some t → 0 < numSlots t)
    (htx : 0 < numSlots tx) (hfull : pool.globalLimit.toNat ≤ pool.all.count) :
    0 < pool.all.slots - goInt pool.globalLimit + numSlots tx := by
  have hle := h.sound.tallied.count_le_slots hpos
  have hint := goInt_le_toNat pool.globalLimit
  omega

/-- There is room for one transaction after `makeRoom`, unless the transaction is underpriced. -/
theorem Room.fits {r : TxPool × Bool} (hr : Room C ord now false pool tx r) (h : Good C pool)
    (hlocals : pool.locals = ∅)
    (hpos : ∀ {k t}, pool.all.get k = some t → 0 < numSlots t) (htx : 0 < numSlots tx)
    (hcount : pool.all.count ≤ pool.globalLimit.toNat) (hfits : r.2 = true) :
    r.1.all.count < pool.globalLimit.toNat := by
  have hshed : Sheds pool r.1 := .of_history (hr.keeps h).1.history (hr.keeps h).2.1.same.config
  cases hr with
  | free hfree => exact hfree
  | refused => cases hfits
  | @made d pool' hfull _ hd hremove =>
    have hquote : pool.quote C tx false = pool.priced.underpriced C pool.all pool.locals tx :=
      if_neg Bool.false_ne_true
    rw [giveUp, hquote] at hd
    obtain ⟨t, ht, hlive⟩ := TxPricedList.discard_front hlocals
      (fun t => TxPricedList.underpriced_front (hlocals ▸ TxPricedList.containsTx_empty tx))
      (excess_pos h hpos htx hfull) hd
    have hsome : (pool.all.get (C.txHash t)).isSome := by
      simpa [TxPricedList.isStale, Option.isSome_iff_ne_none] using hlive
    have hall : pool'.all = pool.all.expunge C d.2 :=
      congrArg Books.all (removeTxs_expunge (h.setPriced d.1) hremove)
    have hgone : pool'.all.get (C.txHash t) = none := by
      rw [hall, TxLookup.get_expunge, if_pos (List.mem_map_of_mem ht)]
    exact (TxLookup.count_lt_of_sub hshed.sub hsome hgone).trans_le hcount

variable {r : TxPool × Except TxError Bool}

theorem Inserted.locals (hr : Inserted C ord now false pool tx r) : r.1.locals = pool.locals := by
  cases hr <;> simp only [TxPool.setPending, TxPool.setQueue, TxPool.replaced, TxPool.settle,
    markLocal, journalTx, swapAll, allAdd, pricedRemoved, forgetAll, TxPool.requeue, firstBeat,
    Bool.false_eq_true, if_false]

/-- The new transaction takes one place in the table, or that of an older one. -/
theorem Inserted.grows (hr : Inserted C ord now isLocal pool tx r)
    (h : Sound C pool []) (hget : pool.all.get (C.txHash tx) = none) :
    r.1.all.count ≤ pool.all.count + 1 := by
  have hlen : (if r.2.isOk then [tx] else []).length ≤ 1 := by
    split_ifs
    · exact Nat.le_refl 1
    · exact Nat.zero_le 1
  exact (hr.history h hget).count_le.trans (Nat.add_le_add_left hlen _)

/-- A local transaction makes its account local, unless it takes the place of a pending one. -/
theorem Inserted.count_le (hr : Inserted C ord now true pool tx r) (h : Sound C pool [])
    (hget : pool.all.get (C.txHash tx) = none) (hlocals : r.1.locals = ∅) :
    r.1.all.count ≤ pool.all.count := by
  have hmarked : ∀ q : TxPool, ((q.requeue C now tx).settle C true tx).locals ≠ ∅ := by
    intro q
    have hbooks := congrArg Books.locals (@settle_requeue_books C now q tx true)
    exact hbooks.trans_ne (AccountSet.add_ne_empty _ _)
  cases hr with
  | pendingKept => exact Nat.le_refl _
  | @pendingReplaced l old hl hold =>
    have hold' := h.get_of_pending ((listAt_of_lookup hl _).trans hold)
    have hnone : (pool.all.drop C old).get (C.txHash tx) = none := by
      rw [TxLookup.get_drop, hget, ite_self]
    have hgone : (pool.all.drop C old).get (C.txHash old) = none := by
      rw [TxLookup.get_drop, if_pos rfl]
    have hlt := TxLookup.count_lt_of_sub TxLookup.get_of_get_drop (hold' ▸ rfl) hgone
    have hcount : (pool.swapAll C ord old tx).all.count = (pool.all.drop C old).count + 1 :=
      TxLookup.count_add hnone
    rw [replaced_all, hcount]
    exact hlt
  | queuedKept => exact Nat.le_refl _
  | queuedReplaced | queued => exact absurd hlocals (hmarked _)

/-! ## The invariant -/

/-- While the pool has no local accounts it is within its limit. -/
structure Capped (C : Crypto) (pool : TxPool) : Prop where
  good : Good C pool
  slots : ∀ {k t}, pool.all.get k = some t → 0 < numSlots t
  count : pool.locals = ∅ → pool.all.count ≤ pool.globalLimit.toNat

theorem newTxPool_capped (config : TxPoolConfig) (statedb : StateView) :
    Capped C (newTxPool config statedb) where
  good := newTxPool_good config statedb
  slots hk := by simp [newTxPool, TxLookup.new, TxLookup.get] at hk
  count _ := Nat.zero_le _

/-- Nothing enters. -/
theorem Capped.quiet (h : Capped C pool) (hkept : Kept C [] pool pool')
    (hconfig : pool'.config = pool.config) : Capped C pool' := by
  have hshed : Sheds pool pool' := .of_history hkept.history hconfig
  refine ⟨hkept.toGood, fun hk => h.slots (hshed.sub hk), fun hlocals => ?_⟩
  rw [globalLimit, hconfig]
  exact hshed.count_le.trans (h.count (hshed.locals.symm.trans hlocals))

theorem Capped.add (h : Capped C pool) (hr : pool.add C ord now tx isLocal = some r)
    (htx : r.2.isOk → 0 < numSlots tx) : Capped C r.1 := by
  obtain ⟨hkept, hshort⟩ := add_keeps h.good hr
  cases add_added h.good hr with
  | known | invalid => exact h
  | refused => exact h.quiet hkept hshort.same.config
  | @inserted room _ hget _ hroom hins =>
    by_cases hok : r.2.isOk
    · rw [if_pos hok] at hkept
      refine ⟨hkept.toGood, fun hk => ?_, fun hlocals => ?_⟩
      · rcases hkept.history.enters hk with hold | hnew
        · exact h.slots hold
        · exact List.mem_singleton.1 hnew ▸ htx hok
      · have hempty : pool.locals = ∅ := hkept.history.locals_empty hlocals
        obtain ⟨hgroom, -, hnone⟩ := hroom.keeps h.good
        rw [globalLimit, hshort.same.config, ← globalLimit]
        cases isLocal with
        | false =>
          have hlt : room.all.count < pool.globalLimit.toNat :=
            hroom.fits h.good hempty h.slots (htx hok) (h.count hempty) rfl
          have hle := hins.grows hgroom.sound (hnone _ hget)
          omega
        | true =>
          have hroomy : room.all.count ≤ pool.all.count := hgroom.history.count_le
          have hle := hins.count_le hgroom.sound (hnone _ hget) hlocals
          have hcount := h.count hempty
          omega
    · rw [if_neg hok] at hkept
      exact h.quiet hkept hshort.same.config

/-- The transaction takes one slot, or more if it is one of a list. -/
def TakesSlots (apart : List Transaction) (tx : Transaction) : Prop :=
  0 < numSlots tx ∧ (numSlots tx ≤ 1 ∨ tx ∈ apart)

/-- A pool without local accounts that is within its limit. -/
structure Within (C : Crypto) (config : TxPoolConfig) (apart : List Transaction)
    (pool : TxPool) : Prop where
  good : Good C pool
  config : pool.config = config.sanitize
  locals : pool.locals = ∅
  count : pool.all.count ≤ pool.globalLimit.toNat
  slots : ∀ {k t}, pool.all.get k = some t → TakesSlots apart t

section Within

variable {config : TxPoolConfig} {apart : List Transaction}

theorem Within.mono {apart' : List Transaction} (h : Within C config apart pool)
    (hsub : apart ⊆ apart') : Within C config apart' pool where
  good := h.good
  config := h.config
  locals := h.locals
  count := h.count
  slots hk := ⟨(h.slots hk).1, (h.slots hk).2.imp_right fun hmem => hsub hmem⟩

theorem Within.capped (h : Within C config apart pool) : Capped C pool :=
  ⟨h.good, fun hk => (h.slots hk).1, fun _ => h.count⟩

theorem Within.one_le_accountSlots (h : Within C config apart pool) :
    1 ≤ pool.config.accountSlots.toNat := by
  rw [h.config]
  exact one_le_atLeastOne (by decide)

theorem Within.sheds (h : Within C config apart pool) (hg : Good C pool')
    (hshed : Sheds pool pool') : Within C config apart pool' where
  good := hg
  config := hshed.config.trans h.config
  locals := hshed.locals.trans h.locals
  count := by
    rw [globalLimit, hshed.config]
    exact hshed.count_le.trans h.count
  slots hk := h.slots (hshed.sub hk)

theorem newTxPool_within (hlocals : config.locals = []) (statedb : StateView) :
    Within C config [] (newTxPool config statedb) where
  good := newTxPool_good config statedb
  config := rfl
  locals := by simp [newTxPool, TxPoolConfig.sanitize, hlocals]
  count := Nat.zero_le _
  slots hk := by simp [newTxPool, TxLookup.new, TxLookup.get] at hk

theorem Within.add (h : Within C config apart pool) (htx : TakesSlots apart tx)
    (hr : pool.add C ord now tx false = some r) :
    Within C config apart r.1 := by
  obtain ⟨hkept, hshort⟩ := add_keeps h.good hr
  have hlocals : r.1.locals = ∅ := by
    cases add_added h.good hr with
    | known | invalid => exact h.locals
    | refused _ _ hroom => exact ((hroom.keeps h.good).1.history.locals_eq rfl).trans h.locals
    | inserted _ _ hroom hins =>
      exact hins.locals.trans (((hroom.keeps h.good).1.history.locals_eq rfl).trans h.locals)
  refine ⟨hkept.toGood, hshort.same.config.trans h.config, hlocals,
    (h.capped.add hr fun _ => htx.1).count hlocals, fun hk => ?_⟩
  rcases hkept.history.enters hk with hold | hnew
  · exact h.slots hold
  · split_ifs at hnew
    · exact List.mem_singleton.1 hnew ▸ htx
    · cases hnew

variable {txs : List Transaction}

section

variable (h : Within C config apart pool)

include h

theorem Within.outcomes {start : TxPool} (htxs : ∀ tx ∈ txs, TakesSlots apart tx)
    {r : TxPool × List (Option TxError)} (hr : outcomes C ord now false start pool txs = some r) :
    Within C config apart r.1 := by
  induction txs generalizing pool r with
  | nil =>
    obtain rfl := Option.some.inj hr
    exact h
  | cons tx txs ih =>
    have htxs' : ∀ t ∈ txs, TakesSlots apart t := fun t ht => htxs t (List.mem_cons_of_mem _ ht)
    obtain ⟨pool₁, err, r', hr', hpool, -, ⟨rfl, -⟩ | ⟨-, res, hadd⟩⟩ := of_outcomes_cons hr
    all_goals rw [hpool]
    · exact ih h htxs' hr'
    · exact ih (h.add (htxs tx List.mem_cons_self) hadd) htxs' hr'

theorem Within.addTxs (htxs : ∀ tx ∈ txs, TakesSlots apart tx)
    {r : TxPool × List (Option TxError) × Option AccountSet}
    (hr : pool.addTxs C ord now txs false = some r) : Within C config apart r.1 :=
  h.outcomes htxs (outcomes_of_addTxs hr)

theorem Within.runReorg (hr : pool.runReorg C ord now none dirtyAccounts = some pool') :
    Within C config apart pool' :=
  h.sheds (runReorg_keeps h.good h.one_le_accountSlots hr).1.toGood
    (runReorg_sheds h.good h.one_le_accountSlots hr)

/-- The slots of a pool that is within its limit. -/
theorem Within.slots_le :
    pool.all.slots ≤ pool.config.globalSlots.toNat + pool.config.globalQueue.toNat +
      (apart.map numSlots).sum := by
  have hone : ∀ t ∈ GoMap.values pool.all.all, numSlots t ≤ 1 ∨ t ∈ apart := by
    intro t ht
    obtain ⟨k, hk⟩ := GoMap.mem_values_iff.1 ht
    exact (h.slots hk).2
  have hsum := sum_le_length_add numSlots h.good.sound.values_nodup hone
  have hcount := h.count
  have hlimit := pool.globalLimit_le
  rw [TxLookup.count, GoMap.size_eq_length_values] at hcount
  rw [h.good.sound.tallied.slots_eq]
  omega

end

end Within

end TxPool

end Benzene
