import Benzene.Core.PoolInvariant

/-!
# Fairness of the truncation

What `truncatePending` (core/tx_pool.go:1255-1337) leaves of each account, in terms of the
transactions in nonce order: `truncatePending_fair`.

The level at which the lists are cut is `truncatePending_spec`.
-/

namespace Benzene.TxPool

variable {C : Crypto} {ord : RangeOrder} {pool pool' : TxPool} {a b : Address} {t : Transaction}

/-! ## Fairness -/

/-- What the truncation is to do to the pending lists. -/
structure FairlyCut (pool pool' : TxPool) : Prop where
  /-- The pool fits, or no account that is not local is above its share. -/
  bounded : pool'.pendingCount ≤ pool.config.globalSlots.toNat ∨
    ∀ a, AccountSet.contains pool.locals a = false →
      (pool'.pendingTxs a).length ≤ pool.config.accountSlots.toNat
  untouched : ∀ a, AccountSet.contains pool.locals a = true ∨
    (pool.pendingTxs a).length ≤ pool.config.accountSlots.toNat →
      pool'.pendingTxs a = pool.pendingTxs a
  /-- No account is cut below its share. -/
  share : ∀ a, pool'.pendingTxs a ≠ pool.pendingTxs a →
    pool.config.accountSlots.toNat ≤ (pool'.pendingTxs a).length
  /-- The transactions with the lowest nonces stay. -/
  lowest : ∀ a, pool'.pendingTxs a <+: pool.pendingTxs a
  /-- The accounts that are cut end with the same length. -/
  level : ∀ a b, pool'.pendingTxs a ≠ pool.pendingTxs a →
    pool'.pendingTxs b ≠ pool.pendingTxs b →
      (pool'.pendingTxs a).length = (pool'.pendingTxs b).length

theorem FairlyCut.refl (h : pool.pendingCount ≤ pool.config.globalSlots.toNat) :
    FairlyCut pool pool where
  bounded := Or.inl h
  untouched _ _ := rfl
  share _ hne := absurd rfl hne
  lowest _ := List.prefix_refl _
  level _ _ hne := absurd rfl hne

variable {spammers : List Address} {level : ℕ}

theorem Cutoff.length_pendingTxs {base : TxPool} (h : Cutoff C base spammers level pool)
    (a : Address) : (pool.pendingTxs a).length =
      if a ∈ spammers then min (base.pendingTxs a).length level
      else (base.pendingTxs a).length := by
  rw [TxPool.length_pendingTxs, TxPool.length_pendingTxs, h.cut a]
  cases base.pendingLen a with
  | none => simp
  | some n => simp

/-- The lists that are cut are at the level. -/
theorem Cutoff.of_ne {base : TxPool} (h : Cutoff C base spammers level pool)
    (hne : pool.pendingTxs a ≠ base.pendingTxs a) :
    a ∈ spammers ∧ (pool.pendingTxs a).length = level := by
  have hlen := h.length_pendingTxs a
  have hlt : (pool.pendingTxs a).length < (base.pendingTxs a).length := by
    by_contra hge
    exact hne ((h.trims.front a).eq_of_length_le (not_lt.1 hge))
  split_ifs at hlen with hmem
  · exact ⟨hmem, by omega⟩
  · omega

theorem Cutoff.fairlyCut (h : Cutoff C pool (pool.spammers ord) level pool')
    (hlevel : pool.config.accountSlots.toNat ≤ level)
    (hstop : pool'.pendingCount ≤ pool.config.globalSlots.toNat ∨
      level = pool.config.accountSlots.toNat) : FairlyCut pool pool' where
  bounded := by
    refine hstop.imp_right fun hlow a hloc => ?_
    rw [h.length_pendingTxs a]
    split_ifs with hmem
    · exact (min_le_right _ _).trans hlow.le
    · by_contra hgt
      rw [TxPool.length_pendingTxs] at hgt
      cases hn : pool.pendingLen a with
      | none => simp [hn] at hgt
      | some n => exact hmem (mem_spammers.2 ⟨hloc, n, hn, by simpa [hn] using hgt⟩)
  untouched := by
    intro a ha
    by_contra hne
    obtain ⟨hloc, n, hn, hlt⟩ := mem_spammers.1 (h.of_ne hne).1
    rcases ha with ha | ha
    · simp [hloc] at ha
    · rw [TxPool.length_pendingTxs, hn, Option.getD_some] at ha
      omega
  share a hne := (h.of_ne hne).2 ▸ hlevel
  lowest := h.trims.front
  level a b hne hne' := (h.of_ne hne).2.trans (h.of_ne hne').2.symm

/-- **Fair truncation.**  In every pool that keeps its structure, the truncation of the pending
    lists ends, and it is fair.  A pool of a run keeps its structure between any two operations
    (`runEvents_good`), and within a reorganisation (`promoteExecutables_keeps`,
    `demoteAccounts_keeps`). -/
theorem truncatePending_fair (C : Crypto) (ord : RangeOrder) (pool : TxPool) (h : Good C pool)
    (hslots : 1 ≤ pool.config.accountSlots.toNat) :
    ∃ pool', pool.truncatePending C ord = some pool' ∧ FairlyCut pool pool' := by
  by_cases hfit : pool.pendingCount ≤ pool.config.globalSlots.toNat
  · exact ⟨pool, truncatePending_of_fits hfit, .refl hfit⟩
  · obtain ⟨pool', level, heq, hcut, hlevel, hstop⟩ :=
      truncatePending_spec ord h hslots (not_le.1 hfit)
    exact ⟨pool', heq, hcut.fairlyCut hlevel hstop⟩

end Benzene.TxPool

namespace Benzene.Concrete

open TxPool

/-- A pool with one slot for each account and three for all of them. -/
def sharedConfig : TxPoolConfig :=
  { defaultTxPoolConfig with accountSlots := 1, globalSlots := 3 }

/-- Three transactions of one account and two of another arrive and are promoted. -/
def promotion : Option TxPool :=
  ((newTxPool sharedConfig (uniformState 0 100)).addTxs crypto rangeOrder 0
      [pay 7 0 5, pay 7 1 5, pay 7 2 5, pay 8 0 5, pay 8 1 5] false).bind fun r =>
    promoteExecutables crypto rangeOrder 0 r.1
      [crypto.poolSender (pay 7 0 5), crypto.poolSender (pay 8 0 5)]

def promotedPool : TxPool :=
  promotion.get (by decide +kernel)

theorem good_promotedPool : Good crypto promotedPool := by
  have hrun : promotion = some promotedPool := (Option.some_get _).symm
  obtain ⟨r, hadd, hpromote⟩ := Option.bind_eq_some_iff.1 hrun
  have hg := (addTxs_keeps (newTxPool_good _ _) hadd).1.toGood
  exact (promoteExecutables_keeps hg hpromote).1.toGood

/-- Both accounts are cut, to one transaction each: the round that brings the pool under its
    limit is finished for both. -/
theorem promotedPool_fairlyCut :
    promotedPool.pendingCount = 5 ∧ 1 ≤ promotedPool.config.accountSlots.toNat ∧
      (promotedPool.truncatePending crypto rangeOrder).map
        (fun pool => pool.pendingTxs (crypto.poolSender (pay 7 0 5))) = some [pay 7 0 5] ∧
      (promotedPool.truncatePending crypto rangeOrder).map
        (fun pool => pool.pendingTxs (crypto.poolSender (pay 8 0 5))) = some [pay 8 0 5] ∧
      ∃ pool', promotedPool.truncatePending crypto rangeOrder = some pool' ∧
        FairlyCut promotedPool pool' := by
  have hbooks : (promotedPool.pendingCount, promotedPool.config.accountSlots) = (5, 1) := by
    decide +kernel
  have hlists : (promotedPool.truncatePending crypto rangeOrder).map (fun pool =>
      (pool.pendingTxs (crypto.poolSender (pay 7 0 5)),
        pool.pendingTxs (crypto.poolSender (pay 8 0 5)))) = some ([pay 7 0 5], [pay 8 0 5]) := by
    decide +kernel
  obtain ⟨hcount, hconfig⟩ := Prod.mk.inj hbooks
  have hslots : 1 ≤ promotedPool.config.accountSlots.toNat := by
    rw [hconfig]
    decide
  obtain ⟨pool', heq, hcut⟩ :=
    truncatePending_fair crypto rangeOrder promotedPool good_promotedPool hslots
  rw [heq] at hlists
  obtain ⟨hfirst, hsecond⟩ := Prod.mk.inj (Option.some.inj hlists)
  refine ⟨hcount, hslots, ?_, ?_, pool', heq, hcut⟩
  · rw [heq, Option.map_some, hfirst]
  · rw [heq, Option.map_some, hsecond]

end Benzene.Concrete
