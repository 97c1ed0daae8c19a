import Benzene.Core.AdmissionSafe

/-!
# Slots of remote transactions

A pool is full when it has `GlobalSlots + GlobalQueue` transactions (core/tx_pool.go:586), however
many slots they take.  While it has no local accounts it never has more transactions, whatever is
done with it (`runEvents_capped`), so the slots stay within the limit if each transaction takes
one, and within four times the limit otherwise: `remote_slots_le`.
-/

namespace Benzene.TxPool

open Books

variable {C : Crypto} {ord : RangeOrder} {now : ℤ} {pool pool' : TxPool} {tx : Transaction}
  {txs : List Transaction} {isLocal : Bool}

theorem addTxsLoop_capped {errs : List (Option TxError)} {dirty : AccountSet}
    {r : TxPool × List (Option TxError) × AccountSet}
    (hr : addTxsLoop C ord now isLocal pool txs errs dirty = some r) :
    ∃ errs', r.2.1 = errs ++ errs' ∧
      (Capped C pool → (∀ tx ∈ admitted txs errs', 0 < numSlots tx) → Capped C r.1) := by
  induction txs generalizing pool errs dirty with
  | nil =>
    obtain rfl := Option.some.inj hr
    exact ⟨[], (List.append_nil _).symm, fun h _ => h⟩
  | cons tx txs ih =>
    obtain ⟨⟨pool₁, err | replaced⟩, hadd, hr⟩ := Option.bind_eq_some_iff.1 hr
    all_goals obtain ⟨errs', heq, hcapped⟩ := ih hr
    · refine ⟨some err :: errs', by simp [heq], fun h hpos => ?_⟩
      exact hcapped (h.add hadd fun hok => absurd hok Bool.false_ne_true) hpos
    · refine ⟨none :: errs', by simp [heq], fun h hpos => ?_⟩
      exact hcapped (h.add hadd fun _ => hpos tx List.mem_cons_self)
        fun t ht => hpos t (List.mem_cons_of_mem _ ht)

section

variable (h : Capped C pool)

include h

theorem Capped.addTxsLocked {r : TxPool × List (Option TxError) × AccountSet}
    (hr : pool.addTxsLocked C ord now txs isLocal = some r)
    (hpos : ∀ tx ∈ pool.admits C ord now txs isLocal, 0 < numSlots tx) : Capped C r.1 := by
  obtain ⟨errs, heq, hcapped⟩ := addTxsLoop_capped hr
  rw [admits, hr, Option.map_some, Option.getD_some, heq] at hpos
  exact hcapped h hpos

theorem Capped.addTxs
    {r : TxPool × List (Option TxError) × Option AccountSet}
    (hr : pool.addTxs C ord now txs isLocal = some r)
    (hpos : ∀ tx ∈ pool.admits C ord now (txs.filter fun tx => (pool.knownOrInvalid C tx).isNone)
      isLocal, 0 < numSlots tx) : Capped C r.1 := by
  simp only [TxPool.addTxs] at hr
  split_ifs at hr
  · obtain rfl := Option.some.inj hr
    exact h
  · obtain ⟨r', hr', hr⟩ := Option.bind_eq_some_iff.1 hr
    obtain rfl := Option.some.inj hr
    exact h.addTxsLocked hr' hpos

theorem Capped.reset {req : ResetRequest} (hr : pool.reset C ord now req = some pool')
    (hpos : ∀ tx ∈ pool.readmits C ord now req, 0 < numSlots tx) : Capped C pool' := by
  rcases reset_cases h.good hr with ⟨rfl, -⟩ | ⟨txs, statedb, r, hwalk, hstate, hg, hadd, rfl⟩
  · exact h
  · have hfresh : Capped C { pool with currentState := statedb, pendingNonces := .new statedb } :=
      ⟨hg, h.slots, h.count⟩
    rw [readmits_of_state hwalk hstate] at hpos
    exact hfresh.addTxsLocked hadd hpos

theorem Capped.runReorg (hslots : 1 ≤ pool.config.accountSlots.toNat) {req : Option ResetRequest}
    {dirtyAccounts : Option AccountSet}
    (hr : pool.runReorg C ord now req dirtyAccounts = some pool')
    (hpos : ∀ tx ∈ pool.entrants C ⟨ord, now, .runReorg req dirtyAccounts⟩, 0 < numSlots tx) :
    Capped C pool' := by
  obtain ⟨hkept, hfixed⟩ := runReorg_keeps h.good hslots hr
  cases req with
  | none => exact h.quiet hkept hfixed.config
  | some req =>
    rw [runReorg_eq] at hr
    obtain ⟨pool₁, hpool₁, hr⟩ := Option.bind_eq_some_iff.1 hr
    obtain ⟨pool₀, hpool₀, hkept₁, hfixed₁⟩ := shifted_reset h.good hpool₁
    have hconfig : pool'.config = pool₀.config :=
      hfixed.config.trans (reset_keeps h.good hpool₀).2.config.symm
    exact (h.reset hpool₀ hpos).quiet
      (hkept₁.quiet (finishReorg_keeps hkept₁.toGood (hfixed₁.config ▸ hslots) hr).1) hconfig

theorem Capped.step (hslots : 1 ≤ pool.config.accountSlots.toNat) {e : Event}
    (hr : pool.step C e = some pool') (hpos : ∀ tx ∈ pool.entrants C e, 0 < numSlots tx) :
    Capped C pool' := by
  obtain ⟨hkept, hfixed⟩ := step_keeps h.good hslots hr
  obtain ⟨ord, now, op⟩ := e
  cases op with
  | addLocals txs | addRemotes txs =>
    obtain ⟨r, hadd, rfl⟩ := Option.map_eq_some_iff.1 hr
    exact h.addTxs hadd hpos
  | setGasPrice price => exact h.quiet hkept hfixed.config
  | runReorg req dirtyAccounts => exact h.runReorg hslots hr hpos
  | evict => exact h.quiet hkept hfixed.config

/-- Every run keeps the pool within its limit while it has no local accounts. -/
theorem runEvents_capped (hslots : 1 ≤ pool.config.accountSlots.toNat) {events : List Event}
    (hr : runEvents C pool events = some pool')
    (hpos : ∀ tx ∈ accepted C pool events, 0 < numSlots tx) : Capped C pool' := by
  induction events generalizing pool with
  | nil =>
    obtain rfl := Option.some.inj hr
    exact h
  | cons e events ih =>
    obtain ⟨pool₁, hstep, hr⟩ := Option.bind_eq_some_iff.1 hr
    rw [accepted, hstep, Option.map_some, Option.getD_some] at hpos
    have h₁ := h.step hslots hstep fun tx htx => hpos tx (List.mem_append_left _ htx)
    exact ih h₁ ((step_keeps h.good hslots hstep).2.config ▸ hslots) hr
      fun tx htx => hpos tx (List.mem_append_right _ htx)

end

/-- Transactions of at most `n` slots each. -/
theorem slots_le_mul (h : Good C pool) {n : ℕ}
    (hn : ∀ {k t}, pool.all.get k = some t → numSlots t ≤ n) :
    pool.all.slots ≤ (n * pool.all.count : ℕ) := by
  have hle : ∀ m ∈ (GoMap.values pool.all.all).map numSlots, m ≤ n := by
    intro m hm
    obtain ⟨t, ht, rfl⟩ := List.mem_map.1 hm
    obtain ⟨k, hk⟩ := GoMap.mem_values_iff.1 ht
    exact hn hk
  have hsum := List.sum_le_card_nsmul _ n hle
  rw [List.length_map, smul_eq_mul, Nat.mul_comm] at hsum
  rw [h.sound.tallied.slots_eq, TxLookup.count, GoMap.size_eq_length_values]
  exact_mod_cast hsum

/-- **Slots of remote transactions.**  In every run whose transactions take one to four slots each,
    a pool that has no local account has at most as many transactions as its limit.  Their slots
    are within four times the limit, and within the limit if every transaction of the pool takes
    one slot. -/
theorem remote_slots_le (C : Crypto) (config : TxPoolConfig) (statedb : StateView)
    (events : List Event) (pool : TxPool)
    (h : runEvents C (newTxPool config statedb) events = some pool) (hlocals : pool.locals = ∅)
    (hsize : ∀ tx ∈ accepted C (newTxPool config statedb) events,
      1 ≤ numSlots tx ∧ numSlots tx ≤ 4) :
    pool.all.count ≤ pool.config.globalSlots.toNat + pool.config.globalQueue.toNat ∧
      pool.all.slots ≤ 4 * (pool.config.globalSlots.toNat + pool.config.globalQueue.toNat) ∧
      ((∀ k t, pool.all.get k = some t → numSlots t = 1) →
        pool.all.slots ≤ pool.config.globalSlots.toNat + pool.config.globalQueue.toNat) := by
  have hone : 1 ≤ (newTxPool config statedb).config.accountSlots.toNat :=
    one_le_atLeastOne (by decide)
  have hcapped := runEvents_capped (newTxPool_capped config statedb) hone h
    fun tx htx => (hsize tx htx).1
  have hist := (runEvents_keeps (newTxPool_good config statedb) hone h).1.history
  have hfour : ∀ {k t}, pool.all.get k = some t → numSlots t ≤ 4 := by
    intro k t hk
    rcases hist.enters hk with hold | hnew
    · simp [books, newTxPool, TxLookup.new, TxLookup.get] at hold
    · exact (hsize t hnew).2
  have hcount := hcapped.count hlocals
  have hlimit := pool.globalLimit_le
  refine ⟨hcount.trans hlimit, ?_, fun hunit => ?_⟩
  · have hslots := slots_le_mul hcapped.good hfour
    push_cast at hslots
    omega
  · have hslots := slots_le_mul hcapped.good fun hk => (hunit _ _ hk).le
    omega

end Benzene.TxPool

namespace Benzene.Concrete

open TxPool

/-- The bounds in a full pool of two transactions of one slot. -/
theorem filledPool_slots :
    (∀ tx ∈ accepted crypto (newTxPool tightConfig (uniformState 0 100))
        [poolEvent (.addRemotes [payAt 1 8 0, payAt 10 7 0])],
          1 ≤ numSlots tx ∧ numSlots tx ≤ 4) ∧
      filledPool.locals = ∅ ∧
      filledPool.all.count ≤ filledPool.config.globalSlots.toNat +
        filledPool.config.globalQueue.toNat := by
  have hsize : ∀ tx ∈ accepted crypto (newTxPool tightConfig (uniformState 0 100))
      [poolEvent (.addRemotes [payAt 1 8 0, payAt 10 7 0])],
        1 ≤ numSlots tx ∧ numSlots tx ≤ 4 := by decide +kernel
  have hlocals : filledPool.locals = ∅ :=
    AList.ext (List.length_eq_zero_iff.1 (by decide +kernel))
  exact ⟨hsize, hlocals, (remote_slots_le crypto tightConfig (uniformState 0 100) _ filledPool
    (Option.some_get _).symm hlocals hsize).1⟩

theorem heavyPool_slots : heavyPool.all.slots = 4 := by
  have hslots : heavyPool.all.slots = 0 + (numSlots heavy : ℤ) := by
    rw [heavyPool_all]
    rfl
  rw [hslots, numSlots_heavy]
  rfl

/-- One remote transaction of four slots in a pool for two. -/
theorem remote_slots_exceed :
    runEvents coarseCrypto (newTxPool tightConfig (uniformState 0 100))
        [poolEvent (.addRemotes [heavy])] = some heavyPool ∧
      heavyPool.locals = ∅ ∧ numSlots heavy = 4 ∧
      heavyPool.config.globalSlots.toNat + heavyPool.config.globalQueue.toNat = 2 ∧
      heavyPool.all.slots = 4 := by
  refine ⟨?_, rfl, numSlots_heavy, rfl, heavyPool_slots⟩
  rw [← emptyPool, runEvents, Run.runPartial, List.foldlM_cons, heavyPool_step,
    Option.bind_eq_bind, Option.bind_some, List.foldlM_nil, Option.pure_def]

end Benzene.Concrete
