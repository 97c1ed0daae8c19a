import Benzene.Common.Run
import Benzene.Core.Truncation

/-!
# The structure of the pool

`pool_structured`: after any sequence of additions, price changes, reorganisations and evictions
the lookup table has exactly the pending and the queued transactions, an account has no nonce in
both of its lists, the slots are counted, no list is empty and every queue has a heartbeat.

The step lemma is `step_keeps`: every operation keeps `Good`, and is a history of the books in which
the transactions it accepts enter in their order: `entrants`, and `accepted` for a run.
-/

namespace Benzene.TxPool

open Books

variable {C : Crypto} {ord : RangeOrder} {now : ℤ} {pool pool' : TxPool} {a : Address}
  {t : Transaction}

/-! ## Reorganisations and evictions -/

theorem truncatePending_keeps (h : Good C pool) (hslots : 1 ≤ pool.config.accountSlots.toNat)
    (hr : pool.truncatePending C ord = some pool') :
    Kept C [] pool pool' ∧ Shortens pool pool' := by
  by_cases hfit : pool.pendingCount ≤ pool.config.globalSlots.toNat
  · rw [truncatePending_of_fits hfit] at hr
    obtain rfl := Option.some.inj hr
    exact ⟨.refl h, Shortens.refl _⟩
  · obtain ⟨pool₁, level, heq, hcut, -⟩ := truncatePending_spec ord h hslots (Nat.not_le.1 hfit)
    obtain rfl : pool₁ = pool' := Option.some.inj (heq.symm.trans hr)
    exact ⟨⟨hcut.good, hcut.trims.history⟩, hcut.trims.shortens⟩

theorem removeTxs_append (txs txs' : List Transaction) (outofbound : Bool) :
    removeTxs C ord now outofbound pool (txs ++ txs') =
      (removeTxs C ord now outofbound pool txs).bind
        fun pool => removeTxs C ord now outofbound pool txs' := by
  induction txs generalizing pool with
  | nil => rfl
  | cons tx txs ih =>
    simp only [List.cons_append, removeTxs, ih, Option.bind_eq_bind, Option.bind_assoc]

variable {accounts : List Address}

/-- All that `truncateQueue` does is to remove transactions. -/
theorem truncateLoop_removes {drop : ℕ}
    (hr : truncateLoop C ord now accounts pool drop = some pool') :
    ∃ txs, removeTxs C ord now true pool txs = some pool' := by
  induction accounts generalizing pool drop with
  | nil => exact ⟨[], hr⟩
  | cons a accounts ih =>
    have hremove : ∀ txs drop', (removeTxs C ord now true pool txs).bind
        (fun pool => truncateLoop C ord now accounts pool drop') = some pool' →
        ∃ txs, removeTxs C ord now true pool txs = some pool' := by
      intro txs drop' hr
      obtain ⟨pool₁, heq, hr⟩ := Option.bind_eq_some_iff.1 hr
      obtain ⟨txs', htxs'⟩ := ih hr
      exact ⟨txs ++ txs', by rw [removeTxs_append, heq, Option.bind_some, htxs']⟩
    simp only [truncateLoop] at hr
    split_ifs at hr
    · obtain ⟨list, -, hr⟩ := Option.bind_eq_some_iff.1 hr
      split_ifs at hr
      · exact hremove _ _ hr
      · exact hremove _ _ hr
    · exact ⟨[], hr⟩

theorem truncateQueue_removes (hr : pool.truncateQueue C ord now = some pool') :
    ∃ txs, removeTxs C ord now true pool txs = some pool' := by
  simp only [truncateQueue] at hr
  split_ifs at hr
  · exact ⟨[], hr⟩
  · exact truncateLoop_removes hr

theorem evictLoop_removes (hr : evictLoop C ord now pool accounts = some pool') :
    ∃ txs, removeTxs C ord now true pool txs = some pool' := by
  induction accounts generalizing pool with
  | nil => exact ⟨[], hr⟩
  | cons a accounts ih =>
    simp only [evictLoop] at hr
    split_ifs at hr
    · exact ih hr
    · obtain ⟨list, -, hr⟩ := Option.bind_eq_some_iff.1 hr
      obtain ⟨pool₁, heq, hr⟩ := Option.bind_eq_some_iff.1 hr
      obtain ⟨txs, htxs⟩ := ih hr
      exact ⟨list.flatten ++ txs, by rw [removeTxs_append, heq, Option.bind_some, htxs]⟩
    · exact ih hr

theorem removed_keeps (h : Good C pool)
    (hr : ∃ txs, removeTxs C ord now true pool txs = some pool') :
    Kept C [] pool pool' ∧ Shortens pool pool' := by
  obtain ⟨txs, hr⟩ := hr
  obtain ⟨pool₁, heq, hg, hsame, hist⟩ := removeTxs_keeps ord now h txs true
  obtain rfl : pool₁ = pool' := Option.some.inj (heq.symm.trans hr)
  exact ⟨⟨hg, hist⟩, hsame⟩

theorem truncateQueue_keeps (h : Good C pool) (hr : pool.truncateQueue C ord now = some pool') :
    Kept C [] pool pool' ∧ Shortens pool pool' :=
  removed_keeps h (truncateQueue_removes hr)

/-- The last loop of `runReorg` only sets pool nonces. -/
theorem setNonces_eq (hr : setNonces pool accounts = some pool') :
    ∃ nonces, pool' = { pool with pendingNonces := nonces } := by
  induction accounts generalizing pool with
  | nil => exact ⟨_, (Option.some.inj hr).symm⟩
  | cons a accounts ih =>
    obtain ⟨list, -, hr⟩ := Option.bind_eq_some_iff.1 hr
    obtain ⟨highest, -, hr⟩ := Option.bind_eq_some_iff.1 hr
    obtain ⟨nonces, rfl⟩ := ih hr
    exact ⟨nonces, rfl⟩

theorem setNonces_isSome (hne : ∀ {a l}, pool.pending.lookup a = some l → l.len ≠ 0)
    (hin : ∀ a ∈ accounts, ∃ l, pool.pending.lookup a = some l) :
    ∃ pool', setNonces pool accounts = some pool' := by
  induction accounts generalizing pool with
  | nil => exact ⟨pool, rfl⟩
  | cons a accounts ih =>
    obtain ⟨l, hl⟩ := hin a List.mem_cons_self
    obtain ⟨t, ht⟩ := Option.ne_none_iff_exists'.1 fun hnone =>
      TxList.flatten_ne_nil (hne hl) (List.getLast?_eq_none_iff.1 hnone)
    simp only [setNonces, hl, TxList.lastElement, ht, Option.bind_eq_bind, Option.bind_some]
    exact ih hne fun b hb => hin b (List.mem_cons_of_mem _ hb)

/-- Every pending list has a last transaction. -/
theorem setNonces_returns (ord : RangeOrder) (h : Good C pool) :
    ∃ pool', setNonces pool (ord.order pool.pending.keys) = some pool' := by
  refine setNonces_isSome (fun hl => h.tidy.pending_ne hl (by simp)) fun a ha => ?_
  rw [RangeOrder.mem_order] at ha
  exact GoMap.mem_keys_iff.1 ha

theorem finishReorg_keeps (h : Good C pool) (hslots : 1 ≤ pool.config.accountSlots.toNat)
    (hr : pool.finishReorg C ord now = some pool') :
    Kept C [] pool pool' ∧ Same pool pool' := by
  obtain ⟨pool₁, hpool₁, hr⟩ := Option.bind_eq_some_iff.1 hr
  obtain ⟨pool₂, hpool₂, hr⟩ := Option.bind_eq_some_iff.1 hr
  obtain ⟨hg₁, hsame₁⟩ := truncatePending_keeps h hslots hpool₁
  obtain ⟨hg₂, hsame₂⟩ := truncateQueue_keeps hg₁.toGood hpool₂
  obtain ⟨nonces, rfl⟩ := setNonces_eq hr
  have hsame := (hsame₁.trans hsame₂).same
  exact ⟨⟨⟨hg₂.sound.congr rfl rfl rfl, hg₂.tidy.congr rfl rfl rfl⟩,
    hg₁.history.quiet hg₂.history⟩, ⟨hsame.config, hsame.currentState, hsame.currentMaxGas⟩⟩

variable {req : ResetRequest}

/-- A reset is given up, or the transactions that have left the chain come back at the new
    state. -/
theorem reset_cases (h : Good C pool) (hr : pool.reset C ord now req = some pool') :
    (pool' = pool ∧ ∀ txs statedb, reinject C req = some (.found txs) →
      req.chain.stateAt req.newHead.root ≠ some statedb) ∨
    ∃ txs statedb r, reinject C req = some (.found txs) ∧
      req.chain.stateAt req.newHead.root = some statedb ∧
      Good C { pool with currentState := statedb, pendingNonces := .new statedb } ∧
      addTxsLocked C ord now { pool with currentState := statedb, pendingNonces := .new statedb }
        txs false = some r ∧ pool' = r.1 := by
  obtain ⟨walk, hwalk, hr⟩ := Option.bind_eq_some_iff.1 hr
  cases walk with
  | unrooted =>
    left
    refine ⟨(Option.some.inj hr).symm, fun txs statedb hfound => ?_⟩
    cases hwalk.symm.trans hfound
  | found txs =>
    cases hstate : req.chain.stateAt req.newHead.root with
    | none =>
      left
      simp only [hstate] at hr
      exact ⟨(Option.some.inj hr).symm, by simp⟩
    | some statedb =>
      right
      simp only [hstate] at hr
      obtain ⟨r, hadd, hr⟩ := Option.bind_eq_some_iff.1 hr
      exact ⟨txs, statedb, r, hwalk, rfl,
        ⟨h.sound.congr rfl rfl rfl, h.tidy.congr rfl rfl rfl⟩, hadd, (Option.some.inj hr).symm⟩

/-- The transactions that a reset puts back into the pool. -/
def readmits (C : Crypto) (ord : RangeOrder) (now : ℤ) (pool : TxPool) (req : ResetRequest) :
    List Transaction :=
  match reinject C req, req.chain.stateAt req.newHead.root with
  | some (.found txs), some statedb =>
    admits C ord now { pool with currentState := statedb, pendingNonces := .new statedb } txs false
  | _, _ => []

variable {statedb : StateView}

theorem readmits_of_state {txs : List Transaction} (hwalk : reinject C req = some (.found txs))
    (hstate : req.chain.stateAt req.newHead.root = some statedb) :
    pool.readmits C ord now req = admits C ord now
      { pool with currentState := statedb, pendingNonces := .new statedb } txs false := by
  simp only [readmits, hwalk, hstate]

theorem reset_keeps (h : Good C pool) (hr : pool.reset C ord now req = some pool') :
    Kept C (pool.readmits C ord now req) pool pool' ∧ Fixed pool pool' := by
  rcases reset_cases h hr with ⟨rfl, hnone⟩ | ⟨txs, statedb, r, hwalk, hstate, hg, hadd, rfl⟩
  · have hreadmits : pool'.readmits C ord now req = [] := by
      unfold readmits
      split
      · rename_i txs statedb hwalk hstate
        exact absurd hstate (hnone txs statedb hwalk)
      · rfl
    rw [hreadmits]
    exact ⟨.refl h, ⟨rfl, rfl⟩⟩
  · obtain ⟨hg', hsame⟩ := addTxsLocked_keeps hg hadd
    rw [readmits_of_state hwalk hstate]
    exact ⟨⟨hg'.toGood, hg'.history⟩, ⟨hsame.same.config, hsame.same.currentMaxGas⟩⟩

/-- The transactions that an operation brings into the pool. -/
def entrants (C : Crypto) (pool : TxPool) (e : Event) : List Transaction :=
  match e.op with
  | .addLocals txs => pool.admits C e.ord e.now
      (txs.filter fun tx => (pool.knownOrInvalid C tx).isNone) !pool.config.noLocals
  | .addRemotes txs => pool.admits C e.ord e.now
      (txs.filter fun tx => (pool.knownOrInvalid C tx).isNone) false
  | .runReorg (some req) _ => pool.readmits C e.ord e.now req
  | .runReorg none _ | .setGasPrice _ | .evict => []

/-- The promotions and demotions of `runReorg` (core/tx_pool.go:1033-1070). -/
def shifted (C : Crypto) (ord : RangeOrder) (now : ℤ) (pool : TxPool)
    (req : Option ResetRequest) (dirtyAccounts : Option AccountSet) : Option TxPool :=
  match req with
  | none =>
    promoteExecutables C ord now pool ((dirtyAccounts.map (AccountSet.flatten ord)).getD [])
  | some req => do
    let pool ← pool.reset C ord now req
    let pool ← promoteExecutables C ord now pool (ord.order pool.queue.keys)
    pool.demoteUnexecutables C ord now

theorem runReorg_eq (req : Option ResetRequest) (dirtyAccounts : Option AccountSet) :
    pool.runReorg C ord now req dirtyAccounts =
      (pool.shifted C ord now req dirtyAccounts).bind (finishReorg C ord now) := by
  cases req <;> simp only [runReorg, shifted, Option.bind_eq_bind, Option.bind_assoc]

variable {dirtyAccounts : Option AccountSet}

/-- After a reset nothing enters. -/
theorem shifted_reset (h : Good C pool)
    (hr : pool.shifted C ord now (some req) dirtyAccounts = some pool') :
    ∃ pool₁, pool.reset C ord now req = some pool₁ ∧ Kept C [] pool₁ pool' ∧
      Fixed pool pool' := by
  obtain ⟨pool₁, hpool₁, hr⟩ := Option.bind_eq_some_iff.1 hr
  obtain ⟨pool₂, hpool₂, hr⟩ := Option.bind_eq_some_iff.1 hr
  obtain ⟨hg₁, hfixed₁⟩ := reset_keeps h hpool₁
  obtain ⟨hg₂, hsame₂⟩ := promoteExecutables_keeps hg₁.toGood hpool₂
  obtain ⟨hg₃, hsame₃⟩ := demoteAccounts_keeps hg₂.toGood hr
  exact ⟨pool₁, hpool₁, hg₂.quiet hg₃, hfixed₁.trans (hsame₂.trans hsame₃).fixed⟩

theorem shifted_keeps (h : Good C pool) {req : Option ResetRequest}
    (hr : pool.shifted C ord now req dirtyAccounts = some pool') :
    Kept C (pool.entrants C ⟨ord, now, .runReorg req dirtyAccounts⟩) pool pool' ∧
      Fixed pool pool' := by
  cases req with
  | none =>
    obtain ⟨hg, hsame⟩ := promoteExecutables_keeps h hr
    exact ⟨hg, hsame.fixed⟩
  | some req =>
    obtain ⟨pool₁, hpool₁, hkept, hfixed⟩ := shifted_reset h hr
    exact ⟨(reset_keeps h hpool₁).1.quiet hkept, hfixed⟩

theorem runReorg_keeps (h : Good C pool) (hslots : 1 ≤ pool.config.accountSlots.toNat)
    {req : Option ResetRequest} (hr : pool.runReorg C ord now req dirtyAccounts = some pool') :
    Kept C (pool.entrants C ⟨ord, now, .runReorg req dirtyAccounts⟩) pool pool' ∧
      Fixed pool pool' := by
  rw [runReorg_eq] at hr
  obtain ⟨pool₁, hpool₁, hr⟩ := Option.bind_eq_some_iff.1 hr
  obtain ⟨hg₁, hfixed₁⟩ := shifted_keeps h hpool₁
  obtain ⟨hg₂, hsame₂⟩ := finishReorg_keeps hg₁.toGood (hfixed₁.config ▸ hslots) hr
  exact ⟨hg₁.quiet hg₂, hfixed₁.trans hsame₂.fixed⟩

/-- Every operation keeps the structure of the pool, and is a history of its books. -/
theorem step_keeps (h : Good C pool) (hslots : 1 ≤ pool.config.accountSlots.toNat) {e : Event}
    (hr : pool.step C e = some pool') :
    Kept C (pool.entrants C e) pool pool' ∧ Fixed pool pool' := by
  obtain ⟨ord, now, op⟩ := e
  cases op with
  | addLocals txs | addRemotes txs =>
    obtain ⟨r, hadd, rfl⟩ := Option.map_eq_some_iff.1 hr
    exact ⟨(addTxs_keeps h hadd).1, (addTxs_keeps h hadd).2.same.fixed⟩
  | setGasPrice price => exact ⟨(setGasPrice_keeps h hr).1, (setGasPrice_keeps h hr).2.same.fixed⟩
  | runReorg req dirtyAccounts => exact runReorg_keeps h hslots hr
  | evict =>
    obtain ⟨hg, hsame⟩ := removed_keeps h (evictLoop_removes hr)
    exact ⟨hg, hsame.same.fixed⟩

/-! ## Runs -/

theorem newTxPool_good (config : TxPoolConfig) (statedb : StateView) :
    Good C (newTxPool config statedb) where
  sound :=
    { shelved :=
        { left_place := by simp [newTxPool, listAt]
          right_place := by simp [newTxPool, listAt]
          disjoint := by simp [newTxPool, listAt]
          index_iff := by simp [newTxPool, listAt, TxLookup.new, TxLookup.get]
          held_free := by simp
          held_nodup := by simp }
      tallied := rfl
      pending_strict := by simp [newTxPool]
      queue_strict := by simp [newTxPool] }
  tidy := ⟨by simp [newTxPool], by simp [newTxPool], by simp [newTxPool]⟩

theorem one_le_atLeastOne {value fallback : UInt64} (h : 1 ≤ fallback.toNat) :
    1 ≤ (atLeastOne value fallback).toNat := by
  unfold atLeastOne
  split_ifs with hlt
  · exact h
  · rw [UInt64.lt_iff_toNat_lt, not_lt] at hlt
    exact hlt

variable {config : TxPoolConfig}

theorem Fixed.one_le_accountSlots (h : Fixed (newTxPool config statedb) pool) :
    1 ≤ pool.config.accountSlots.toNat := by
  rw [h.config]
  exact one_le_atLeastOne (by decide)

/-- The pool after some events. -/
def runEvents (C : Crypto) (pool : TxPool) (events : List Event) : Option TxPool :=
  Run.runPartial (step C) pool events

/-- The transactions that a run brings into the pool. -/
def accepted (C : Crypto) : TxPool → List Event → List Transaction
  | _, [] => []
  | pool, e :: events =>
    pool.entrants C e ++ ((pool.step C e).map fun pool => accepted C pool events).getD []

variable {events : List Event}

theorem runEvents_keeps (h : Good C pool) (hslots : 1 ≤ pool.config.accountSlots.toNat)
    (hr : runEvents C pool events = some pool') :
    Kept C (accepted C pool events) pool pool' ∧ Fixed pool pool' := by
  induction events generalizing pool with
  | nil =>
    obtain rfl := Option.some.inj hr
    exact ⟨.refl h, ⟨rfl, rfl⟩⟩
  | cons e events ih =>
    obtain ⟨pool₁, hstep, hr⟩ := Option.bind_eq_some_iff.1 hr
    obtain ⟨hg, hfixed⟩ := step_keeps h hslots hstep
    obtain ⟨hg', hfixed'⟩ := ih hg.toGood (hfixed.config ▸ hslots) hr
    rw [accepted, hstep, Option.map_some, Option.getD_some]
    exact ⟨hg.trans hg', hfixed.trans hfixed'⟩

theorem runEvents_good (h : runEvents C (newTxPool config statedb) events = some pool) :
    Good C pool ∧ Fixed (newTxPool config statedb) pool :=
  have hkeeps := runEvents_keeps (newTxPool_good _ _) (one_le_atLeastOne (by decide)) h
  ⟨hkeeps.1.toGood, hkeeps.2⟩

/-! ## The invariant -/

/-- The transactions of some lists. -/
def listed (m : GoMap Address TxList) : List Transaction :=
  (GoMap.values m).flatMap TxList.flatten

/-- The structure of a pool. -/
structure Structured (C : Crypto) (pool : TxPool) : Prop where
  /-- The table is keyed by the hashes of the pending and the queued transactions, which are all
      different. -/
  hashes : pool.all.all.keys.Perm ((listed pool.pending ++ listed pool.queue).map C.txHash)
  /-- A hash finds its transaction. -/
  table : ∀ tx ∈ listed pool.pending ++ listed pool.queue, pool.all.get (C.txHash tx) = some tx
  /-- A nonce of an account is pending or queued, but not both. -/
  nonces : ∀ {a pending queued}, pool.pending.lookup a = some pending →
    pool.queue.lookup a = some queued →
    (pending.flatten.map Transaction.accountNonce).Disjoint
      (queued.flatten.map Transaction.accountNonce)
  slots : pool.all.slots =
    ((listed pool.pending ++ listed pool.queue).map fun tx => (numSlots tx : ℤ)).sum
  pending_ne : ∀ {a l}, pool.pending.lookup a = some l → l.flatten ≠ []
  queue_ne : ∀ {a l}, pool.queue.lookup a = some l → l.flatten ≠ []
  beats : ∀ {a l}, pool.queue.lookup a = some l → ∃ beat, pool.beats.lookup a = some beat

section Listed

variable {m : GoMap Address TxList}

theorem mem_listed (hown : ∀ {c t}, listAt m c = some t → C.cell t = c) :
    t ∈ listed m ↔ listAt m (C.cell t) = some t := by
  simp only [listed, List.mem_flatMap, GoMap.mem_values_iff, TxList.mem_flatten]
  constructor
  · rintro ⟨l, ⟨a, ha⟩, ht⟩
    have hat : listAt m (a, t.accountNonce) = some t := by rwa [listAt_of_lookup ha]
    rwa [hown hat]
  · intro ht
    obtain ⟨l, hl, hget⟩ := listAt_eq_some.1 ht
    exact ⟨l, ⟨_, hl⟩, hget⟩

/-- Each transaction is in one list, that of its sender. -/
theorem listed_nodup (hown : ∀ {c t}, listAt m c = some t → C.cell t = c) : (listed m).Nodup := by
  have hsender : ∀ {a l t}, m.lookup a = some l → t ∈ l.flatten → C.poolSender t = a := by
    intro a l t ha ht
    have hat : listAt m (a, t.accountNonce) = some t := by
      rw [listAt_of_lookup ha]
      exact TxList.mem_flatten.1 ht
    exact congrArg Prod.fst (hown hat)
  rw [listed, List.nodup_flatMap]
  refine ⟨fun l _ => l.flatten_nodup, ?_⟩
  rw [GoMap.values, List.pairwise_map]
  have hkeys : m.entries.Pairwise fun e e' => e.1 ≠ e'.1 :=
    List.nodupKeys_iff_pairwise.1 m.nodupKeys
  refine hkeys.imp_of_mem fun {e e'} he he' hne t ht ht' => hne ?_
  rw [← hsender (GoMap.lookup_eq_some_iff.2 he) ht, hsender (GoMap.lookup_eq_some_iff.2 he') ht']

end Listed

/-- The table is keyed by hash. -/
theorem Sound.values_map_hash (h : Sound C pool []) :
    (GoMap.values pool.all.all).map C.txHash = pool.all.all.keys :=
  GoMap.map_values fun hlookup => ((h.shelved.index_iff _ _).1 hlookup).1

theorem Sound.values_nodup (h : Sound C pool []) : (GoMap.values pool.all.all).Nodup :=
  GoMap.nodup_values fun hlookup => ((h.shelved.index_iff _ _).1 hlookup).1

/-- The transactions of the table are the pending and the queued ones. -/
theorem Sound.values_perm (h : Sound C pool []) :
    (GoMap.values pool.all.all).Perm (listed pool.pending ++ listed pool.queue) := by
  have hdisj : (listed pool.pending).Disjoint (listed pool.queue) := by
    intro tx hp hq
    rw [mem_listed h.shelved.left_place] at hp
    rw [mem_listed h.shelved.right_place, h.shelved.disjoint hp] at hq
    exact absurd hq (by simp)
  have hnd' := (listed_nodup h.shelved.left_place).append (listed_nodup h.shelved.right_place) hdisj
  rw [List.perm_ext_iff_of_nodup h.values_nodup hnd']
  intro tx
  rw [List.mem_append, mem_listed h.shelved.left_place, mem_listed h.shelved.right_place,
    GoMap.mem_values_iff]
  constructor
  · rintro ⟨hash, hlookup⟩
    simpa using ((h.shelved.index_iff hash tx).1 hlookup).2
  · intro hat
    exact ⟨_, (h.shelved.index_iff _ tx).2 ⟨rfl, by simpa using hat⟩⟩

theorem Good.structured (h : Good C pool) : Structured C pool where
  hashes := by
    rw [← h.sound.values_map_hash]
    exact h.sound.values_perm.map _
  table := by
    intro tx htx
    rw [List.mem_append, mem_listed h.sound.shelved.left_place,
      mem_listed h.sound.shelved.right_place] at htx
    exact htx.elim h.sound.get_of_pending h.sound.get_of_queued
  nonces := by
    intro a pending queued hp hq n hn hn'
    obtain ⟨tx, htx, rfl⟩ := List.mem_map.1 hn
    obtain ⟨tx', htx', hnonce⟩ := List.mem_map.1 hn'
    rw [TxList.mem_flatten, ← listAt_of_lookup hp] at htx
    rw [TxList.mem_flatten, ← listAt_of_lookup hq, hnonce, h.sound.shelved.disjoint htx] at htx'
    exact absurd htx' (by simp)
  slots := h.sound.tallied.trans (h.sound.values_perm.map _).sum_eq
  pending_ne hl := TxList.flatten_ne_nil (h.tidy.pending_ne hl (by simp))
  queue_ne hl := TxList.flatten_ne_nil (h.tidy.queue_ne hl (by simp))
  beats := h.tidy.beats

/-- Whatever happens to the pool, it keeps its structure. -/
theorem pool_structured (C : Crypto) (config : TxPoolConfig) (statedb : StateView)
    (events : List Event) (pool : TxPool)
    (h : runEvents C (newTxPool config statedb) events = some pool) : Structured C pool :=
  (runEvents_good h).1.structured

end Benzene.TxPool

namespace Benzene.Concrete

open TxPool

/-- The order of the representation. -/
def rangeOrder : RangeOrder := ⟨id, fun _ => .refl _⟩

/-- A transfer without gas, signed for the pool's signer. -/
def pay (key : UInt8) (nonce : UInt64) (amount : ℤ) : Transaction :=
  crypto.signTx (transfer nonce 0 amount) (.eip155 1) key

/-- Every account has the nonce and the balance. -/
def uniformState (nonce : UInt64) (balance : ℤ) : StateView := ⟨fun _ => nonce, fun _ => balance⟩

def poolEvent (op : Op) : Event := ⟨rangeOrder, 0, op⟩

/-- Two transfers of which the second has a gap in front, and their promotion. -/
def gappedEvents : List Event :=
  [poolEvent (.addLocals [pay 7 0 5, pay 7 2 5]),
    poolEvent (.runReorg none (some (AccountSet.add ∅ (crypto.poolSender (pay 7 0 5)))))]

def gappedPool : TxPool :=
  (runEvents crypto (newTxPool defaultTxPoolConfig (uniformState 0 100)) gappedEvents).get
    (by decide +kernel)

theorem gappedPool_structured :
    runEvents crypto (newTxPool defaultTxPoolConfig (uniformState 0 100)) gappedEvents =
        some gappedPool ∧
      gappedPool.pendingCount = 1 ∧ gappedPool.queuedCount = 1 ∧ Structured crypto gappedPool := by
  have hrun : runEvents crypto (newTxPool defaultTxPoolConfig (uniformState 0 100)) gappedEvents =
      some gappedPool :=
    (Option.some_get _).symm
  exact ⟨hrun, by decide +kernel, by decide +kernel,
    pool_structured crypto defaultTxPoolConfig (uniformState 0 100) gappedEvents gappedPool hrun⟩

end Benzene.Concrete
