import Benzene.Core.PoolInvariant

/-!
# The price heap of a pool

In every run of a pool the heap covers the table (`runEvents_priced`): it has an entry for every
transaction of the table, in heap order, and the counter of stale entries is not negative and not
too small.

* `stales_exact_of_run`: the counter is exact if no transaction is accepted twice.  One that is
  accepted again while its stale entry is in the heap has two entries, and `Cap` and `Discard` may
  take out both.
* `underpriced_exact`: `Underpriced` compares with the cheapest transaction of the pool.
* `setGasPrice_exact`: `SetGasPrice` removes the cheap transactions that are not local.
-/

namespace Benzene

/-- The hash tells the transactions of a list apart. -/
def Crypto.TellsApart (C : Crypto) (txs : List Transaction) : Prop :=
  ∀ t ∈ txs, ∀ t' ∈ txs, C.txHash t = C.txHash t' → t = t'

instance (C : Crypto) (txs : List Transaction) : Decidable (C.TellsApart txs) :=
  inferInstanceAs (Decidable (∀ t ∈ txs, ∀ t' ∈ txs, C.txHash t = C.txHash t' → t = t'))

/-! ## The invariant -/

namespace Books

variable {C : Crypto} {b b' : Books} {seen new : List Transaction}

/-- The heap covers the table, where `seen` are the transactions that have entered. -/
abbrev Priced (C : Crypto) (seen : List Transaction) (b : Books) : Prop :=
  LazyHeap.Covers priceLess C.txHash b.all.all seen 0 b.priced.items b.priced.stales

/-- Transactions leave the table, and the heap has not been told yet. -/
theorem covers_dropAll {t : TxLookup} {txs : List Transaction} {slack : ℕ} {l : TxPricedList}
    (h : LazyHeap.Covers priceLess C.txHash t.all seen slack l.items l.stales)
    (hleaves : t.Leaves C txs) :
    LazyHeap.Covers priceLess C.txHash (t.dropAll C txs).all seen (slack + txs.length) l.items
      l.stales := by
  induction txs generalizing t slack with
  | nil => exact h
  | cons tx txs ih =>
    have hrest := ih (h.forget hleaves.1) hleaves.2
    rw [List.length_cons, Nat.add_comm txs.length, ← Nat.add_assoc]
    exact hrest

theorem Priced.act (h : Priced C seen b) (hact : Act C new b b') : Priced C (seen ++ new) b' := by
  cases hact with
  | left ord hleaves =>
    rw [List.append_nil]
    have hforget := covers_dropAll h hleaves
    rw [Nat.zero_add] at hforget
    simp only [Priced, TxPricedList.removed]
    split_ifs
    · exact hforget.told
    · exact hforget.rebuilt TxPricedList.priceLess_strictWeak (ord.perm _)
  | entered isLocal hget => exact h.push TxPricedList.priceLess_strictWeak hget
  | swept hswept ho =>
    rw [List.append_nil]
    exact h.sweep hswept (ho h.ordered) (TxLookup.get_expunge _ _)

end Books

namespace TxPool

open Books

variable {C : Crypto} {config : TxPoolConfig} {statedb : StateView} {events : List Event}
  {pool : TxPool}

/-- The heap covers the table in every pool of a run. -/
theorem runEvents_priced (h : runEvents C (newTxPool config statedb) events = some pool) :
    Priced C (accepted C (newTxPool config statedb) events) pool.books := by
  have hkept := (runEvents_keeps (newTxPool_good config statedb)
    (one_le_atLeastOne (by decide)) h).1
  have h0 : Priced C [] (newTxPool config statedb).books := LazyHeap.Covers.empty _ _
  exact hkept.history.rule (Priced C) (fun hp hact => hp.act hact) h0

/-! ## Stale entries -/

/-- The stale counter says how many more entries the heap has than the table. -/
structure StalesExact (pool : TxPool) : Prop where
  exact : (pool.priced.items.length : ℤ) - pool.priced.stales = pool.all.count
  nonneg : 0 ≤ pool.priced.stales

/-- **Stale accounting.**  If no transaction is accepted twice, the stale counter is exact. -/
theorem stales_exact_of_run (C : Crypto) (config : TxPoolConfig) (statedb : StateView)
    (events : List Event) (pool : TxPool)
    (h : runEvents C (newTxPool config statedb) events = some pool)
    (honce : ((accepted C (newTxPool config statedb) events).map C.txHash).Nodup) :
    StalesExact pool := by
  have hp := runEvents_priced h
  have hcount : (pool.priced.items.length : ℤ) =
      GoMap.size pool.all.all + pool.priced.stales + (0 : ℕ) := (hp.exact honce).2
  refine ⟨?_, hp.stales_nonneg⟩
  rw [TxLookup.count]
  push_cast at hcount
  omega

/-- In every run the counter is not negative, and not too small. -/
theorem stales_bound_of_run (h : runEvents C (newTxPool config statedb) events = some pool) :
    0 ≤ pool.priced.stales ∧
      (pool.priced.items.length : ℤ) ≤ pool.all.count + pool.priced.stales := by
  have hp := runEvents_priced h
  have hcount : (pool.priced.items.length : ℤ) ≤
      GoMap.size pool.all.all + pool.priced.stales + (0 : ℕ) := hp.counted
  refine ⟨hp.stales_nonneg, ?_⟩
  rw [TxLookup.count]
  push_cast at hcount
  omega

/-! ## Prices -/

variable {seen : List Transaction} {b : Books}

/-- An entry that is not stale is in the table, if the hash tells the accepted transactions
    apart. -/
theorem get_of_entry {t : Transaction} (hp : Priced C seen b) (hash : C.TellsApart seen)
    (ht : t ∈ b.priced.items) (hlive : TxPricedList.isStale C b.all t = false) :
    b.all.get (C.txHash t) = some t := by
  obtain ⟨t', ht'⟩ := LazyHeap.isStale_eq_false.1 hlive
  have heq : t' = t := hash t' (hp.entries (hp.complete ht')) t (hp.entries ht) (hp.keyed ht')
  exact heq ▸ ht'

/-- The heap that `Underpriced` leaves covers the table. -/
theorem priced_underpriced (hp : Priced C seen b) (tx : Transaction) : Priced C seen
      { b with priced := (b.priced.underpriced C b.all b.locals tx).1 } := by
  have hswept : TxPricedList.Swept C b.all b.locals b.priced
      (b.priced.underpriced C b.all b.locals tx).1 [] := TxPricedList.underpriced_swept.1
  exact hp.sweep hswept (TxPricedList.underpriced_swept.2 hp.ordered) (by simp)

/-- No transaction of the pool is cheaper than one that `Underpriced` refuses. -/
theorem underpriced_le (hp : Priced C seen b) {tx t : Transaction} {k : Hash}
    (hremote : AccountSet.containsTx C b.locals tx = false)
    (h : (b.priced.underpriced C b.all b.locals tx).2 = true) (hk : b.all.get k = some t) :
    tx.price ≤ t.price := by
  have hp' := priced_underpriced hp tx
  have heq : b.priced.underpriced C b.all b.locals tx = _ :=
    TxPricedList.underpriced_eq hremote
  rw [heq] at h hp'
  cases hhead : (TxPricedList.dropStale C b.all b.priced.items.length b.priced).items[0]? with
  | none =>
    rw [hhead] at h
    cases h
  | some head =>
    rw [hhead, Option.any_some, decide_eq_true_eq] at h
    exact h.trans (TxPricedList.price_front_le hp'.ordered hhead (hp'.complete hk))

/-- **Underpriced is exact.**  In every pool of a run the heap has an entry for every transaction
    of the table and is in heap order.  If the pool is not empty, `Underpriced` says of a
    transaction of an account that is not local whether every transaction of the pool has at
    least its price.  The hash has to tell the accepted transactions apart, since the heap and
    the table are compared by hash. -/
theorem underpriced_exact (C : Crypto) (config : TxPoolConfig) (statedb : StateView)
    (events : List Event) (pool : TxPool)
    (h : runEvents C (newTxPool config statedb) events = some pool) :
    (∀ k t, pool.all.get k = some t → t ∈ pool.priced.items) ∧
      Heap.Ordered priceLess pool.priced.items ∧
      (C.TellsApart (accepted C (newTxPool config statedb) events) → pool.all.count ≠ 0 →
        ∀ tx, AccountSet.containsTx C pool.locals tx = false →
          ((pool.priced.underpriced C pool.all pool.locals tx).2 = true ↔
            ∀ k t, pool.all.get k = some t → tx.price ≤ t.price)) := by
  have hp := runEvents_priced h
  refine ⟨fun k t hk => hp.complete hk, hp.ordered, fun hash hne tx hremote => ?_⟩
  have hp' := priced_underpriced hp tx
  -- there is an entry in front, and it is in the table
  obtain ⟨head, hhead⟩ : ∃ head,
      (pool.priced.underpriced C pool.all pool.locals tx).1.items[0]? = some head := by
    have hle : GoMap.size pool.all.all ≤
        (pool.priced.underpriced C pool.all pool.locals tx).1.items.length := hp'.size_le
    have hpos : 0 < (pool.priced.underpriced C pool.all pool.locals tx).1.items.length :=
      (Nat.pos_of_ne_zero hne).trans_le hle
    exact ⟨_, List.getElem?_eq_getElem hpos⟩
  have hget : pool.all.get (C.txHash head) = some head :=
    get_of_entry hp' hash (List.mem_of_getElem? hhead)
      (TxPricedList.underpriced_front hremote hhead)
  have hresult : (pool.priced.underpriced C pool.all pool.locals tx).2 =
      decide (tx.price ≤ head.price) := by
    rw [TxPricedList.underpriced_eq hremote] at hhead ⊢
    rw [hhead, Option.any_some]
  constructor
  · intro hunder k t hk
    exact underpriced_le hp hremote hunder hk
  · intro hall
    rw [hresult, decide_eq_true_eq]
    exact hall _ head hget

/-- The transactions that `Cap` takes out of the heap of a pool. -/
theorem mem_cap_iff (hp : Priced C seen b) (hash : C.TellsApart seen) (price : ℤ) {k : Hash}
    {t : Transaction} (hk : b.all.get k = some t) :
    k ∈ (b.priced.cap C b.all b.locals price).2.map C.txHash ↔
      ¬ (AccountSet.containsTx C b.locals t = true ∨ price ≤ t.price) := by
  have hswept : TxPricedList.Swept C b.all b.locals b.priced
      (b.priced.cap C b.all b.locals price).1 (b.priced.cap C b.all b.locals price).2 :=
    TxPricedList.cap_swept.1
  obtain ⟨gone, hgone, hstale, -⟩ := hswept.split
  obtain rfl : C.txHash t = k := hp.keyed hk
  constructor
  · intro hmem
    obtain ⟨x, hx, hkey⟩ := List.mem_map.1 hmem
    have hentry : x ∈ b.priced.items := by
      rw [← Multiset.mem_coe, ← hgone]
      exact Multiset.mem_add.2 (Or.inr (Multiset.mem_add.2 (Or.inl hx)))
    obtain rfl : x = t :=
      hash x (hp.entries hentry) t (hp.entries (hp.complete hk)) hkey
    rw [hswept.taken x hx]
    have hbelow := TxPricedList.cap_below hp.ordered hx
    simp only [Bool.false_eq_true, false_or, not_le]
    exact hbelow
  · intro hcheap
    have ht : t ∈ gone + (↑(b.priced.cap C b.all b.locals price).2 +
        ↑(b.priced.cap C b.all b.locals price).1.items) := by
      rw [hgone]
      exact hp.complete hk
    rcases Multiset.mem_add.1 ht with ht | ht
    · have hlive := LazyHeap.isStale_eq_false.2 ⟨t, hk⟩
      rw [hstale t ht] at hlive
      cases hlive
    · rcases Multiset.mem_add.1 ht with ht | ht
      · exact List.mem_map_of_mem ht
      · exact absurd (TxPricedList.cap_rest hp.ordered ht) hcheap

/-- **Raising the minimum price.**  `SetGasPrice` returns, and afterwards the table has the
    transactions it had that are local or not below the price. -/
theorem setGasPrice_exact (C : Crypto) (config : TxPoolConfig) (statedb : StateView)
    (events : List Event) (pool : TxPool)
    (h : runEvents C (newTxPool config statedb) events = some pool)
    (hash : C.TellsApart (accepted C (newTxPool config statedb) events)) (ord : RangeOrder)
    (now price : ℤ) :
    ∃ pool', pool.setGasPrice C ord now price = some pool' ∧
      (∀ k t, pool'.all.get k = some t ↔ pool.all.get k = some t ∧
        (AccountSet.containsTx C pool.locals t = true ∨ price ≤ t.price)) ∧
      ∀ k t, pool'.all.get k = some t → AccountSet.containsTx C pool'.locals t = false →
        price ≤ t.price := by
  have hp := runEvents_priced h
  have hg := (runEvents_good h).1
  obtain ⟨pool', hr, -, -, hbooks⟩ := setGasPrice_returns ord now hg price
  have hall : pool'.all = pool.all.expunge C (pool.priced.cap C pool.all pool.locals price).2 :=
    congrArg Books.all hbooks
  have hlocals : pool'.locals = pool.locals := congrArg Books.locals hbooks
  have hiff : ∀ k t, pool'.all.get k = some t ↔ pool.all.get k = some t ∧
      (AccountSet.containsTx C pool.locals t = true ∨ price ≤ t.price) := by
    intro k t
    rw [hall, TxLookup.get_expunge]
    by_cases hk : pool.all.get k = some t
    · have hcap := mem_cap_iff hp hash price hk
      split_ifs with hmem
      · simp only [hk, true_and, false_iff]
        exact hcap.1 hmem
      · simp only [hk, true_and, true_iff]
        by_contra hcheap
        exact hmem (hcap.2 hcheap)
    · split_ifs <;> simp [hk]
  refine ⟨pool', hr, hiff, fun k t hk hremote => ?_⟩
  rw [hlocals] at hremote
  rcases ((hiff k t).1 hk).2 with hlocal | hle
  · rw [hremote] at hlocal
    cases hlocal
  · exact hle

end TxPool

end Benzene

namespace Benzene.Concrete

open TxPool

/-- Queues expire after ten nanoseconds. -/
def hastyConfig : TxPoolConfig := { defaultTxPoolConfig with lifetime := 10 }

/-- A transfer of another price, which the signature does not cover. -/
def payAt (price : ℤ) (key : UInt8) (nonce : UInt64) : Transaction :=
  { pay key nonce 5 with price := price }

/-- A cheap transaction expires beside three dear ones. -/
def expiringEvents : List Event :=
  [⟨rangeOrder, 0, .addRemotes [payAt 1 7 1]⟩,
    ⟨rangeOrder, 8, .addRemotes [payAt 10 8 1, payAt 10 8 2, payAt 10 8 3]⟩,
    ⟨rangeOrder, 12, .evict⟩]

def expiredPool : TxPool :=
  (runEvents crypto (newTxPool hastyConfig (uniformState 0 100)) expiringEvents).get
    (by decide +kernel)

/-- The entry of the transaction that has left is stale, and counted. -/
theorem expiredPool_stales :
    runEvents crypto (newTxPool hastyConfig (uniformState 0 100)) expiringEvents =
        some expiredPool ∧
      expiredPool.priced.items.length = 4 ∧ expiredPool.priced.stales = 1 ∧
      StalesExact expiredPool := by
  have hrun : runEvents crypto (newTxPool hastyConfig (uniformState 0 100)) expiringEvents =
      some expiredPool := (Option.some_get _).symm
  have hbooks : (expiredPool.priced.items.length, expiredPool.priced.stales) = (4, 1) := by
    decide +kernel
  obtain ⟨hlen, hstales⟩ := Prod.mk.inj hbooks
  exact ⟨hrun, hlen, hstales,
    stales_exact_of_run crypto hastyConfig (uniformState 0 100) expiringEvents expiredPool hrun
      (by decide +kernel)⟩

/-- The cheap transaction comes back. -/
def returningEvents : List Event :=
  expiringEvents ++ [⟨rangeOrder, 13, .addRemotes [payAt 1 7 1]⟩]

def returnedPool : TxPool :=
  (runEvents crypto (newTxPool hastyConfig (uniformState 0 100)) returningEvents).get
    (by decide +kernel)

theorem tellsApart_returning : crypto.TellsApart
    (accepted crypto (newTxPool hastyConfig (uniformState 0 100)) returningEvents) := by
  decide +kernel

/-- The pool has four transactions and five entries. -/
theorem returnedPool_underpriced :
    runEvents crypto (newTxPool hastyConfig (uniformState 0 100)) returningEvents =
        some returnedPool ∧
      returnedPool.all.count = 4 ∧ returnedPool.priced.items.length = 5 ∧
      AccountSet.containsTx crypto returnedPool.locals (payAt 1 9 0) = false ∧
      ((returnedPool.priced.underpriced crypto returnedPool.all returnedPool.locals
          (payAt 1 9 0)).2 = true ↔
        ∀ k t, returnedPool.all.get k = some t → (payAt 1 9 0).price ≤ t.price) := by
  have hrun : runEvents crypto (newTxPool hastyConfig (uniformState 0 100)) returningEvents =
      some returnedPool := (Option.some_get _).symm
  have hbooks : (returnedPool.all.count, returnedPool.priced.items.length) = (4, 5) := by
    decide +kernel
  obtain ⟨hcount, hlen⟩ := Prod.mk.inj hbooks
  have hremote : AccountSet.containsTx crypto returnedPool.locals (payAt 1 9 0) = false := by
    decide +kernel
  exact ⟨hrun, hcount, hlen, hremote,
    (underpriced_exact crypto hastyConfig (uniformState 0 100) returningEvents returnedPool
      hrun).2.2 tellsApart_returning (by rw [hcount]; decide) (payAt 1 9 0) hremote⟩

/-- The transaction with two entries leaves once. -/
theorem returnedPool_setGasPrice :
    runEvents crypto (newTxPool hastyConfig (uniformState 0 100)) returningEvents =
        some returnedPool ∧
      ∃ pool', returnedPool.setGasPrice crypto rangeOrder 14 5 = some pool' ∧
        (∀ k t, pool'.all.get k = some t ↔ returnedPool.all.get k = some t ∧
          (AccountSet.containsTx crypto returnedPool.locals t = true ∨ 5 ≤ t.price)) ∧
        ∀ k t, pool'.all.get k = some t → AccountSet.containsTx crypto pool'.locals t = false →
          5 ≤ t.price := by
  have hrun : runEvents crypto (newTxPool hastyConfig (uniformState 0 100)) returningEvents =
      some returnedPool := (Option.some_get _).symm
  exact ⟨hrun, setGasPrice_exact crypto hastyConfig (uniformState 0 100) returningEvents
    returnedPool hrun tellsApart_returning rangeOrder 14 5⟩

/-- The minimum price is raised above the cheap one. -/
def raisedEvents : List Event := returningEvents ++ [⟨rangeOrder, 14, .setGasPrice 5⟩]

def raisedPool : TxPool :=
  (runEvents crypto (newTxPool hastyConfig (uniformState 0 100)) raisedEvents).get
    (by decide +kernel)

/-- Both entries of the cheap transaction are taken out of the heap, and the counter stays. -/
theorem stales_not_exact :
    runEvents crypto (newTxPool hastyConfig (uniformState 0 100)) raisedEvents = some raisedPool ∧
      raisedPool.priced.items.length = 3 ∧ raisedPool.priced.stales = 1 ∧
      raisedPool.all.count = 3 ∧ ¬ StalesExact raisedPool := by
  have hbooks : (raisedPool.priced.items.length, raisedPool.priced.stales,
      raisedPool.all.count) = (3, 1, 3) := by decide +kernel
  obtain ⟨hlen, hbooks⟩ := Prod.mk.inj hbooks
  obtain ⟨hstales, hcount⟩ := Prod.mk.inj hbooks
  refine ⟨(Option.some_get _).symm, hlen, hstales, hcount, fun hexact => ?_⟩
  have heq := hexact.exact
  rw [hlen, hstales, hcount] at heq
  omega

end Benzene.Concrete
