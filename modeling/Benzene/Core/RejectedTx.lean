import Benzene.Core.PricedPool

/-!
# Rejected transactions

`add` (core/tx_pool.go:571-645) makes room in a full pool before it looks for a transaction of the
same nonce, and the replacement of that one can still fail.  The transactions dropped for the room
do not come back: `rejected_unchanged_iff`.  On every other error the pool is as it was.
-/

namespace Benzene.TxPool

variable {C : Crypto} {ord : RangeOrder} {now : ℤ} {pool pool' : TxPool} {tx : Transaction}
  {isLocal : Bool}

/-- The same pending and queued lists, lookup table, pool nonces and local accounts. -/
structure Unchanged (pool pool' : TxPool) : Prop where
  pending : ∀ a, pool'.pending.lookup a = pool.pending.lookup a
  queue : ∀ a, pool'.queue.lookup a = pool.queue.lookup a
  all : ∀ k, pool'.all.get k = pool.all.get k
  pendingNonces : ∀ a, pool'.pendingNonces.get a = pool.pendingNonces.get a
  locals : ∀ a, AccountSet.contains pool'.locals a = AccountSet.contains pool.locals a

theorem Unchanged.setPriced (pool : TxPool) (priced : TxPricedList) :
    Unchanged pool { pool with priced := priced } :=
  ⟨fun _ => rfl, fun _ => rfl, fun _ => rfl, fun _ => rfl, fun _ => rfl⟩

theorem Unchanged.trans {pool₁ pool₂ : TxPool} (h : Unchanged pool pool₁)
    (h' : Unchanged pool₁ pool₂) : Unchanged pool pool₂ where
  pending a := (h'.pending a).trans (h.pending a)
  queue a := (h'.queue a).trans (h.queue a)
  all k := (h'.all k).trans (h.all k)
  pendingNonces a := (h'.pendingNonces a).trans (h.pendingNonces a)
  locals a := (h'.locals a).trans (h.locals a)

/-- A transaction makes a full pool drop others: it is new and valid, not underpriced, and slots are
    short while the heap has an entry of a pooled transaction that is not local. -/
structure MakesRoom (C : Crypto) (pool : TxPool) (tx : Transaction) (isLocal : Bool) : Prop where
  new : pool.all.get (C.txHash tx) = none
  valid : pool.validateTx C tx isLocal = .ok ()
  full : pool.globalLimit.toNat ≤ pool.all.count
  quoted : (pool.quote C tx isLocal).2 = false
  short : 0 < pool.all.slots - goInt pool.globalLimit + numSlots tx
  remote : ∃ t ∈ pool.priced.items, TxPricedList.isStale C pool.all t = false ∧
    AccountSet.containsTx C pool.locals t = false

/-- `Underpriced` drops stale entries only. -/
theorem mem_quote {t : Transaction} (h : TxPricedList.isStale C pool.all t = false) :
    t ∈ (pool.quote C tx isLocal).1.items ↔ t ∈ pool.priced.items := by
  unfold quote
  split_ifs
  · rfl
  · obtain ⟨gone, hgone, hstale, -⟩ :=
      (@TxPricedList.underpriced_swept C pool.all pool.locals pool.priced tx).1.split
    have hnot : t ∉ gone := fun ht => absurd ((hstale t ht).symm.trans h) (by decide)
    rw [← Multiset.mem_coe, ← Multiset.mem_coe, ← hgone]
    simp [hnot]

/-- An older transaction of the same nonce keeps its place. -/
theorem Inserted.unchanged {r : TxPool × Except TxError Bool} {err : TxError}
    (h : Inserted C ord now isLocal pool tx r) (hr : r.2 = .error err) : Unchanged pool r.1 := by
  have hsame : ∀ {m : GoMap Address TxList} {a : Address} {l : TxList}, m.lookup a = some l →
      ∀ b, (m.insert a l).lookup b = m.lookup b := by
    intro m a l hl b
    rw [GoMap.lookup_insert_eq]
    split_ifs with hb
    · rw [hb, hl]
    · rfl
  cases h with
  | pendingKept hl =>
    exact ⟨hsame hl, fun _ => rfl, fun _ => rfl, fun _ => rfl, fun _ => rfl⟩
  | pendingReplaced => cases hr
  | queuedKept _ hl =>
    exact ⟨fun _ => rfl, hsame hl, fun _ => rfl, fun _ => rfl, fun _ => rfl⟩
  | queuedReplaced | queued => cases hr

/-- Making room changes the pool if a transaction is dropped, and only then. -/
theorem Room.unchanged_iff {room : TxPool} (hroom : Room C ord now isLocal pool tx (room, true))
    (h : Good C pool) (hget : pool.all.get (C.txHash tx) = none)
    (hvalid : pool.validateTx C tx isLocal = .ok ()) :
    Unchanged pool room ↔ ¬ pool.MakesRoom C tx isLocal := by
  cases hroom with
  | free hfree =>
    exact iff_of_true (.setPriced pool pool.priced) fun hmakes =>
      absurd hmakes.full (Nat.not_le.2 hfree)
  | @made d _ hfull hquote hd hremove =>
    have hmakes : pool.MakesRoom C tx isLocal ↔ d.2 ≠ [] := by
      rw [TxPricedList.discard_ne_nil_iff hd]
      constructor
      · rintro ⟨-, -, -, -, hshort, t, ht, hlive, hremote⟩
        exact ⟨hshort, t, (mem_quote hlive).2 ht, hlive, hremote⟩
      · rintro ⟨hshort, t, ht, hlive, hremote⟩
        exact ⟨hget, hvalid, hfull, hquote, hshort, t, (mem_quote hlive).1 ht, hlive, hremote⟩
    rw [hmakes, not_not]
    constructor
    · intro hsame
      by_contra hne
      obtain ⟨t, ht⟩ := List.exists_mem_of_ne_nil _ hne
      -- a transaction that is dropped was in the table, and is not any more
      obtain ⟨t', ht'⟩ := LazyHeap.isStale_eq_false.1 ((TxPricedList.discard_swept hd).1.live t ht)
      have hall : room.all = pool.all.expunge C d.2 :=
        congrArg Books.all (removeTxs_expunge (h.setPriced d.1) hremove)
      have hgone := hsame.all (C.txHash t)
      rw [hall, TxLookup.get_expunge, if_pos (List.mem_map_of_mem ht)] at hgone
      exact absurd (hgone.trans ht') (by simp)
    · intro hnil
      rw [hnil] at hremove
      obtain rfl := Option.some.inj hremove
      exact .setPriced pool d.1

/-- **Rejected transactions.**  A transaction that `add` rejects changes nothing, unless it makes a
    full pool drop others: it is then rejected as a replacement, when they are gone. -/
theorem rejected_unchanged_iff (C : Crypto) (ord : RangeOrder) (now : ℤ) (pool : TxPool)
    (h : Good C pool) (tx : Transaction) (isLocal : Bool) (pool' : TxPool) (err : TxError)
    (hr : pool.add C ord now tx isLocal = some (pool', .error err)) :
    Unchanged pool pool' ↔ ¬ pool.MakesRoom C tx isLocal := by
  cases add_added h hr with
  | known hget =>
    refine iff_of_true (.setPriced pool pool.priced) fun hmakes => ?_
    rw [hmakes.new] at hget
    cases hget
  | invalid _ hvalid =>
    refine iff_of_true (.setPriced pool pool.priced) fun hmakes => ?_
    rw [hmakes.valid] at hvalid
    cases hvalid
  | refused _ _ hroom =>
    cases hroom with
    | refused _ hquote =>
      refine iff_of_true (.setPriced pool _) fun hmakes => ?_
      rw [hmakes.quoted] at hquote
      cases hquote
  | inserted hget hvalid hroom hins =>
    have hsame := hins.unchanged rfl
    rw [← hroom.unchanged_iff h hget hvalid]
    constructor
    · intro h'
      refine ⟨fun a => ?_, fun a => ?_, fun k => ?_, fun a => ?_, fun a => ?_⟩
      · exact (hsame.pending a).symm.trans (h'.pending a)
      · exact (hsame.queue a).symm.trans (h'.queue a)
      · exact (hsame.all k).symm.trans (h'.all k)
      · exact (hsame.pendingNonces a).symm.trans (h'.pendingNonces a)
      · exact (hsame.locals a).symm.trans (h'.locals a)
    · exact fun h' => h'.trans hsame

end Benzene.TxPool

namespace Benzene.Concrete

open TxPool

/-- A pool for two transactions. -/
def tightConfig : TxPoolConfig := { defaultTxPoolConfig with globalSlots := 1, globalQueue := 1 }

/-- A cheap transaction, and a dear one of another account. -/
def filledPool : TxPool :=
  (runEvents crypto (newTxPool tightConfig (uniformState 0 100))
    [poolEvent (.addRemotes [payAt 1 8 0, payAt 10 7 0])]).get (by decide +kernel)

/-- A transaction that is not dearer than the cheap one. -/
def refusedBid : TxPool × Except TxError Bool :=
  (filledPool.add crypto rangeOrder 0 (payAt 1 9 0) false).get (by decide +kernel)

theorem refusedBid_unchanged :
    filledPool.add crypto rangeOrder 0 (payAt 1 9 0) false =
        some (refusedBid.1, .error .underpriced) ∧
      Unchanged filledPool refusedBid.1 := by
  have hrun : runEvents crypto (newTxPool tightConfig (uniformState 0 100))
      [poolEvent (.addRemotes [payAt 1 8 0, payAt 10 7 0])] = some filledPool :=
    (Option.some_get _).symm
  have hadd : filledPool.add crypto rangeOrder 0 (payAt 1 9 0) false = some refusedBid :=
    (Option.some_get _).symm
  have herr : refusedBid.2 = .error .underpriced := by decide +kernel
  have hresult : filledPool.add crypto rangeOrder 0 (payAt 1 9 0) false =
      some (refusedBid.1, .error .underpriced) := hadd.trans (by rw [← herr])
  have hquote : (filledPool.quote crypto (payAt 1 9 0) false).2 = true := by decide +kernel
  refine ⟨hresult, (rejected_unchanged_iff crypto rangeOrder 0 filledPool (runEvents_good hrun).1
    (payAt 1 9 0) false refusedBid.1 .underpriced hresult).2 fun hmakes => ?_⟩
  rw [hmakes.quoted] at hquote
  cases hquote

/-- A transaction that has the price of the dear one, and its nonce. -/
def rival : Transaction := { pay 7 0 6 with price := 10 }

def rivalled : TxPool × Except TxError Bool :=
  (filledPool.add crypto rangeOrder 0 rival false).get (by decide +kernel)

/-- The cheap transaction is dropped for one that is then rejected. -/
theorem rejected_changes :
    runEvents crypto (newTxPool tightConfig (uniformState 0 100))
        [poolEvent (.addRemotes [payAt 1 8 0, payAt 10 7 0])] = some filledPool ∧
      filledPool.add crypto rangeOrder 0 rival false =
        some (rivalled.1, .error .replaceUnderpriced) ∧
      filledPool.all.get (crypto.txHash (payAt 1 8 0)) = some (payAt 1 8 0) ∧
      rivalled.1.all.get (crypto.txHash (payAt 1 8 0)) = none ∧
      ¬ Unchanged filledPool rivalled.1 := by
  have hadd : filledPool.add crypto rangeOrder 0 rival false = some rivalled :=
    (Option.some_get _).symm
  have herr : rivalled.2 = .error .replaceUnderpriced := by decide +kernel
  have hbefore : filledPool.all.get (crypto.txHash (payAt 1 8 0)) = some (payAt 1 8 0) := by
    decide +kernel
  have hafter : rivalled.1.all.get (crypto.txHash (payAt 1 8 0)) = none := by decide +kernel
  refine ⟨(Option.some_get _).symm, hadd.trans (by rw [← herr]), hbefore, hafter,
    fun hsame => ?_⟩
  have hget := hsame.all (crypto.txHash (payAt 1 8 0))
  rw [hbefore, hafter] at hget
  cases hget

end Benzene.Concrete
