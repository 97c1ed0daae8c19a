import Benzene.Core.PoolBound
import Benzene.Core.RejectedTx

/-!
# Panics of the admission

`add` (core/tx_pool.go:571-645) and `runReorg` (core/tx_pool.go:1033-1096) can panic in three
places: `Discard` allocates with a capacity that may be negative, `txLookup.Remove` dereferences
the transaction it removes, and `runReorg` takes the last transaction of every pending list.

`admission_panics_iff`: the first is possible and the other two are not.  The pool is full when it
has as many transactions as its limit, but `Discard` is asked to free slots, and it allocates for
as many transactions.  In a pool without local accounts whose transactions take several slots the
heap has fewer entries than that.
-/

namespace Benzene.TxPool

variable {C : Crypto} {ord : RangeOrder} {now : ℤ} {pool pool' : TxPool} {tx : Transaction}
  {isLocal : Bool}

/-! ## Admission -/

/-- The transaction is to be admitted to a full pool without local accounts, and more slots are to
    be freed for it than the heap has entries. -/
structure Overdrawn (C : Crypto) (pool : TxPool) (tx : Transaction) (isLocal : Bool) : Prop where
  new : pool.all.get (C.txHash tx) = none
  valid : pool.validateTx C tx isLocal = .ok ()
  full : pool.globalLimit.toNat ≤ pool.all.count
  quoted : (pool.quote C tx isLocal).2 = false
  locals : AccountSet.isEmpty pool.locals = true
  entries : ((pool.quote C tx isLocal).1.items.length : ℤ) <
    pool.all.slots - goInt pool.globalLimit + numSlots tx

theorem makeRoom_eq_none_iff (h : Good C pool)
    (hpos : ∀ {k t}, pool.all.get k = some t → 0 < numSlots t) (htx : 0 < numSlots tx) :
    pool.makeRoom C ord now tx isLocal = none ↔ pool.globalLimit.toNat ≤ pool.all.count ∧
      (pool.quote C tx isLocal).2 = false ∧ AccountSet.isEmpty pool.locals = true ∧
      ((pool.quote C tx isLocal).1.items.length : ℤ) <
        pool.all.slots - goInt pool.globalLimit + numSlots tx := by
  rw [makeRoom_eq]
  split_ifs with hfull hquote
  · simp [hquote]
  · rw [← TxPricedList.discard_eq_none_iff (excess_pos h hpos htx hfull), ← giveUp]
    cases hd : pool.giveUp C tx isLocal with
    | none =>
      simp only [Option.bind_none, true_iff]
      exact ⟨hfull, by simpa using hquote, trivial⟩
    | some d =>
      -- removals do not panic
      obtain ⟨pool', heq, -⟩ := removeTxs_keeps ord now (h.setPriced d.1) d.2 false
      simp [heq]
  · simp [hfull]

theorem add_eq_none_iff (h : Good C pool)
    (hpos : ∀ {k t}, pool.all.get k = some t → 0 < numSlots t) (htx : 0 < numSlots tx) :
    pool.add C ord now tx isLocal = none ↔ pool.Overdrawn C tx isLocal := by
  have hroom := @makeRoom_eq_none_iff C ord now pool tx isLocal h hpos htx
  simp only [add]
  split_ifs with hknown
  · simp only [false_iff]
    intro hover
    simp [hover.new] at hknown
  have hget : pool.all.get (C.txHash tx) = none := by simpa using hknown
  cases hvalid : pool.validateTx C tx isLocal with
  | error err =>
    simp only [reduceCtorEq, false_iff]
    intro hover
    rw [hover.valid] at hvalid
    cases hvalid
  | ok u =>
    cases hmake : pool.makeRoom C ord now tx isLocal with
    | none =>
      obtain ⟨hfull, hquote, hlocals, hentries⟩ := hroom.1 hmake
      exact iff_of_true rfl ⟨hget, hvalid, hfull, hquote, hlocals, hentries⟩
    | some r =>
      refine iff_of_false ?_ fun hover => ?_
      · -- the transaction finds its place
        obtain ⟨hg, -, hnone⟩ := (makeRoom_room hmake).keeps h
        obtain ⟨r', heq, -⟩ := insertTx_inserted ord now isLocal hg.sound (hnone _ hget)
        simp only [Option.bind_eq_bind, Option.bind_some, heq]
        split_ifs <;> simp
      · have hnone := hroom.2 ⟨hover.full, hover.quoted, hover.locals, hover.entries⟩
        rw [hnone] at hmake
        cases hmake

/-! ## Reorganisations -/

/-- `runReorg` up to its last loop (core/tx_pool.go:1033-1074). -/
def reorganised (C : Crypto) (ord : RangeOrder) (now : ℤ) (pool : TxPool)
    (req : Option ResetRequest) (dirtyAccounts : Option AccountSet) : Option TxPool := do
  let pool ← pool.shifted C ord now req dirtyAccounts
  let pool ← pool.truncatePending C ord
  pool.truncateQueue C ord now

theorem runReorg_eq_setNonces (req : Option ResetRequest) (dirtyAccounts : Option AccountSet) :
    pool.runReorg C ord now req dirtyAccounts =
      (pool.reorganised C ord now req dirtyAccounts).bind fun pool =>
        setNonces pool (ord.order pool.pending.keys) := by
  rw [runReorg_eq]
  simp only [reorganised, Option.bind_eq_bind, Option.bind_assoc]
  rfl

theorem reorganised_good (h : Good C pool) (hslots : 1 ≤ pool.config.accountSlots.toNat)
    {req : Option ResetRequest} {dirtyAccounts : Option AccountSet}
    (hr : pool.reorganised C ord now req dirtyAccounts = some pool') : Good C pool' := by
  obtain ⟨pool₁, hpool₁, hr⟩ := Option.bind_eq_some_iff.1 hr
  obtain ⟨pool₂, hpool₂, hr⟩ := Option.bind_eq_some_iff.1 hr
  obtain ⟨hg₁, hfixed⟩ := shifted_keeps h hpool₁
  have hg₂ := (truncatePending_keeps hg₁.toGood (hfixed.config ▸ hslots) hpool₂).1
  exact (truncateQueue_keeps hg₂.toGood hr).1.toGood

/-- **Panics of the admission.**  In a pool that keeps its structure and whose transactions take at
    least one slot, `add` panics on a transaction of at least one slot exactly if it overdraws the
    heap.  The last loop of `runReorg` never panics. -/
theorem admission_panics_iff (C : Crypto) (pool : TxPool) (h : Good C pool)
    (hslots : 1 ≤ pool.config.accountSlots.toNat)
    (hpos : ∀ k t, pool.all.get k = some t → 0 < numSlots t) :
    (∀ ord now tx isLocal, 0 < numSlots tx →
        (pool.add C ord now tx isLocal = none ↔ pool.Overdrawn C tx isLocal)) ∧
      ∀ ord now req dirtyAccounts pool',
        pool.reorganised C ord now req dirtyAccounts = some pool' →
          ∃ pool'', pool.runReorg C ord now req dirtyAccounts = some pool'' := by
  refine ⟨fun ord now tx isLocal htx => add_eq_none_iff h (fun hk => hpos _ _ hk) htx, ?_⟩
  intro ord now req dirtyAccounts pool' hr
  have hg := reorganised_good h hslots hr
  rw [runReorg_eq_setNonces, hr]
  exact setNonces_returns ord hg

/-! ## A new transaction -/

/-- The transaction is new to a pool that has room for it. -/
structure Novel (C : Crypto) (pool : TxPool) (tx : Transaction) : Prop where
  new : pool.all.get (C.txHash tx) = none
  valid : pool.validateTx C tx false = .ok ()
  room : pool.all.count < pool.globalLimit.toNat
  pending : listAt pool.pending (C.cell tx) = none
  queue : listAt pool.queue (C.cell tx) = none

/-- The pool with another transaction in its queue. -/
def enlisted (C : Crypto) (now : ℤ) (pool : TxPool) (tx : Transaction) : TxPool :=
  ((pool.allAdd C tx).requeue C now tx).settle C false tx

theorem enlisted_books : (pool.enlisted C now tx).books =
    { pool.books with all := pool.all.add C tx, priced := pool.priced.put tx } := by
  rw [enlisted, settle_requeue_books]
  rfl

theorem enlisted_all : (pool.enlisted C now tx).all = pool.all.add C tx :=
  congrArg Books.all enlisted_books

theorem Novel.insertTx (h : Novel C pool tx) (hg : Good C pool) :
    pool.insertTx C ord now tx false = some (pool.enlisted C now tx, .ok false) := by
  obtain ⟨r, heq, hins⟩ := insertTx_inserted ord now false hg.sound h.new
  rw [heq]
  cases hins with
  | pendingKept hl hold | pendingReplaced hl hold =>
    have hat := h.pending
    rw [Crypto.cell, listAt_of_lookup hl, hold] at hat
    cases hat
  | queuedKept _ hl hold | queuedReplaced _ hl hold =>
    have hat := h.queue
    rw [Crypto.cell, listAt_of_lookup hl, hold] at hat
    cases hat
  | queued => rfl

theorem Novel.add (h : Novel C pool tx) (hg : Good C pool) :
    pool.add C ord now tx false = some (pool.enlisted C now tx, .ok false) := by
  simp only [TxPool.add, h.new, Option.isSome_none, Bool.false_eq_true, if_false, h.valid,
    makeRoom_eq, Nat.not_le.2 h.room, Option.bind_eq_bind, Option.bind_some, if_true,
    h.insertTx hg]

theorem Novel.step (h : Novel C pool tx) (hg : Good C pool) :
    pool.step C ⟨ord, now, .addRemotes [tx]⟩ = some (pool.enlisted C now tx) := by
  have hknown : pool.knownOrInvalid C tx = none := by
    have hvalid := h.valid
    unfold validateTx at hvalid
    unfold knownOrInvalid
    cases hsender : C.sender poolSigner tx with
    | error err =>
      rw [hsender] at hvalid
      split_ifs at hvalid
    | ok a => simp [h.new]
  simp only [TxPool.step, addRemotes, addTxs_singleton, hknown, h.add hg, Option.map_some]

end Benzene.TxPool

namespace Benzene.Concrete

open TxPool

/-! ## A pool with a long transaction -/

/-- A checksum that does not look at long strings. -/
def coarseHash (bs : Bytes) : Hash := if bs.length ≤ 1000 then hash32 bs else fixedBytes 32 0

def coarseCrypto : Crypto where
  keccak256 := coarseHash
  PrivateKey := UInt8
  publicKey k := [4, k]
  sign := ecdsaSign
  ecrecover := ecdsaRecover
  publicKey_head := crypto.publicKey_head
  sign_valid := ecdsaSign_valid
  ecrecover_sign := crypto.ecrecover_sign
  ecrecover_binds _ _ _ _ hrec _ := ecdsaRecover_binds hrec

@[irreducible] def longPayload : Bytes := List.replicate 100000 0

theorem length_longPayload : longPayload.length = 100000 := by
  unfold longPayload
  exact List.length_replicate

/-- A transfer with a long payload, which the signature does not cover. -/
def heavy : Transaction := { pay 7 0 5 with payload := longPayload }

/-- The strings of a transaction before and after its payload. -/
def frame (tx : Transaction) : List Bytes × List Bytes :=
  ([bigEndian tx.accountNonce.toNat, bigEndian tx.price.toNat, bigEndian tx.gasLimit.toNat,
      bigEndian tx.shardID.toNat, bigEndian tx.toShardID.toNat,
      (tx.recipient.map List.Vector.toList).getD [], bigEndian tx.amount.toNat],
    [bigEndian tx.v.toNat, bigEndian tx.r.toNat, bigEndian tx.s.toNat])

variable {tx : Transaction}

/-- The size of a transaction with a long payload.  It is stated for any transaction, so that the
    payload is not encoded. -/
theorem size_of_frame (hsign : 0 ≤ tx.price ∧ 0 ≤ tx.amount ∧ 0 ≤ tx.v ∧
      0 ≤ tx.r ∧ 0 ≤ tx.s)
    (hframe : ((frame tx).1.map List.length).sum + ((frame tx).2.map List.length).sum ≤ 200)
    (hpayload : tx.payload.length = 100000) : 100000 ≤ tx.size ∧ tx.size ≤ 101000 := by
  obtain ⟨hprice, hamount, hv, hr, hs⟩ := hsign
  have hstrings : Rlp.strings tx.fields = some ((frame tx).1 ++ tx.payload :: (frame tx).2) := by
    rw [Rlp.strings_eq_some]
    simp only [Transaction.fields, Rlp.uint, Rlp.bigInt, Rlp.pointer, Rlp.bytes, hprice.not_gt,
      hamount.not_gt, hv.not_gt, hr.not_gt, hs.not_gt, if_false, frame]
    rfl
  have hsum : (((frame tx).1 ++ tx.payload :: (frame tx).2).map List.length).sum =
      ((frame tx).1.map List.length).sum + ((frame tx).2.map List.length).sum + 100000 := by
    rw [List.map_append, List.sum_append, List.map_cons, List.sum_cons, hpayload]
    omega
  have hcount : ((frame tx).1 ++ tx.payload :: (frame tx).2).length = 11 := rfl
  have hlen := @Rlp.length_encodeList ((frame tx).1 ++ tx.payload :: (frame tx).2) (by
    rw [hsum, hcount]
    omega)
  rw [hsum, hcount] at hlen
  simp only [Transaction.size, Rlp.encode, hstrings, Option.map_some, Option.getD_some]
  omega

theorem size_heavy : 100000 ≤ heavy.size ∧ heavy.size ≤ 101000 :=
  size_of_frame (by decide +kernel) (by decide +kernel) length_longPayload

theorem numSlots_of_size (h : 100000 ≤ tx.size ∧ tx.size ≤ 101000) :
    numSlots tx = 4 := by
  unfold numSlots txSlotSize
  omega

theorem numSlots_heavy : numSlots heavy = 4 := numSlots_of_size size_heavy

theorem numSlots_light : numSlots (pay 8 0 5) = 1 ∧ numSlots (payAt 10 9 0) = 1 := by
  decide +kernel

theorem txHash_heavy : coarseCrypto.txHash heavy = fixedBytes 32 0 := by
  have hsize := size_heavy.1
  rw [Transaction.size] at hsize
  have hlong : ¬ ((Rlp.encode heavy.fields).getD []).length ≤ 1000 := by
    cases henc : Rlp.encode heavy.fields with
    | none => simp [henc] at hsize
    | some bs =>
      rw [henc, Option.map_some, Option.getD_some] at hsize
      rw [Option.getD_some]
      omega
  have hkeccak : coarseCrypto.keccak256 = coarseHash := rfl
  rw [Crypto.txHash, Crypto.rlpHash, hkeccak, coarseHash, if_neg hlong]

/-- The pool of two transactions before it has any. -/
def emptyPool : TxPool := newTxPool tightConfig (uniformState 0 100)

theorem novel_heavy : Novel coarseCrypto emptyPool heavy where
  new := rfl
  valid := by
    have hlight : emptyPool.validateTx coarseCrypto (pay 7 0 5) false = .ok () := by
      decide +kernel
    have hsize := size_heavy.2
    have hfits : ¬ txMaxSize < heavy.size := by
      unfold txMaxSize txSlotSize
      omega
    have hfits' : ¬ txMaxSize < (pay 7 0 5).size := by decide +kernel
    unfold validateTx at hlight ⊢
    rw [if_neg hfits'] at hlight
    rw [if_neg hfits]
    exact hlight
  room := by decide +kernel
  pending := rfl
  queue := rfl

def heavyPool : TxPool := emptyPool.enlisted coarseCrypto 0 heavy

theorem good_emptyPool : Good coarseCrypto emptyPool := newTxPool_good _ _

theorem heavyPool_step : emptyPool.step coarseCrypto (poolEvent (.addRemotes [heavy])) =
    some heavyPool :=
  novel_heavy.step good_emptyPool

theorem heavyPool_all : heavyPool.all = emptyPool.all.add coarseCrypto heavy := enlisted_all

theorem validateTx_heavyPool (tx : Transaction) :
    heavyPool.validateTx coarseCrypto tx false = emptyPool.validateTx coarseCrypto tx false :=
  rfl

theorem txHash_ne_heavy (h : coarseCrypto.txHash tx ≠ fixedBytes 32 0) :
    coarseCrypto.txHash tx ≠ coarseCrypto.txHash heavy := by
  rw [txHash_heavy]
  exact h

theorem novel_second : Novel coarseCrypto heavyPool (pay 8 0 5) where
  new := by
    rw [heavyPool_all, TxLookup.get_add, if_neg (txHash_ne_heavy (by decide +kernel))]
    rfl
  valid := by
    rw [validateTx_heavyPool]
    decide +kernel
  room := by
    have hcount : heavyPool.all.count = emptyPool.all.count + 1 := by
      rw [heavyPool_all]
      exact TxLookup.count_add rfl
    have hlimit : heavyPool.globalLimit = emptyPool.globalLimit := rfl
    rw [hcount, hlimit]
    decide +kernel
  pending := rfl
  queue := by
    have hsender : coarseCrypto.poolSender (pay 8 0 5) ≠ coarseCrypto.poolSender heavy := by
      decide +kernel
    have hqueue : heavyPool.queue = emptyPool.queue.insert (coarseCrypto.poolSender heavy)
        (((emptyPool.queue.lookup (coarseCrypto.poolSender heavy)).getD (.new false)).put
          heavy) := rfl
    rw [hqueue, listAt_insert_put, if_neg fun hcell => hsender (congrArg Prod.fst hcell)]
    rfl

def crampedPool : TxPool := heavyPool.enlisted coarseCrypto 0 (pay 8 0 5)

theorem good_heavyPool : Good coarseCrypto heavyPool :=
  (step_keeps good_emptyPool (by decide) heavyPool_step).1.toGood

theorem crampedPool_run : runEvents coarseCrypto emptyPool
    [poolEvent (.addRemotes [heavy]), poolEvent (.addRemotes [pay 8 0 5])] = some crampedPool := by
  have hsecond : heavyPool.step coarseCrypto (poolEvent (.addRemotes [pay 8 0 5])) =
      some crampedPool := novel_second.step good_heavyPool
  rw [runEvents, Run.runPartial, List.foldlM_cons, heavyPool_step, Option.bind_eq_bind,
    Option.bind_some, List.foldlM_cons, hsecond]
  rfl

theorem crampedPool_all : crampedPool.all = heavyPool.all.add coarseCrypto (pay 8 0 5) :=
  enlisted_all

theorem overdrawn_crampedPool : crampedPool.Overdrawn coarseCrypto (payAt 10 9 0) false := by
  have hpriced : crampedPool.priced = heavyPool.priced.put (pay 8 0 5) :=
    congrArg Books.priced enlisted_books
  have hpriced' : heavyPool.priced = emptyPool.priced.put heavy :=
    congrArg Books.priced enlisted_books
  have hlocals : crampedPool.locals = ∅ := rfl
  have hlimit : crampedPool.globalLimit = 2 := rfl
  have hget : crampedPool.all.get (coarseCrypto.txHash (pay 8 0 5)) = some (pay 8 0 5) := by
    rw [crampedPool_all, TxLookup.get_add, if_pos rfl]
  have hremote : AccountSet.containsTx coarseCrypto crampedPool.locals (payAt 10 9 0) = false :=
    hlocals ▸ TxPricedList.containsTx_empty _
  have hquote : crampedPool.quote coarseCrypto (payAt 10 9 0) false =
      crampedPool.priced.underpriced coarseCrypto crampedPool.all crampedPool.locals
        (payAt 10 9 0) := if_neg Bool.false_ne_true
  refine ⟨?_, ?_, ?_, ?_, ?_, ?_⟩
  · rw [crampedPool_all, TxLookup.get_add, if_neg (by decide +kernel), heavyPool_all,
      TxLookup.get_add, if_neg (txHash_ne_heavy (by decide +kernel))]
    rfl
  · have hvalid : crampedPool.validateTx coarseCrypto (payAt 10 9 0) false =
        emptyPool.validateTx coarseCrypto (payAt 10 9 0) false := rfl
    rw [hvalid]
    decide +kernel
  · rw [hlimit, crampedPool_all, TxLookup.count_add novel_second.new, heavyPool_all,
      TxLookup.count_add rfl]
    decide
  · rw [hquote, Bool.eq_false_iff]
    intro hunder
    have hle := underpriced_le (runEvents_priced crampedPool_run) hremote hunder hget
    exact absurd hle (by decide)
  · rw [hlocals]
    rfl
  · have hentries : (crampedPool.priced.underpriced coarseCrypto crampedPool.all
        crampedPool.locals (payAt 10 9 0)).1.items.length ≤ crampedPool.priced.items.length :=
      TxPricedList.underpriced_swept.1.length_le
    have hlen : crampedPool.priced.items.length = 2 := by
      rw [hpriced, hpriced', TxPricedList.length_put, TxPricedList.length_put]
      rfl
    have hslots : crampedPool.all.slots = 0 + (numSlots heavy : ℤ) + numSlots (pay 8 0 5) := by
      rw [crampedPool_all, heavyPool_all]
      rfl
    have hint : goInt crampedPool.globalLimit = 2 := by
      rw [hlimit]
      rfl
    rw [hquote, hslots, numSlots_heavy, numSlots_light.1, numSlots_light.2, hint]
    omega

theorem slots_crampedPool (k : Hash) (t : Transaction) (h : crampedPool.all.get k = some t) :
    0 < numSlots t := by
  rw [crampedPool_all, TxLookup.get_add, heavyPool_all, TxLookup.get_add] at h
  split_ifs at h
  · obtain rfl := Option.some.inj h
    rw [numSlots_light.1]
    decide
  · obtain rfl := Option.some.inj h
    rw [numSlots_heavy]
    decide
  · cases h

theorem add_crampedPool :
    crampedPool.add coarseCrypto rangeOrder 0 (payAt 10 9 0) false = none := by
  have hslots : 0 < numSlots (payAt 10 9 0) := by
    rw [numSlots_light.2]
    decide
  rw [add_eq_none_iff (runEvents_good crampedPool_run).1 (fun hk => slots_crampedPool _ _ hk)
    hslots]
  exact overdrawn_crampedPool

/-- A pool for two transactions has one of four slots and one of one slot.  The next one needs
    four slots to be freed, and `Discard` allocates for two entries less four. -/
theorem admission_panics :
    runEvents coarseCrypto (newTxPool tightConfig (uniformState 0 100))
        [poolEvent (.addRemotes [heavy]), poolEvent (.addRemotes [pay 8 0 5])] =
          some crampedPool ∧
      numSlots heavy = 4 ∧ numSlots (pay 8 0 5) = 1 ∧ numSlots (payAt 10 9 0) = 1 ∧
      crampedPool.add coarseCrypto rangeOrder 0 (payAt 10 9 0) false = none := by
  exact ⟨crampedPool_run, numSlots_heavy, numSlots_light.1, numSlots_light.2, add_crampedPool⟩

/-- The condition in the same pool, for a transaction that it has already. -/
theorem crampedPool_panics_iff :
    1 ≤ crampedPool.config.accountSlots.toNat ∧
      (crampedPool.add coarseCrypto rangeOrder 0 (pay 8 0 5) false = none ↔
        crampedPool.Overdrawn coarseCrypto (pay 8 0 5) false) := by
  have hconfig : 1 ≤ crampedPool.config.accountSlots.toNat := by
    have hkept : crampedPool.config = emptyPool.config := rfl
    rw [hkept]
    decide
  exact ⟨hconfig, (admission_panics_iff coarseCrypto crampedPool
    (runEvents_good crampedPool_run).1 hconfig slots_crampedPool).1 rangeOrder 0 (pay 8 0 5) false
      (numSlots_light.1 ▸ Nat.one_pos)⟩

end Benzene.Concrete
