import Benzene.Core.AdmissionSafe

/-!
# The turns of a batch

`addTxs` (core/tx_pool.go:800-851) filters out known transactions and those without a sender, and
adds the others one after the other.  What becomes of a transaction at its turn is said here on the
pool of that turn.

* `add_admits_iff`: it is admitted if it is new and valid, a full pool does not turn it away, and
  it is dear enough to replace the one with its sender and nonce, if that one has not been evicted.
* `get_add_iff`: the others stay, but for those evicted for the room and the one that is replaced.
* `linesUp_iff`: the results of a batch line up with its transactions exactly if no turn overdraws
  the heap.
* `outcomes_admits`, `outcomes_get_iff`: the results of a batch, and what the pool has after it.
-/

namespace Benzene.TxPool

variable {C : Crypto} {ord : RangeOrder} {now : ℤ} {pool pool' room start : TxPool}
  {tx old : Transaction} {isLocal : Bool} {k : Hash} {txs : List Transaction}
  {r : TxPool × Except TxError Bool}

/-! ## A turn -/

/-- The transactions a full pool gives up for another one: the cheapest that are not local, until
    they have the slots that `Discard` aims at. -/
def evicted (C : Crypto) (pool : TxPool) (tx : Transaction) (isLocal : Bool) :
    List Transaction :=
  if pool.globalLimit.toNat ≤ pool.all.count then
    let priced := (pool.quote C tx isLocal).1
    TxPricedList.takeSlots (priced.discardTarget C pool.locals
        (pool.all.slots - goInt pool.globalLimit + numSlots tx))
      (priced.cheapest C pool.all pool.locals)
  else []

/-- The transaction is new and valid, and a full pool does not turn it away. -/
structure Enters (C : Crypto) (pool : TxPool) (tx : Transaction) (isLocal : Bool) : Prop where
  new : pool.all.get (C.txHash tx) = none
  valid : pool.validateTx C tx isLocal = .ok ()
  quoted : pool.globalLimit.toNat ≤ pool.all.count → (pool.quote C tx isLocal).2 = false

/-- A transaction of the pool has the same sender and nonce, and is not evicted. -/
structure Rivals (C : Crypto) (pool : TxPool) (tx : Transaction) (isLocal : Bool)
    (old : Transaction) : Prop where
  pooled : pool.all.get (C.txHash old) = some old
  cell : C.cell old = C.cell tx
  stays : C.txHash old ∉ (pool.evicted C tx isLocal).map C.txHash

/-- The transaction is admitted. -/
structure Admits (C : Crypto) (pool : TxPool) (tx : Transaction) (isLocal : Bool) : Prop extends
    Enters C pool tx isLocal where
  bumps : ∀ old, pool.Rivals C tx isLocal old →
    TxList.keepsOld old tx pool.config.priceBump = false

/-- The transaction takes that of the hash out of the pool: by eviction, or as its replacement. -/
def Displaces (C : Crypto) (pool : TxPool) (tx : Transaction) (isLocal : Bool) (k : Hash) : Prop :=
  pool.Enters C tx isLocal ∧ (k ∈ (pool.evicted C tx isLocal).map C.txHash ∨
    pool.Admits C tx isLocal ∧ ∃ old, pool.Rivals C tx isLocal old ∧ C.txHash old = k)

theorem Room.evicted_eq {d : TxPricedList × List Transaction}
    (hfull : pool.globalLimit.toNat ≤ pool.all.count) (hd : pool.giveUp C tx isLocal = some d) :
    d.2 = pool.evicted C tx isLocal := by
  rw [evicted, if_pos hfull]
  exact TxPricedList.discard_drop hd

/-- Making room takes the evicted transactions out of the table. -/
theorem Room.get (hroom : Room C ord now isLocal pool tx (room, true)) (h : Good C pool) :
    room.all.get k = if k ∈ (pool.evicted C tx isLocal).map C.txHash then none
      else pool.all.get k := by
  cases hroom with
  | free hfree => simp [evicted, Nat.not_le.2 hfree]
  | @made d _ hfull _ hd hremove =>
    have hall : room.all = pool.all.expunge C d.2 :=
      congrArg Books.all (removeTxs_expunge (h.setPriced d.1) hremove)
    rw [hall, TxLookup.get_expunge, Room.evicted_eq hfull hd]

theorem Room.enters (hroom : Room C ord now isLocal pool tx (room, true))
    (hget : pool.all.get (C.txHash tx) = none)
    (hvalid : pool.validateTx C tx isLocal = .ok ()) : pool.Enters C tx isLocal := by
  refine ⟨hget, hvalid, fun hfull => ?_⟩
  cases hroom with
  | free hfree => omega
  | made _ hquote => exact hquote

/-- A transaction of the pool has the sender and nonce of another one. -/
def Occupies (C : Crypto) (pool : TxPool) (tx old : Transaction) : Prop :=
  pool.all.get (C.txHash old) = some old ∧ C.cell old = C.cell tx

theorem Room.rivals_iff (hroom : Room C ord now isLocal pool tx (room, true)) (h : Good C pool) :
    pool.Rivals C tx isLocal old ↔ room.Occupies C tx old := by
  rw [Occupies, hroom.get h]
  constructor
  · rintro ⟨hpooled, hcell, hstays⟩
    exact ⟨by rw [if_neg hstays, hpooled], hcell⟩
  · rintro ⟨hpooled, hcell⟩
    split_ifs at hpooled with hgone
    exact ⟨hpooled, hcell, hgone⟩

theorem Sound.occupies_iff (h : Sound C pool []) : pool.Occupies C tx old ↔
    listAt pool.pending (C.cell tx) = some old ∨ listAt pool.queue (C.cell tx) = some old := by
  constructor
  · rintro ⟨hget, hcell⟩
    have hin := ((h.shelved.index_iff _ old).1 hget).2
    simpa [hcell] using hin
  · rintro (hat | hat)
    · exact ⟨h.get_of_pending hat, h.shelved.left_place hat⟩
    · exact ⟨h.get_of_queued hat, h.shelved.right_place hat⟩

/-- What a transaction that finds room makes of the table. -/
theorem Inserted.table (hins : Inserted C ord now isLocal room tx r) (h : Sound C room []) :
    (∃ err old, r.2 = .error err ∧ room.Occupies C tx old ∧
        TxList.keepsOld old tx room.config.priceBump = true ∧ r.1.all = room.all) ∨
      ∃ replaced, r.2 = .ok replaced ∧
        (∀ old, room.Occupies C tx old →
          TxList.keepsOld old tx room.config.priceBump = false) ∧
        ∀ k, (r.1.all.get k).isSome ↔ k = C.txHash tx ∨ (room.all.get k).isSome ∧
          ∀ old, room.Occupies C tx old → C.txHash old ≠ k := by
  -- no other transaction has the place of one
  have hpending : ∀ {l : TxList} {old : Transaction},
      room.pending.lookup (C.poolSender tx) = some l → l.get tx.accountNonce = some old →
      ∀ t, room.Occupies C tx t ↔ t = old := by
    intro l old hl hold t
    have hat : listAt room.pending (C.cell tx) = some old := (listAt_of_lookup hl _).trans hold
    simp [h.occupies_iff, hat, h.shelved.disjoint hat, eq_comm]
  have hqueued : ∀ {l : TxList} {old : Transaction}, listAt room.pending (C.cell tx) = none →
      room.queue.lookup (C.poolSender tx) = some l → l.get tx.accountNonce = some old →
      ∀ t, room.Occupies C tx t ↔ t = old := by
    intro l old hnone hl hold t
    have hat : listAt room.queue (C.cell tx) = some old := (listAt_of_lookup hl _).trans hold
    simp [h.occupies_iff, hnone, hat, eq_comm]
  have hswap : ∀ {old : Transaction} {k : Hash}, (∀ t, room.Occupies C tx t ↔ t = old) →
      (((room.swapAll C ord old tx).all.get k).isSome ↔ k = C.txHash tx ∨
        (room.all.get k).isSome ∧ ∀ t, room.Occupies C tx t → C.txHash t ≠ k) := by
    intro old k hocc
    rw [get_swapAll]
    simp only [hocc, forall_eq]
    split_ifs with hk hk'
    · simp [hk]
    · simp [hk, hk'.symm]
    · simp [hk, Ne.symm hk']
  cases hins with
  | @pendingKept l old hl hold hkeep =>
    exact Or.inl ⟨_, old, rfl, (hpending hl hold old).2 rfl, hkeep, rfl⟩
  | pendingReplaced hl hold hkeep =>
    have hocc := hpending hl hold
    refine Or.inr ⟨_, rfl, by simp [hocc, hkeep], fun k => ?_⟩
    rw [replaced_all]
    exact hswap hocc
  | @queuedKept l old hnone hl hold hkeep =>
    exact Or.inl ⟨_, old, rfl, (hqueued hnone hl hold old).2 rfl, hkeep, rfl⟩
  | queuedReplaced hnone hl hold hkeep =>
    have hocc := hqueued hnone hl hold
    refine Or.inr ⟨_, rfl, by simp [hocc, hkeep], fun k => ?_⟩
    rw [settle_all, requeue_all]
    exact hswap hocc
  | queued hnone hqueue =>
    have hocc : ∀ t, ¬ room.Occupies C tx t := by simp [h.occupies_iff, hnone, hqueue]
    refine Or.inr ⟨_, rfl, by simp [hocc], fun k => ?_⟩
    show ((room.all.add C tx).get k).isSome ↔ _
    rw [TxLookup.get_add]
    split_ifs with hk <;> simp [hk, hocc]

/-- What a turn makes of the transaction, and of a hash in the table. -/
structure Turned (C : Crypto) (pool : TxPool) (tx : Transaction) (isLocal : Bool)
    (r : TxPool × Except TxError Bool) (k : Hash) : Prop where
  admits : r.2.isOk = true ↔ pool.Admits C tx isLocal
  get : (r.1.all.get k).isSome ↔ C.txHash tx = k ∧ pool.Admits C tx isLocal ∨
    (pool.all.get k).isSome ∧ ¬ pool.Displaces C tx isLocal k

theorem add_turn (h : Good C pool) (hr : pool.add C ord now tx isLocal = some r) :
    Turned C pool tx isLocal r k := by
  -- a transaction that does not enter changes nothing
  have hout : ∀ {pool' : TxPool} {err : TxError}, pool'.all = pool.all →
      ¬ pool.Enters C tx isLocal → Turned C pool tx isLocal (pool', .error err) k := by
    intro pool' err hall hnot
    have hadmits : ¬ pool.Admits C tx isLocal := fun ha => hnot ha.toEnters
    refine ⟨iff_of_false (by simp [Except.isOk, Except.toBool]) hadmits, ?_⟩
    simp [hall, hadmits, Displaces, hnot]
  cases add_added h hr with
  | known hget =>
    refine hout rfl fun hent => ?_
    rw [hent.new] at hget
    cases hget
  | invalid _ hvalid =>
    refine hout rfl fun hent => ?_
    rw [hent.valid] at hvalid
    cases hvalid
  | refused _ _ hroom =>
    cases hroom with
    | refused hfull hquote =>
      refine hout rfl fun hent => ?_
      rw [hent.quoted hfull] at hquote
      cases hquote
  | @inserted room _ hget hvalid hroom hins =>
    obtain ⟨hg, hshort, -⟩ := hroom.keeps h
    have henters := hroom.enters hget hvalid
    have hrivals : ∀ old, pool.Rivals C tx isLocal old ↔ room.Occupies C tx old :=
      fun _ => hroom.rivals_iff h
    have hconfig : room.config = pool.config := hshort.same.config
    have hstay : ∀ k, (room.all.get k).isSome ↔ (pool.all.get k).isSome ∧
        k ∉ (pool.evicted C tx isLocal).map C.txHash := by
      intro k
      rw [hroom.get h]
      split_ifs with hgone <;> simp [hgone]
    rcases hins.table hg.sound with
      ⟨err, old, herr, hold, hkeep, hall⟩ | ⟨replaced, hok, hbumps, htable⟩
    · have hadmits : ¬ pool.Admits C tx isLocal := by
        intro ha
        have hlow := ha.bumps old ((hrivals old).2 hold)
        rw [← hconfig, hkeep] at hlow
        cases hlow
      refine ⟨iff_of_false (by simp [herr, Except.isOk, Except.toBool]) hadmits, ?_⟩
      rw [hall, hstay]
      simp [hadmits, Displaces, henters]
    · have hadmits : pool.Admits C tx isLocal :=
        ⟨henters, fun old hold => hconfig ▸ hbumps old ((hrivals old).1 hold)⟩
      refine ⟨iff_of_true (by simp [hok, Except.isOk, Except.toBool]) hadmits, ?_⟩
      rw [htable, hstay]
      simp only [Displaces, henters, hadmits, hrivals, and_true, true_and, not_or, not_exists,
        not_and, and_assoc, eq_comm (a := k)]

/-! ## A batch -/

/-- One entry for each transaction of a batch that comes to the pool `start`: the pool of its turn
    and the transaction, or nothing if it is filtered out. -/
def turns (C : Crypto) (ord : RangeOrder) (now : ℤ) (isLocal : Bool) (start : TxPool) :
    TxPool → List Transaction → List (Option (TxPool × Transaction))
  | _, [] => []
  | pool, tx :: txs =>
    match start.knownOrInvalid C tx with
    | some _ => none :: turns C ord now isLocal start pool txs
    | none => some (pool, tx) ::
      match pool.add C ord now tx isLocal with
      | none => []
      | some added => turns C ord now isLocal start added.1 txs

/-- The transaction of a turn is admitted. -/
def AdmitsAt (C : Crypto) (isLocal : Bool) (turn : Option (TxPool × Transaction)) : Prop :=
  ∃ t, turn = some t ∧ t.1.Admits C t.2 isLocal

/-- A transaction of the hash is in the pool after the turns: it was there before, or is admitted at
    a turn, and no later one displaces it. -/
def Remains (C : Crypto) (isLocal : Bool) (k : Hash) (pool : TxPool)
    (turns : List (Option (TxPool × Transaction))) : Prop :=
  Run.Lasts (fun turn => ∃ t, turn = some t ∧ C.txHash t.2 = k ∧ t.1.Admits C t.2 isLocal)
    (fun turn => ∃ t, turn = some t ∧ t.1.Displaces C t.2 isLocal k)
    ((pool.all.get k).isSome = true) turns

/-- Transactions that take slots stay so. -/
theorem numSlots_pos_of_add (h : Good C pool)
    (hpos : ∀ {k t}, pool.all.get k = some t → 0 < numSlots t) (htx : 0 < numSlots tx)
    (hr : pool.add C ord now tx isLocal = some r) {t : Transaction}
    (hk : r.1.all.get k = some t) : 0 < numSlots t := by
  rcases (add_keeps h hr).1.history.enters hk with hold | hnew
  · exact hpos hold
  · split_ifs at hnew with hok
    · rwa [List.mem_singleton.1 hnew]
    · cases hnew

/-- A batch returns exactly if no turn overdraws the heap. -/
theorem outcomes_ne_none_iff (h : Good C pool)
    (hpos : ∀ {k t}, pool.all.get k = some t → 0 < numSlots t)
    (htxs : ∀ tx ∈ txs, 0 < numSlots tx) :
    outcomes C ord now isLocal start pool txs ≠ none ↔
      ∀ t, some t ∈ turns C ord now isLocal start pool txs → ¬ t.1.Overdrawn C t.2 isLocal := by
  induction txs generalizing pool with
  | nil => simp [outcomes, turns]
  | cons tx txs ih =>
    obtain ⟨htx, htxs⟩ := List.forall_mem_cons.1 htxs
    have hover := @add_eq_none_iff C ord now pool tx isLocal h hpos htx
    rw [outcomes, turns]
    cases start.knownOrInvalid C tx with
    | some err =>
      have hrest := ih h hpos htxs
      cases hout : outcomes C ord now isLocal start pool txs <;> simp [hout] at hrest ⊢ <;>
        exact hrest
    | none =>
      cases hadd : pool.add C ord now tx isLocal with
      | none => simpa [hadd] using hover.1 hadd
      | some added =>
        have hnot : ¬ pool.Overdrawn C tx isLocal := fun ho => by
          rw [hover.2 ho] at hadd
          cases hadd
        have hrest := ih (add_keeps h hadd).1.toGood
          (fun hk => numSlots_pos_of_add h hpos htx hadd hk) htxs
        cases hout : outcomes C ord now isLocal start added.1 txs <;>
          simp [hout, hnot] at hrest ⊢ <;> exact hrest

/-- **Batch results.**  In a pool that keeps its structure the results of a batch line up with its
    transactions exactly if no turn overdraws the heap.  All transactions take at least one
    slot. -/
theorem linesUp_iff (C : Crypto) (ord : RangeOrder) (now : ℤ) (pool : TxPool)
    (txs : List Transaction) (isLocal : Bool) (h : Good C pool)
    (hpos : ∀ k t, pool.all.get k = some t → 0 < numSlots t)
    (htxs : ∀ tx ∈ txs, 0 < numSlots tx) :
    LinesUp C ord now pool txs isLocal ↔ ∀ t,
      some t ∈ turns C ord now isLocal pool pool txs → ¬ t.1.Overdrawn C t.2 isLocal := by
  rw [← outcomes_ne_none_iff h (fun hk => hpos _ _ hk) htxs]
  constructor
  · rintro ⟨pool', errs, dirty, -, -, hsome⟩
    simp [hsome]
  · intro hne
    cases hadd : pool.addTxs C ord now txs isLocal with
    | none =>
      rw [← addTxs_outcomes, hadd] at hne
      exact absurd rfl hne
    | some r => exact ⟨r.1, r.2.1, r.2.2, hadd, length_addTxs hadd, outcomes_of_addTxs hadd⟩

theorem errorOf_eq_none_iff {res : Except TxError Bool} : errorOf res = none ↔ res.isOk = true := by
  cases res <;> simp [errorOf, Except.isOk, Except.toBool]

/-- The results of a batch, and what the pool has after it. -/
theorem outcomes_turns (h : Good C pool) {r : TxPool × List (Option TxError)}
    (hr : outcomes C ord now isLocal start pool txs = some r) :
    List.Forall₂ (fun err turn => err = none ↔ AdmitsAt C isLocal turn) r.2
        (turns C ord now isLocal start pool txs) ∧
      ((r.1.all.get k).isSome ↔
        Remains C isLocal k pool (turns C ord now isLocal start pool txs)) := by
  induction txs generalizing pool r with
  | nil =>
    obtain rfl := Option.some.inj hr
    exact ⟨.nil, Run.lasts_nil.symm⟩
  | cons tx txs ih =>
    rw [outcomes] at hr
    rw [turns]
    cases hknown : start.knownOrInvalid C tx with
    | some err =>
      simp only [hknown] at hr ⊢
      obtain ⟨r', hr', hr⟩ := Option.bind_eq_some_iff.1 hr
      obtain rfl := Option.some.inj hr
      obtain ⟨hadmits, hremains⟩ := ih h hr'
      refine ⟨.cons (by simp [AdmitsAt]) hadmits, hremains.trans ?_⟩
      rw [Remains, Remains, Run.lasts_cons]
      simp
    | none =>
      simp only [hknown] at hr ⊢
      obtain ⟨added, hadd, hr⟩ := Option.bind_eq_some_iff.1 hr
      obtain ⟨r', hr', hr⟩ := Option.bind_eq_some_iff.1 hr
      obtain rfl := Option.some.inj hr
      obtain ⟨hadmits, hremains⟩ := ih (add_keeps h hadd).1.toGood hr'
      obtain ⟨hok, hget⟩ := add_turn (k := k) h hadd
      simp only [hadd]
      refine ⟨.cons ?_ hadmits, hremains.trans ?_⟩
      · rw [errorOf_eq_none_iff, hok]
        simp [AdmitsAt]
      · rw [Remains, Remains, Run.lasts_cons, hget]
        simp

end Benzene.TxPool

namespace Benzene.Concrete

open TxPool

/-- A batch of one transaction that overdraws the heap does not return. -/
theorem batch_not_linesUp :
    runEvents coarseCrypto (newTxPool tightConfig (uniformState 0 100))
        [poolEvent (.addRemotes [heavy]), poolEvent (.addRemotes [pay 8 0 5])] =
          some crampedPool ∧
      ¬ LinesUp coarseCrypto rangeOrder 0 crampedPool [payAt 10 9 0] false := by
  refine ⟨crampedPool_run, ?_⟩
  rintro ⟨pool', errs, dirty, hadd, -⟩
  have hknown : crampedPool.knownOrInvalid coarseCrypto (payAt 10 9 0) = none := by
    rw [knownOrInvalid, overdrawn_crampedPool.new]
    decide +kernel
  rw [addTxs_singleton, hknown, add_crampedPool] at hadd
  cases hadd

/-- A dear transaction, one of the same hash, and one that is too cheap come to a full pool. -/
def mixedBatch : List Transaction := [payAt 12 9 0, payAt 12 9 0, payAt 1 6 0]

theorem mixedBatch_linesUp : filledPool.globalLimit.toNat ≤ filledPool.all.count ∧
    LinesUp crypto rangeOrder 0 filledPool mixedBatch false := by
  have hrun : runEvents crypto (newTxPool tightConfig (uniformState 0 100))
      [poolEvent (.addRemotes [payAt 1 8 0, payAt 10 7 0])] = some filledPool :=
    (Option.some_get _).symm
  have hslots : (∀ t ∈ GoMap.values filledPool.all.all, 0 < numSlots t) ∧
      ∀ t ∈ mixedBatch, 0 < numSlots t := by decide +kernel
  -- the heap has an entry for each slot to be freed
  have hentries : ∀ turn ∈ turns crypto rangeOrder 0 false filledPool filledPool mixedBatch,
      ∀ t ∈ turn, t.1.all.slots - goInt t.1.globalLimit + numSlots t.2 ≤
        (t.1.quote crypto t.2 false).1.items.length := by decide +kernel
  refine ⟨by decide +kernel, (linesUp_iff crypto rangeOrder 0 filledPool mixedBatch false
    (runEvents_good hrun).1 (fun k t hk => hslots.1 t (GoMap.mem_values_iff.2 ⟨k, hk⟩))
    hslots.2).2 fun t ht hover => ?_⟩
  exact absurd hover.entries (not_lt.2 (hentries _ ht t rfl))

end Benzene.Concrete
