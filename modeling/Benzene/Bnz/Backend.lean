import Benzene.Common.Grouping
import Benzene.Core.AddLocal
import Benzene.Core.Turns

/-!
# Submitting transactions to a node

Model of `addPendingTransactions`, `AddPendingTransaction` and `tryBroadcast`
(bnz/backend.go:248-311) and of `SubmitTransaction` (internal/bnzapi/api.go:643-664).

`addPendingTransactions` sorts its transactions by shard, hands each group to the pool of its
shard and strings the results together: first the cross-shard transactions, then the groups in
the order of the configuration, and nothing for a shard the node does not serve.
`reports_in_place_iff` says when that is one result per transaction, in the order of the list.

A nil dereference or another panic is `none`.  The pools are those when the additions of a call
are done; `promotions` are the accounts that `AddLocals` has asked its pool to promote.
-/

namespace Benzene

/-- The errors of a submission: of the pool, `"cross-shard tx not accepted yet"`,
    `"shard do not match"`, and of the recovery of the sender. -/
inductive SubmitError
  | pool (err : TxError)
  | crossShard
  | shardMismatch
  | sender (err : SenderError)
deriving DecidableEq

/-- The pools of a node (bnz/backend.go:66-72): `New` makes one for each shard of the
    configuration, whose database can be opened once. -/
structure Backend where
  /-- `config.ShardID`. -/
  shardID : List UInt64
  txPool : GoMap UInt64 TxPool
  nodup : shardID.Nodup
  served_iff : ∀ s, (txPool.lookup s).isSome ↔ s ∈ shardID

/-- A transaction on the topic of a shard. -/
structure Broadcast where
  group : UInt64
  tx : Transaction
deriving DecidableEq

/-- What `addPendingTransactions` leaves and returns. -/
structure Additions where
  backend : Backend
  errs : List (Option SubmitError)
  promotions : List (UInt64 × AccountSet)

/-- What `SubmitTransaction` leaves, sends and returns. -/
structure Submission where
  backend : Backend
  broadcasts : List Broadcast
  result : Except SubmitError Hash

namespace Backend

variable (b : Backend)

/-- The pool of a served shard has changed. -/
def setPool (s : UInt64) (pool : TxPool) : Backend :=
  if h : s ∈ b.shardID then
    { b with
      txPool := b.txPool.insert s pool
      served_iff := by
        intro s'
        rw [GoMap.lookup_insert_eq]
        split_ifs with hs
        · simp [hs, h]
        · exact b.served_iff s' }
  else b

end Backend

/-- The results of `AddLocals` on the pool of one shard. -/
def Additions.append (acc : Additions) (s : UInt64)
    (r : TxPool × List (Option TxError) × Option AccountSet) : Additions where
  backend := acc.backend.setPool s r.1
  errs := acc.errs ++ r.2.1.map (Option.map .pool)
  promotions := acc.promotions ++ r.2.2.toList.map fun dirty => (s, dirty)

namespace Backend

variable (C : Crypto) (ord : UInt64 → RangeOrder) (now : UInt64 → ℤ) (b : Backend)

/-- The first loop of `addPendingTransactions` (bnz/backend.go:276-283): the transactions by
    shard, and the results of those that go to no pool. -/
def sortByShard : List Transaction → GoMap UInt64 (List Transaction) →
    List (Option SubmitError) → GoMap UInt64 (List Transaction) × List (Option SubmitError)
  | [], poolTxs, errs => (poolTxs, errs)
  | tx :: txs, poolTxs, errs =>
    if tx.shardID ≠ tx.toShardID then sortByShard txs poolTxs (errs ++ [some .crossShard])
    else sortByShard txs (GoMap.appendTo poolTxs tx.shardID tx) errs

/-- The second loop (bnz/backend.go:284-292). -/
def addToPools (poolTxs : GoMap UInt64 (List Transaction)) :
    List UInt64 → Additions → Option Additions
  | [], acc => some acc
  | s :: shards, acc => do
    let pool ← acc.backend.txPool.lookup s
    let r ← pool.addLocals C (ord s) (now s) (GoMap.group poolTxs s)
    addToPools poolTxs shards (acc.append s r)

/-- `addPendingTransactions` (bnz/backend.go:273-294). -/
def addPendingTransactions (newTxs : List Transaction) : Option Additions :=
  let r := sortByShard newTxs ∅ []
  addToPools C ord now r.1 b.shardID { backend := b, errs := r.2, promotions := [] }

/-- What `tryBroadcast` (bnz/backend.go:298-311) hands to the host. -/
def tryBroadcast (tx : Transaction) : Broadcast := ⟨tx.shardID, tx⟩

/-- `AddPendingTransaction` (bnz/backend.go:250-270), and `SendTx` (bnz/api_backend.go:192-194). -/
def addPendingTransaction (newTx : Transaction) :
    Option (Backend × Option SubmitError × List Broadcast) :=
  if newTx.shardID ∈ b.shardID then do
    let r ← b.addPendingTransactions C ord now [newTx]
    match r.errs.findSome? id with
    | some err => some (r.backend, some err, [])
    | none => some (r.backend, none, [tryBroadcast newTx])
  else some (b, some .shardMismatch, [])

/-- The end of `SubmitTransaction` (internal/bnzapi/api.go:652-663): the sender of a contract
    creation is recovered for the log. -/
def submitted (tx : Transaction) : Except SubmitError Hash :=
  match tx.recipient with
  | some _ => .ok (C.txHash tx)
  | none =>
    match C.sender makeSigner tx with
    | .error err => .error (.sender err)
    | .ok _ => .ok (C.txHash tx)

/-- `SubmitTransaction` (internal/bnzapi/api.go:643-664). -/
def submitTransaction (tx : Transaction) : Option Submission := do
  let r ← b.addPendingTransaction C ord now tx
  match r.2.1 with
  | some err => some ⟨r.1, r.2.2, .error err⟩
  | none => some ⟨r.1, r.2.2, submitted C tx⟩

/-! ## The groups -/

/-- The transactions that go to the pool of a shard. -/
def shardTxs (txs : List Transaction) (s : UInt64) : List Transaction :=
  (txs.filter fun tx => decide (tx.shardID = tx.toShardID)).filter
    fun tx => decide (tx.shardID = s)

/-- The transactions that go to no pool. -/
def crossTxs (txs : List Transaction) : List Transaction :=
  txs.filter fun tx => !decide (tx.shardID = tx.toShardID)

/-- What the pool of a shard makes of its group. -/
def added (txs : List Transaction) (s : UInt64) :
    Option (TxPool × List (Option TxError) × Option AccountSet) := do
  let pool ← b.txPool.lookup s
  pool.addLocals C (ord s) (now s) (shardTxs txs s)

/-- The results of a group. -/
def groupErrs (txs : List Transaction) (s : UInt64) : List (Option SubmitError) :=
  ((b.added C ord now txs s).map fun r => r.2.1.map (Option.map .pool)).getD []

/-- The results in the order in which the transactions are processed. -/
def processed (txs : List Transaction) : List (Option SubmitError) :=
  (crossTxs txs).map (fun _ => some .crossShard) ++ b.shardID.flatMap (b.groupErrs C ord now txs)

/-- The pool of a shard has a transaction of this hash. -/
def Holds (s : UInt64) (tx : Transaction) : Prop :=
  ∃ pool, b.txPool.lookup s = some pool ∧ (pool.all.get (C.txHash tx)).isSome

variable {C ord now b} {txs : List Transaction} {s : UInt64}

theorem lookup_setPool (h : s ∈ b.shardID) (pool : TxPool) (s' : UInt64) :
    (b.setPool s pool).txPool.lookup s' = if s' = s then some pool else b.txPool.lookup s' := by
  rw [setPool, dif_pos h, GoMap.lookup_insert_eq]

theorem setPool_shardID (s : UInt64) (pool : TxPool) :
    (b.setPool s pool).shardID = b.shardID := by
  unfold setPool
  split_ifs
  · rfl
  · rfl

theorem sortByShard_snd (txs : List Transaction) (poolTxs : GoMap UInt64 (List Transaction))
    (errs : List (Option SubmitError)) :
    (sortByShard txs poolTxs errs).2 =
      errs ++ (crossTxs txs).map fun _ => some SubmitError.crossShard := by
  induction txs generalizing poolTxs errs with
  | nil => simp [sortByShard, crossTxs]
  | cons tx txs ih =>
    by_cases htx : tx.shardID = tx.toShardID
    · simp only [sortByShard, htx, ne_eq, not_true_eq_false, if_false, ih]
      simp [crossTxs, htx]
    · simp only [sortByShard, htx, ne_eq, not_false_eq_true, if_true, ih]
      simp [crossTxs, htx]

theorem group_sortByShard (txs : List Transaction) (poolTxs : GoMap UInt64 (List Transaction))
    (errs : List (Option SubmitError)) (s : UInt64) :
    GoMap.group (sortByShard txs poolTxs errs).1 s = GoMap.group poolTxs s ++ shardTxs txs s := by
  induction txs generalizing poolTxs errs with
  | nil => simp [sortByShard, shardTxs]
  | cons tx txs ih =>
    by_cases htx : tx.shardID = tx.toShardID
    · simp only [sortByShard, htx, ne_eq, not_true_eq_false, if_false, ih, GoMap.group_appendTo]
      by_cases hs : tx.toShardID = s
      · simp [shardTxs, htx, hs]
      · simp [shardTxs, htx, hs]
    · simp only [sortByShard, htx, ne_eq, not_false_eq_true, if_true, ih]
      simp [shardTxs, htx]

/-! ## The results -/

variable {r : TxPool × List (Option TxError) × Option AccountSet} {shards : List UInt64}
  {acc : Additions}

theorem length_of_added (h : b.added C ord now txs s = some r) :
    r.2.1.length = (shardTxs txs s).length := by
  obtain ⟨pool, -, hr⟩ := Option.bind_eq_some_iff.1 h
  exact TxPool.length_addTxs hr

theorem groupErrs_of_added (h : b.added C ord now txs s = some r) :
    b.groupErrs C ord now txs s = r.2.1.map (Option.map .pool) := by
  rw [groupErrs, h, Option.map_some, Option.getD_some]

/-- The second loop has come to `acc`: the pools of the shards that remain are those of `b`. -/
structure Pending (b : Backend) (shards : List UInt64) (acc : Additions) : Prop where
  nodup : shards.Nodup
  served : ∀ s ∈ shards, s ∈ b.shardID
  shardID : acc.backend.shardID = b.shardID
  txPool : ∀ s ∈ shards, acc.backend.txPool.lookup s = b.txPool.lookup s

theorem Pending.lookup_append (h : Pending b (s :: shards) acc)
    (r : TxPool × List (Option TxError) × Option AccountSet) (s' : UInt64) :
    (acc.append s r).backend.txPool.lookup s' =
      if s' = s then some r.1 else acc.backend.txPool.lookup s' := by
  refine lookup_setPool ?_ r.1 s'
  rw [h.shardID]
  exact h.served s List.mem_cons_self

theorem Pending.append (h : Pending b (s :: shards) acc)
    (r : TxPool × List (Option TxError) × Option AccountSet) :
    Pending b shards (acc.append s r) where
  nodup := h.nodup.of_cons
  served := fun s' hs' => h.served s' (List.mem_cons_of_mem _ hs')
  shardID := (setPool_shardID s r.1).trans h.shardID
  txPool := by
    intro s' hs'
    have hne : s' ≠ s := by
      rintro rfl
      exact (List.nodup_cons.1 h.nodup).1 hs'
    rw [h.lookup_append, if_neg hne]
    exact h.txPool s' (List.mem_cons_of_mem _ hs')

variable {poolTxs : GoMap UInt64 (List Transaction)}

theorem Pending.addToPools_cons (h : Pending b (s :: shards) acc)
    (hgroup : GoMap.group poolTxs s = shardTxs txs s) :
    addToPools C ord now poolTxs (s :: shards) acc =
      (b.added C ord now txs s).bind fun r =>
        addToPools C ord now poolTxs shards (acc.append s r) := by
  simp only [addToPools, added, hgroup, h.txPool s List.mem_cons_self, Option.bind_eq_bind,
    Option.bind_assoc]

theorem Pending.isSome_addToPools (h : Pending b shards acc)
    (hgroup : ∀ s, GoMap.group poolTxs s = shardTxs txs s) :
    (addToPools C ord now poolTxs shards acc).isSome ↔
      ∀ s ∈ shards, (b.added C ord now txs s).isSome := by
  induction shards generalizing acc with
  | nil => simp [addToPools]
  | cons s shards ih =>
    rw [h.addToPools_cons (hgroup s)]
    cases hadd : b.added C ord now txs s with
    | none => simp [hadd]
    | some r =>
      rw [Option.bind_some, ih (h.append r)]
      simp [hadd]

/-- What the second loop leaves and returns. -/
theorem Pending.addToPools_spec {acc' : Additions} (h : Pending b shards acc)
    (hgroup : ∀ s, GoMap.group poolTxs s = shardTxs txs s)
    (hr : addToPools C ord now poolTxs shards acc = some acc') :
    acc'.errs = acc.errs ++ shards.flatMap (b.groupErrs C ord now txs) ∧
      ∀ s, acc'.backend.txPool.lookup s =
        if s ∈ shards then (b.added C ord now txs s).map Prod.fst
        else acc.backend.txPool.lookup s := by
  induction shards generalizing acc with
  | nil =>
    obtain rfl := Option.some.inj hr
    simp
  | cons s shards ih =>
    rw [h.addToPools_cons (hgroup s)] at hr
    obtain ⟨r, hadd, hr⟩ := Option.bind_eq_some_iff.1 hr
    obtain ⟨herrs, hpools⟩ := ih (h.append r) hr
    constructor
    · rw [herrs, List.flatMap_cons, groupErrs_of_added hadd, ← List.append_assoc]
      rfl
    · intro s'
      rw [hpools s', h.lookup_append]
      by_cases hs' : s' = s
      · subst hs'
        simp [(List.nodup_cons.1 h.nodup).1, hadd]
      · simp [hs']

theorem pending_start (b : Backend) (errs : List (Option SubmitError)) :
    Pending b b.shardID { backend := b, errs := errs, promotions := [] } :=
  ⟨b.nodup, fun _ => id, rfl, fun _ _ => rfl⟩

theorem group_sorted (txs : List Transaction) (s : UInt64) :
    GoMap.group (sortByShard txs ∅ []).1 s = shardTxs txs s := by
  rw [group_sortByShard, GoMap.group_empty, List.nil_append]

theorem isSome_addPendingTransactions :
    (b.addPendingTransactions C ord now txs).isSome ↔
      ∀ s ∈ b.shardID, (b.added C ord now txs s).isSome :=
  (pending_start b _).isSome_addToPools (group_sorted txs)

/-- The results of `addPendingTransactions`, and the pools when the additions are done. -/
theorem addPendingTransactions_spec {r : Additions}
    (hr : b.addPendingTransactions C ord now txs = some r) :
    r.errs = b.processed C ord now txs ∧
      ∀ s, r.backend.txPool.lookup s = (b.added C ord now txs s).map Prod.fst := by
  obtain ⟨herrs, hpools⟩ := (pending_start b _).addToPools_spec (group_sorted txs) hr
  refine ⟨by rw [herrs, sortByShard_snd, processed, List.nil_append], fun s => ?_⟩
  rw [hpools s]
  split_ifs with hs
  · rfl
  · -- the node has no pool of a shard it does not serve
    have hnone : b.txPool.lookup s = none := by
      rw [← Option.not_isSome_iff_eq_none, b.served_iff]
      exact hs
    simp [added, hnone]

/-! ## One result per transaction -/

/-- The call returns one result per transaction, in the order of the list; a transaction with no
    error is in the pool of its shard when the additions are done, and one that is in no pool has
    an error. -/
def ReportsInPlace (C : Crypto) (ord : UInt64 → RangeOrder) (now : UInt64 → ℤ) (b : Backend)
    (txs : List Transaction) : Prop :=
  ∃ r, b.addPendingTransactions C ord now txs = some r ∧ r.errs.length = txs.length ∧
    (∀ (i : ℕ) (tx : Transaction), txs[i]? = some tx → r.errs[i]? = some none →
      r.backend.Holds C tx.shardID tx) ∧
    ∀ (i : ℕ) (tx : Transaction), txs[i]? = some tx → (∀ s, ¬ r.backend.Holds C s tx) →
      ∃ err, r.errs[i]? = some (some err)

/-- The transactions that are processed are those of the list, but for the ones of shards that
    are not served. -/
theorem length_processed_iff (h : ∀ s ∈ b.shardID, (b.added C ord now txs s).isSome) :
    (b.processed C ord now txs).length = txs.length ↔
      ∀ tx ∈ txs, tx.shardID = tx.toShardID → tx.shardID ∈ b.shardID := by
  have hgroups : (b.shardID.flatMap (b.groupErrs C ord now txs)).length =
      (b.shardID.flatMap (shardTxs txs)).length := by
    rw [List.length_flatMap, List.length_flatMap]
    refine congrArg _ (List.map_congr_left fun s hs => ?_)
    obtain ⟨r, hr⟩ := Option.isSome_iff_exists.1 (h s hs)
    rw [groupErrs_of_added hr, List.length_map, length_of_added hr]
  have hserved := (flatMap_filter_perm Transaction.shardID b.nodup
    (txs.filter fun tx => decide (tx.shardID = tx.toShardID))).length_eq
  have hall := (List.filter_append_perm (fun tx : Transaction =>
    decide (tx.shardID = tx.toShardID)) txs).length_eq
  have hlength : (b.processed C ord now txs).length = txs.length ↔
      ((txs.filter fun tx => decide (tx.shardID = tx.toShardID)).filter
        fun tx => decide (tx.shardID ∈ b.shardID)).length =
      (txs.filter fun tx => decide (tx.shardID = tx.toShardID)).length := by
    rw [List.length_append] at hall
    rw [processed, List.length_append, List.length_map, hgroups, ← hserved]
    unfold crossTxs shardTxs
    omega
  rw [hlength, List.length_filter_eq_length_iff]
  simp

/-- The turns of the pool of a shard. -/
def shardTurns (C : Crypto) (ord : UInt64 → RangeOrder) (now : UInt64 → ℤ) (b : Backend)
    (txs : List Transaction) (s : UInt64) : List (Option (TxPool × Transaction)) :=
  ((b.txPool.lookup s).map fun pool => TxPool.turns C (ord s) (now s) (!pool.config.noLocals) pool
    pool (shardTxs txs s)).getD []

/-- The pools of a shard take its transactions as local ones. -/
def takesLocals (b : Backend) (s : UInt64) : Bool :=
  ((b.txPool.lookup s).map fun pool => !pool.config.noLocals).getD false

/-- In the order of processing, first the cross-shard transactions and then shard by shard, whether
    a transaction is admitted at its turn. -/
def admissions (C : Crypto) (ord : UInt64 → RangeOrder) (now : UInt64 → ℤ) (b : Backend)
    (txs : List Transaction) : List Prop :=
  (crossTxs txs).map (fun _ => False) ++ b.shardID.flatMap fun s =>
    (b.shardTurns C ord now txs s).map (TxPool.AdmitsAt C (b.takesLocals s))

/-- The pool of its shard has the transaction after the turns: it was there before, or is admitted
    at its turn, and no later turn displaces it. -/
def Stays (C : Crypto) (ord : UInt64 → RangeOrder) (now : UInt64 → ℤ) (b : Backend)
    (txs : List Transaction) (tx : Transaction) : Prop :=
  ∃ pool, b.txPool.lookup tx.shardID = some pool ∧
    TxPool.Remains C (b.takesLocals tx.shardID) (C.txHash tx) pool
      (b.shardTurns C ord now txs tx.shardID)

/-- When `addPendingTransactions` reports in place. -/
structure InPlace (C : Crypto) (ord : UInt64 → RangeOrder) (now : UInt64 → ℤ) (b : Backend)
    (txs : List Transaction) : Prop where
  /-- No turn overdraws the heap of a pool. -/
  safe : ∀ s ∈ b.shardID, ∀ t, some t ∈ b.shardTurns C ord now txs s →
    ¬ t.1.Overdrawn C t.2 (b.takesLocals s)
  /-- A transaction within one shard is of a served one. -/
  served : ∀ tx ∈ txs, tx.shardID = tx.toShardID → tx.shardID ∈ b.shardID
  /-- Where the transaction processed at a position is admitted, that of the list stays. -/
  stays : ∀ (i : ℕ) (tx : Transaction) (admitted : Prop), txs[i]? = some tx →
    (b.admissions C ord now txs)[i]? = some admitted → admitted → b.Stays C ord now txs tx

/-- The pools keep their structure, and all transactions take slots. -/
structure Regular (C : Crypto) (b : Backend) (txs : List Transaction) : Prop where
  good : ∀ s pool, b.txPool.lookup s = some pool → TxPool.Good C pool
  pooled : ∀ s pool k t, b.txPool.lookup s = some pool → pool.all.get k = some t → 0 < numSlots t
  batch : ∀ tx ∈ txs, 0 < numSlots tx

section Regular

variable {pool : TxPool} (h : Regular C b txs) (hlookup : b.txPool.lookup s = some pool)

include hlookup

theorem shardTurns_eq : b.shardTurns C ord now txs s =
    TxPool.turns C (ord s) (now s) (!pool.config.noLocals) pool pool (shardTxs txs s) := by
  rw [shardTurns, hlookup, Option.map_some, Option.getD_some]

theorem takesLocals_eq : b.takesLocals s = !pool.config.noLocals := by
  rw [takesLocals, hlookup, Option.map_some, Option.getD_some]

theorem outcomes_of_added (hr : b.added C ord now txs s = some r) :
    TxPool.outcomes C (ord s) (now s) (!pool.config.noLocals) pool pool (shardTxs txs s) =
      some (r.1, r.2.1) := by
  obtain ⟨pool', hlookup', hr⟩ := Option.bind_eq_some_iff.1 hr
  obtain rfl := Option.some.inj (hlookup.symm.trans hlookup')
  exact TxPool.outcomes_of_addTxs hr

include h

theorem isSome_added_iff : (b.added C ord now txs s).isSome ↔
    ∀ t, some t ∈ b.shardTurns C ord now txs s → ¬ t.1.Overdrawn C t.2 (b.takesLocals s) := by
  have hslots : ∀ tx ∈ shardTxs txs s, 0 < numSlots tx := fun tx htx =>
    h.batch tx (List.mem_of_mem_filter (List.mem_of_mem_filter htx))
  have hadded : b.added C ord now txs s =
      pool.addTxs C (ord s) (now s) (shardTxs txs s) !pool.config.noLocals := by
    rw [added, hlookup]
    rfl
  rw [shardTurns_eq hlookup, takesLocals_eq hlookup, hadded,
    ← TxPool.outcomes_ne_none_iff (h.good s pool hlookup)
      (fun hk => h.pooled s pool _ _ hlookup hk) hslots, ← TxPool.addTxs_outcomes]
  simp [Option.isSome_iff_ne_none]

theorem group_admissions (hr : b.added C ord now txs s = some r) :
    List.Forall₂ (fun err admitted => err = none ↔ admitted)
      (b.groupErrs C ord now txs s)
      ((b.shardTurns C ord now txs s).map (TxPool.AdmitsAt C (b.takesLocals s))) := by
  rw [groupErrs_of_added hr, shardTurns_eq hlookup, takesLocals_eq hlookup,
    List.forall₂_map_left_iff, List.forall₂_map_right_iff]
  have hturns := (TxPool.outcomes_turns (k := zeroBytes 32) (h.good s pool hlookup)
    (outcomes_of_added hlookup hr)).1
  exact hturns.imp fun err turn hiff => by rw [Option.map_eq_none_iff, hiff]

end Regular

/-- The results of a call are those of the turns. -/
theorem errs_admissions (h : Regular C b txs) {r : Additions}
    (hr : b.addPendingTransactions C ord now txs = some r) :
    List.Forall₂ (fun err admitted => err = none ↔ admitted) r.errs
      (b.admissions C ord now txs) := by
  have hreturns := isSome_addPendingTransactions.1 (Option.isSome_iff_exists.2 ⟨r, hr⟩)
  rw [(addPendingTransactions_spec hr).1, processed, admissions]
  refine List.rel_append ?_ (forall₂_flatMap fun s hs => ?_)
  · rw [List.forall₂_map_left_iff, List.forall₂_map_right_iff]
    exact List.forall₂_same.2 fun tx _ => by simp
  · obtain ⟨pool, hlookup⟩ := Option.isSome_iff_exists.1 ((b.served_iff s).2 hs)
    obtain ⟨ra, hadded⟩ := Option.isSome_iff_exists.1 (hreturns s hs)
    exact group_admissions h hlookup hadded

/-- A slot without an error is one of an admission. -/
theorem getElem?_errs {errs : List (Option SubmitError)} {admissions : List Prop}
    (h : List.Forall₂ (fun err admitted => err = none ↔ admitted) errs admissions) (i : ℕ) :
    errs[i]? = some none ↔ ∃ admitted, admissions[i]? = some admitted ∧ admitted := by
  induction h generalizing i with
  | nil => simp
  | cons hhead _ ih =>
    cases i with
    | zero =>
      refine ⟨fun herr => ⟨_, rfl, hhead.1 (Option.some.inj herr)⟩, ?_⟩
      rintro ⟨admitted, hp, hadmitted⟩
      exact congrArg some (hhead.2 (Option.some.inj hp ▸ hadmitted))
    | succ i => exact ih i

/-- The pools of a call have what stays after the turns. -/
theorem holds_iff_stays (h : Regular C b txs) {r : Additions}
    (hr : b.addPendingTransactions C ord now txs = some r) (tx : Transaction) :
    r.backend.Holds C tx.shardID tx ↔ b.Stays C ord now txs tx := by
  have hreturns := isSome_addPendingTransactions.1 (Option.isSome_iff_exists.2 ⟨r, hr⟩)
  simp only [Holds, Stays, (addPendingTransactions_spec hr).2, Option.map_eq_some_iff]
  have hremains : ∀ {pool ra}, b.txPool.lookup tx.shardID = some pool →
      b.added C ord now txs tx.shardID = some ra →
      ((ra.1.all.get (C.txHash tx)).isSome ↔ TxPool.Remains C (b.takesLocals tx.shardID)
        (C.txHash tx) pool (b.shardTurns C ord now txs tx.shardID)) := by
    intro pool ra hlookup hadded
    rw [shardTurns_eq hlookup, takesLocals_eq hlookup]
    exact (TxPool.outcomes_turns (h.good _ pool hlookup) (outcomes_of_added hlookup hadded)).2
  constructor
  · rintro ⟨pool', ⟨ra, hadded, rfl⟩, hget⟩
    obtain ⟨pool, hlookup, -⟩ := Option.bind_eq_some_iff.1 hadded
    exact ⟨pool, hlookup, (hremains hlookup hadded).1 hget⟩
  · rintro ⟨pool, hlookup, hstays⟩
    have hs : tx.shardID ∈ b.shardID := (b.served_iff _).1 (by rw [hlookup]; rfl)
    obtain ⟨ra, hadded⟩ := Option.isSome_iff_exists.1 (hreturns _ hs)
    exact ⟨ra.1, ⟨ra, hadded, rfl⟩, (hremains hlookup hadded).2 hstays⟩

end Backend

namespace Concrete

open Backend

/-- A node that serves shard 0. -/
def soleShard : Backend where
  shardID := [0]
  txPool := (∅ : GoMap UInt64 TxPool).insert 0 freshPool
  nodup := by simp
  served_iff := by
    intro s
    rw [GoMap.lookup_insert_eq]
    split_ifs with hs
    · simp [hs]
    · simp [hs]

/-- A transfer within shard 1. -/
def strayPay : Transaction := { pay 7 0 5 with shardID := 1, toShardID := 1 }

/-- A transfer from shard 0 to shard 1. -/
def crossPay : Transaction := { pay 7 0 5 with toShardID := 1 }

/-- What the node makes of some transactions. -/
def additions (txs : List Transaction) : Option Additions :=
  soleShard.addPendingTransactions crypto (fun _ => rangeOrder) (fun _ => 0) txs

/-- A cross-shard transfer and a transfer after it. -/
def orderedBatch : List Transaction := [crossPay, pay 7 0 5]

theorem soleShard_lookup {s : UInt64} {pool : TxPool}
    (h : soleShard.txPool.lookup s = some pool) : s = 0 ∧ pool = freshPool := by
  have hlookup : soleShard.txPool = (∅ : GoMap UInt64 TxPool).insert 0 freshPool := rfl
  rw [hlookup, GoMap.lookup_insert_eq] at h
  split_ifs at h with hs
  · exact ⟨hs, (Option.some.inj h).symm⟩
  · cases h

theorem regular_soleShard : Regular crypto soleShard orderedBatch where
  good s pool hlookup := by
    obtain ⟨-, rfl⟩ := soleShard_lookup hlookup
    exact TxPool.newTxPool_good _ _
  pooled s pool k t hlookup hk := by
    obtain ⟨-, rfl⟩ := soleShard_lookup hlookup
    cases hk
  batch := by decide +kernel

theorem soleShard_turns : soleShard.shardTurns crypto (fun _ => rangeOrder) (fun _ => 0)
    orderedBatch 0 = [some (freshPool, pay 7 0 5)] := by
  have hlookup : soleShard.txPool.lookup 0 = some freshPool := rfl
  have hgroup : shardTxs orderedBatch 0 = [pay 7 0 5] := by decide +kernel
  have hknown : freshPool.knownOrInvalid crypto (pay 7 0 5) = none := by decide +kernel
  rw [shardTurns_eq hlookup, hgroup, TxPool.turns, hknown]
  cases freshPool.add crypto rangeOrder 0 (pay 7 0 5) !freshPool.config.noLocals <;> rfl

theorem freshPool_admits : freshPool.Admits crypto (pay 7 0 5) true where
  new := rfl
  valid := by decide +kernel
  quoted := by decide +kernel
  bumps old hold := by
    have hpooled : freshPool.all.get (crypto.txHash old) = none := rfl
    rw [hold.pooled] at hpooled
    cases hpooled

end Concrete

end Benzene
