import Benzene.Bnz.Backend
import Benzene.Core.SenderAgreement

/-!
# Atomic submission

`SubmitTransaction` adds a transaction to its pool and broadcasts it, and after that recovers the
sender of a contract creation with the signer of `MakeSigner`, whose chain ID is not the pool's.
`submit_atomic_iff`: a call is atomic unless it is for a contract creation that the pool accepts
and that is replay protected (or the pool panics on the transaction).
-/

namespace Benzene

namespace Backend

variable {C : Crypto} {ord : UInt64 → RangeOrder} {now : UInt64 → ℤ} {b : Backend}
  {tx : Transaction} {s : UInt64}

/-! ## A single transaction -/

theorem shardTxs_single (h : tx.shardID = tx.toShardID) : shardTxs [tx] tx.shardID = [tx] := by
  simp [shardTxs, h]

section

variable (h : ¬ (tx.shardID = tx.toShardID ∧ tx.shardID = s))

include h

theorem shardTxs_single_of_ne : shardTxs [tx] s = [] := by
  by_cases htx : tx.shardID = tx.toShardID
  · have hs : tx.toShardID ≠ s := fun hs => h ⟨htx, htx.trans hs⟩
    simp [shardTxs, htx, hs]
  · simp [shardTxs, htx]

/-- A pool that gets no transaction is left alone. -/
theorem added_of_ne :
    b.added C ord now [tx] s = (b.txPool.lookup s).map fun pool => (pool, [], none) := by
  simp only [added, shardTxs_single_of_ne h]
  cases b.txPool.lookup s with
  | none => rfl
  | some pool => rfl

theorem groupErrs_of_ne : b.groupErrs C ord now [tx] s = [] := by
  rw [groupErrs, added_of_ne h]
  cases b.txPool.lookup s with
  | none => rfl
  | some pool => rfl

end

theorem processed_cross (h : tx.shardID ≠ tx.toShardID) :
    b.processed C ord now [tx] = [some .crossShard] := by
  have hgroups : b.shardID.flatMap (b.groupErrs C ord now [tx]) = [] :=
    List.flatMap_eq_nil_iff.2 fun s _ => groupErrs_of_ne fun hs => h hs.1
  rw [processed, hgroups]
  simp [crossTxs, h]

theorem processed_single (h : tx.shardID = tx.toShardID) (hserved : tx.shardID ∈ b.shardID) :
    b.processed C ord now [tx] = b.groupErrs C ord now [tx] tx.shardID := by
  have hgroups : b.shardID.flatMap (b.groupErrs C ord now [tx]) =
      b.groupErrs C ord now [tx] tx.shardID :=
    flatMap_eq_of_unique b.nodup hserved fun s _ hs => groupErrs_of_ne fun hboth =>
      hs hboth.2.symm
  rw [processed, hgroups]
  simp [crossTxs, h]

theorem isSome_single (hserved : tx.shardID ∈ b.shardID) :
    (b.addPendingTransactions C ord now [tx]).isSome ↔
      (b.added C ord now [tx] tx.shardID).isSome := by
  rw [isSome_addPendingTransactions]
  constructor
  · exact fun h => h _ hserved
  · intro h s hs
    by_cases hown : tx.shardID = tx.toShardID ∧ tx.shardID = s
    · exact hown.2 ▸ h
    · rw [added_of_ne hown, Option.isSome_map]
      exact (b.served_iff s).2 hs

/-! ## Atomic submission -/

/-- Every pool of the node has been filled by its own operations. -/
def Reachable (C : Crypto) (b : Backend) : Prop :=
  ∀ s pool, b.txPool.lookup s = some pool → ∃ config statedb events,
    TxPool.runEvents C (newTxPool config statedb) events = some pool

/-- The pool of its shard accepts the transaction. -/
def Accepts (C : Crypto) (ord : UInt64 → RangeOrder) (now : UInt64 → ℤ) (b : Backend)
    (tx : Transaction) : Prop :=
  tx.shardID = tx.toShardID ∧
    ∃ r, b.added C ord now [tx] tx.shardID = some r ∧ r.2.1 = [none]

/-- A submission that fails has neither added nor sent the transaction; one that returns a hash
    has had the transaction of that hash accepted. -/
structure Atomic (C : Crypto) (ord : UInt64 → RangeOrder) (now : UInt64 → ℤ) (b : Backend)
    (tx : Transaction) (r : Submission) : Prop where
  rejected : ∀ err, r.result = .error err →
    r.broadcasts = [] ∧ ∀ s, r.backend.Holds C s tx → b.Holds C s tx
  accepted : ∀ hash, r.result = .ok hash →
    hash = C.txHash tx ∧ b.Accepts C ord now tx ∧ r.backend.Holds C tx.shardID tx

theorem Accepts.sender (h : b.Accepts C ord now tx) :
    ∃ addr, C.sender poolSigner tx = .ok addr := by
  obtain ⟨hshard, ⟨pool', errs, dirty⟩, hadd, herrs⟩ := h
  obtain ⟨pool, -, hadd⟩ := Option.bind_eq_some_iff.1 hadd
  rw [shardTxs_single hshard] at hadd
  obtain rfl : errs = [none] := herrs
  exact TxPool.sender_of_addTxs (i := 0) hadd rfl rfl

/-- What the pool of its shard makes of a transaction. -/
theorem added_single (hreach : b.Reachable C) (hshard : tx.shardID = tx.toShardID)
    {r : TxPool × List (Option TxError) × Option AccountSet}
    (hr : b.added C ord now [tx] tx.shardID = some r) :
    r.2.1 = [none] ∧ r.1.all.get (C.txHash tx) = some tx ∨
      ∃ err, r.2.1 = [some err] ∧
        ((r.1.all.get (C.txHash tx)).isSome → b.Holds C tx.shardID tx) := by
  obtain ⟨pool, hpool, hadd⟩ := Option.bind_eq_some_iff.1 hr
  rw [shardTxs_single hshard] at hadd
  obtain ⟨config, statedb, events, hrun⟩ := hreach _ _ hpool
  rcases TxPool.addTxs_single (TxPool.runEvents_good hrun).1 hadd with hok | ⟨err, herrs, hnone⟩
  · exact Or.inl hok
  · refine Or.inr ⟨err, herrs, fun hget => ⟨pool, hpool, ?_⟩⟩
    by_contra habsent
    rw [hnone _ (Option.not_isSome_iff_eq_none.1 habsent)] at hget
    exact absurd hget (by simp)

/-- A pool that does not get the transaction has it only if it had it before. -/
theorem holds_of_ne {r : Additions} (hr : b.addPendingTransactions C ord now [tx] = some r)
    (hne : ¬ (tx.shardID = tx.toShardID ∧ tx.shardID = s)) (h : r.backend.Holds C s tx) :
    b.Holds C s tx := by
  obtain ⟨pool, hpool, hget⟩ := h
  rw [(addPendingTransactions_spec hr).2, added_of_ne hne, Option.map_map] at hpool
  obtain ⟨pool₀, hpool₀, rfl⟩ := Option.map_eq_some_iff.1 hpool
  exact ⟨pool₀, hpool₀, hget⟩

/-- The outcomes of `AddPendingTransaction`: accepted and sent, or neither. -/
theorem addPendingTransaction_cases (hreach : b.Reachable C)
    {r : Backend × Option SubmitError × List Broadcast}
    (hr : b.addPendingTransaction C ord now tx = some r) :
    (r.2.1 = none ∧ r.2.2 = [tryBroadcast tx] ∧ b.Accepts C ord now tx ∧
        r.1.Holds C tx.shardID tx) ∨
      ∃ err, r.2.1 = some err ∧ r.2.2 = [] ∧ ¬ b.Accepts C ord now tx ∧
        ∀ s, r.1.Holds C s tx → b.Holds C s tx := by
  unfold addPendingTransaction at hr
  split_ifs at hr with hserved
  · obtain ⟨adds, hadds, hr⟩ := Option.bind_eq_some_iff.1 hr
    obtain ⟨herrs, hpools⟩ := addPendingTransactions_spec hadds
    by_cases hshard : tx.shardID = tx.toShardID
    · obtain ⟨a, ha⟩ := Option.isSome_iff_exists.1
        ((isSome_single hserved).1 (Option.isSome_iff_exists.2 ⟨adds, hadds⟩))
      rw [processed_single hshard hserved, groupErrs_of_added ha] at herrs
      rcases added_single hreach hshard ha with ⟨hok, hget⟩ | ⟨err, herr, hkeeps⟩
      · simp only [herrs, hok, List.map_cons, List.map_nil, Option.map_none,
          List.findSome?_cons, List.findSome?_nil, id_eq] at hr
        obtain rfl := Option.some.inj hr
        refine Or.inl ⟨rfl, rfl, ⟨hshard, a, ha, hok⟩, a.1, ?_, by rw [hget]; rfl⟩
        rw [hpools, ha]
        rfl
      · simp only [herrs, herr, List.map_cons, List.map_nil, Option.map_some,
          List.findSome?_cons, id_eq] at hr
        obtain rfl := Option.some.inj hr
        refine Or.inr ⟨_, rfl, rfl, ?_, ?_⟩
        · rintro ⟨-, a', ha', hok⟩
          obtain rfl := Option.some.inj (ha.symm.trans ha')
          rw [herr] at hok
          cases hok
        · intro s hholds
          by_cases hown : tx.shardID = s
          · subst hown
            obtain ⟨pool, hpool, hget⟩ := hholds
            rw [hpools, ha] at hpool
            obtain rfl := Option.some.inj hpool
            exact hkeeps hget
          · exact holds_of_ne hadds (fun h => hown h.2) hholds
    · rw [processed_cross hshard] at herrs
      simp only [herrs, List.findSome?_cons, id_eq] at hr
      obtain rfl := Option.some.inj hr
      exact Or.inr ⟨_, rfl, rfl, fun h => hshard h.1,
        fun s => holds_of_ne hadds fun h => hshard h.1⟩
  · obtain rfl := Option.some.inj hr
    refine Or.inr ⟨_, rfl, rfl, ?_, fun s => id⟩
    rintro ⟨-, a, ha, -⟩
    obtain ⟨pool, hpool, -⟩ := Option.bind_eq_some_iff.1 ha
    exact hserved ((b.served_iff _).1 (Option.isSome_iff_exists.2 ⟨pool, hpool⟩))

theorem isSome_addPendingTransaction :
    (b.addPendingTransaction C ord now tx).isSome ↔
      (tx.shardID ∈ b.shardID → (b.added C ord now [tx] tx.shardID).isSome) := by
  unfold addPendingTransaction
  split_ifs with hserved
  · rw [← isSome_single hserved]
    cases hadds : b.addPendingTransactions C ord now [tx] with
    | none => simp [hserved]
    | some adds =>
      cases hfirst : adds.errs.findSome? id with
      | none => simp [hfirst]
      | some err => simp [hfirst]
  · simp [hserved]

/-- The sender of an accepted contract creation is found again exactly when the transaction is
    not protected. -/
theorem submitted_ok_iff (h : b.Accepts C ord now tx) :
    submitted C tx = .ok (C.txHash tx) ↔ ¬ (tx.recipient = none ∧ tx.isProtected = true) := by
  obtain ⟨addr, hsender⟩ := h.sender
  unfold submitted
  cases hto : tx.recipient with
  | some recipient => simp
  | none =>
    cases hprot : tx.isProtected with
    | false =>
      have hmake : C.sender makeSigner tx = .ok addr :=
        (C.sender_of_unprotected hprot _).trans
          ((C.sender_of_unprotected hprot _).symm.trans hsender)
      simp [hmake]
    | true =>
      cases hmake : C.sender makeSigner tx with
      | error err => simp
      | ok addr' =>
        have hone := Crypto.chainID_of_protected hprot hsender
        have hzero := Crypto.chainID_of_protected hprot hmake
        exact absurd (hone.symm.trans hzero) (by decide)

/-- **Atomic submission.** -/
theorem submit_atomic_iff (C : Crypto) (ord : UInt64 → RangeOrder) (now : UInt64 → ℤ)
    (b : Backend) (hreach : b.Reachable C) (tx : Transaction) :
    (∃ r, b.submitTransaction C ord now tx = some r ∧ b.Atomic C ord now tx r) ↔
      (tx.shardID ∈ b.shardID → (b.added C ord now [tx] tx.shardID).isSome) ∧
        ¬ (b.Accepts C ord now tx ∧ tx.recipient = none ∧ tx.isProtected = true) := by
  rw [← isSome_addPendingTransaction]
  constructor
  · rintro ⟨r, hr, hatomic⟩
    obtain ⟨sent, hsent, hr⟩ := Option.bind_eq_some_iff.1 hr
    refine ⟨Option.isSome_iff_exists.2 ⟨sent, hsent⟩, ?_⟩
    rintro ⟨haccepts, hcreation⟩
    rcases addPendingTransaction_cases hreach hsent with ⟨hok, hcast, -, -⟩ | ⟨_, -, -, hnot, -⟩
    · -- the transaction has been sent, and its sender cannot be recovered
      rw [hok] at hr
      obtain rfl := Option.some.inj hr
      cases hresult : submitted C tx with
      | error err =>
        have hsilent := (hatomic.rejected err hresult).1
        rw [hcast] at hsilent
        cases hsilent
      | ok hash =>
        have heq := (hatomic.accepted hash hresult).1
        subst heq
        exact (submitted_ok_iff haccepts).1 hresult hcreation
    · exact hnot haccepts
  · rintro ⟨hsome, hcreation⟩
    obtain ⟨sent, hsent⟩ := Option.isSome_iff_exists.1 hsome
    rcases addPendingTransaction_cases hreach hsent with
      ⟨hok, hcast, haccepts, hholds⟩ | ⟨err, herr, hcast, -, hkeeps⟩
    · have hresult := (submitted_ok_iff haccepts).2 fun h => hcreation ⟨haccepts, h⟩
      refine ⟨⟨sent.1, sent.2.2, submitted C tx⟩, ?_, ?_, ?_⟩
      · simp [submitTransaction, hsent, hok]
      · intro err herr
        rw [hresult] at herr
        cases herr
      · intro hash hhash
        rw [hresult] at hhash
        exact ⟨(Except.ok.inj hhash).symm, haccepts, hholds⟩
    · refine ⟨⟨sent.1, sent.2.2, .error err⟩, ?_, ?_, ?_⟩
      · simp [submitTransaction, hsent, herr]
      · exact fun _ _ => ⟨hcast, hkeeps⟩
      · intro hash hhash
        cases hhash

end Backend

namespace Concrete

open Backend

/-- What `SubmitTransaction` makes of a transaction. -/
def submission (tx : Transaction) : Option Submission :=
  soleShard.submitTransaction crypto (fun _ => rangeOrder) (fun _ => 0) tx

theorem soleShard_reachable : soleShard.Reachable crypto := by
  intro s pool hpool
  rw [soleShard, GoMap.lookup_insert_eq] at hpool
  split_ifs at hpool
  · obtain rfl := Option.some.inj hpool
    exact ⟨defaultTxPoolConfig, uniformState 0 100, [], rfl⟩
  · exact absurd hpool (by simp)

/-- A contract creation signed for the chain ID of the pool. -/
def creation : Transaction := crypto.signTx (transfer 0 0 5) (.eip155 1) (7 : UInt8)

/-- The creation is in the pool and on its way to the other nodes, and the caller gets an
    error. -/
theorem creation_sent_and_refused :
    soleShard.Reachable crypto ∧ creation.recipient = none ∧
      (submission creation).map (fun r => (r.broadcasts, r.result)) =
        some ([tryBroadcast creation], .error (.sender .invalidChainId)) ∧
      ((submission creation).bind fun r => (r.backend.txPool.lookup 0).map fun pool =>
        pool.all.get (crypto.txHash creation)) = some (some creation) ∧
      ¬ ∃ r, submission creation = some r ∧
        soleShard.Atomic crypto (fun _ => rangeOrder) (fun _ => 0) creation r := by
  have hresult : (submission creation).map (fun r => (r.broadcasts, r.result)) =
      some ([tryBroadcast creation], .error (.sender .invalidChainId)) := by decide +kernel
  refine ⟨soleShard_reachable, rfl, hresult, by decide +kernel, ?_⟩
  rintro ⟨r, hr, hatomic⟩
  rw [hr] at hresult
  obtain ⟨hsent, herror⟩ := Prod.mk.inj (Option.some.inj hresult)
  have hsilent := (hatomic.rejected _ herror).1
  rw [hsent] at hsilent
  cases hsilent

/-- A transfer to an account, signed for the chain ID of the pool. -/
def accountPay : Transaction :=
  crypto.signTx { transfer 0 0 5 with recipient := some (zeroBytes 20) } (.eip155 1) (7 : UInt8)

theorem accountPay_atomic :
    soleShard.Reachable crypto ∧
      (submission accountPay).map Submission.result = some (.ok (crypto.txHash accountPay)) ∧
      ∃ r, submission accountPay = some r ∧
        soleShard.Atomic crypto (fun _ => rangeOrder) (fun _ => 0) accountPay r := by
  refine ⟨soleShard_reachable, by decide +kernel, ?_⟩
  refine (submit_atomic_iff crypto (fun _ => rangeOrder) (fun _ => 0) soleShard
    soleShard_reachable accountPay).2 ⟨fun _ => by decide +kernel, ?_⟩
  rintro ⟨-, hto, -⟩
  exact absurd hto (by decide)

end Concrete

end Benzene
