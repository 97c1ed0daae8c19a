import Benzene.Bnz.Backend
import Benzene.Core.PoolBound

/-!
# What peers can put into the pools

`transactionMessageHandler` (bnz/handler.go:51-64) hands the transactions of a message to
`addPendingTransactions`, as `SubmitTransaction` does with its own, and so to `AddLocals`.  Unless
`NoLocals` is set every sender becomes a local account, which is exempt from all limits of the
pool.

A run of the node is a list of messages and submissions, each with the reorganisations that it
triggers.  `slots_bounded_of_run`: with `NoLocals`, and no configured local account, peers whose
transactions take one slot each cannot fill a pool beyond `GlobalSlots + GlobalQueue`.
-/

namespace Benzene

/-! ## Slots -/

/-- The transaction has an encoding, as one that has been decoded has. -/
def Transaction.Encodes (tx : Transaction) : Prop := (Rlp.encode tx.fields).isSome

theorem Rlp.encodeList_ne_nil (bs : List Bytes) : Rlp.encodeList bs ≠ [] := by
  simp only [Rlp.encodeList, Rlp.putHead]
  split_ifs <;> simp

variable {tx : Transaction}

theorem Transaction.Encodes.numSlots_pos (h : tx.Encodes) :
    0 < numSlots tx := by
  obtain ⟨bytes, hbytes⟩ := Option.isSome_iff_exists.1 h
  obtain ⟨bs, -, hbs⟩ := Option.map_eq_some_iff.1 hbytes
  have hsize : tx.size = bytes.length := by rw [Transaction.size, hbytes]; rfl
  have hpos : 0 < bytes.length := by
    rw [List.length_pos_iff, ← hbs]
    exact Rlp.encodeList_ne_nil bs
  rw [numSlots, hsize, txSlotSize]
  omega

theorem numSlots_le_one (h : tx.size ≤ txSlotSize) : numSlots tx ≤ 1 := by
  unfold txSlotSize at h
  rw [numSlots, txSlotSize]
  omega

/-! ## Runs of a node -/

/-- What brings transactions to the pools of a node. -/
inductive Arrival
  /-- The transactions that `transactionMessageHandler` has decoded from a message. -/
  | message (txs : List Transaction)
  /-- A call of `SubmitTransaction`. -/
  | rpc (tx : Transaction)

/-- An arrival, with the orders of the loops and the times, first of the additions and then of
    the reorganisations. -/
structure IntakeEvent where
  ord : UInt64 → RangeOrder
  now : UInt64 → ℤ
  reorgOrd : UInt64 → RangeOrder
  reorgNow : UInt64 → ℤ
  arrival : Arrival

/-- The pools of a node, and the transactions that have been submitted by RPC. -/
structure Intake where
  backend : Backend
  submitted : List Transaction

namespace Backend

variable (C : Crypto)

/-- The reorganisations that `AddLocals` waits for (core/tx_pool.go:823-827). -/
def promote (e : IntakeEvent) : List (UInt64 × AccountSet) → Backend → Option Backend
  | [], b => some b
  | (s, dirty) :: promotions, b => do
    let pool ← b.txPool.lookup s
    let pool' ← pool.runReorg C (e.reorgOrd s) (e.reorgNow s) none (some dirty)
    promote e promotions (b.setPool s pool')

/-- `addPendingTransactions` until the last reorganisation is done. -/
def addAndPromote (e : IntakeEvent) (b : Backend) (txs : List Transaction) : Option Backend := do
  let r ← b.addPendingTransactions C e.ord e.now txs
  promote C e r.promotions r.backend

/-- The node has just been started: `New` gives all pools one configuration. -/
def Fresh (config : TxPoolConfig) (b : Backend) : Prop :=
  ∀ s pool, b.txPool.lookup s = some pool → ∃ statedb, pool = newTxPool config statedb

/-- `SubmitTransaction` adds its transaction as a message would. -/
theorem submitTransaction_backend (ord : UInt64 → RangeOrder) (now : UInt64 → ℤ) (b : Backend)
    (tx : Transaction) :
    (b.submitTransaction C ord now tx).map Submission.backend =
      if tx.shardID ∈ b.shardID then
        (b.addPendingTransactions C ord now [tx]).map Additions.backend
      else some b := by
  simp only [submitTransaction, addPendingTransaction]
  split_ifs with hserved
  · cases b.addPendingTransactions C ord now [tx] with
    | none => rfl
    | some r =>
      simp only [Option.bind_eq_bind, Option.bind_some]
      cases r.errs.findSome? id with
      | none => rfl
      | some err => rfl
  · rfl

end Backend

namespace Intake

variable (C : Crypto) (n : Intake)

/-- One arrival and the reorganisations it triggers. -/
def step (e : IntakeEvent) : Option Intake :=
  match e.arrival with
  | .message txs => (n.backend.addAndPromote C e txs).map fun b => ⟨b, n.submitted⟩
  | .rpc tx =>
    if tx.shardID ∈ n.backend.shardID then
      (n.backend.addAndPromote C e [tx]).map fun b => ⟨b, n.submitted.insert tx⟩
    else some ⟨n.backend, n.submitted.insert tx⟩

/-- The node after some arrivals. -/
def runIntake (events : List IntakeEvent) : Option Intake := Run.runPartial (step C) n events

/-- The transactions that have been submitted by RPC for a shard. -/
def submittedTo (s : UInt64) : List Transaction :=
  n.submitted.filter fun tx => decide (tx.shardID = s)

/-- Every pool holds at most the slots of its limits and of the transactions submitted by RPC. -/
def Bounded : Prop :=
  ∀ s pool, n.backend.txPool.lookup s = some pool →
    pool.all.slots ≤ pool.config.globalSlots.toNat + pool.config.globalQueue.toNat +
      ((n.submittedTo s).map numSlots).sum

end Intake

/-- A transaction of a peer takes one slot. -/
def Arrival.OneSlot : Arrival → Prop
  | .message txs => ∀ tx ∈ txs, tx.Encodes ∧ tx.size ≤ txSlotSize
  | .rpc tx => tx.Encodes

/-! ## The bound -/

namespace Backend

variable {C : Crypto} {b b' : Backend} {e : IntakeEvent} {config : TxPoolConfig}
  {apart : UInt64 → List Transaction} {txs : List Transaction}

/-- Every pool is within its limit. -/
def Within (C : Crypto) (config : TxPoolConfig) (apart : UInt64 → List Transaction)
    (b : Backend) : Prop :=
  ∀ s pool, b.txPool.lookup s = some pool → pool.Within C config (apart s)

section

variable (h : b.Within C config apart)

include h

theorem Within.setPool {s : UInt64} {pool : TxPool} (hs : s ∈ b.shardID)
    (hpool : pool.Within C config (apart s)) : (b.setPool s pool).Within C config apart := by
  intro s' pool' hlookup
  rw [lookup_setPool hs] at hlookup
  split_ifs at hlookup with heq
  · rw [heq, ← Option.some.inj hlookup]
    exact hpool
  · exact h _ _ hlookup

theorem Within.promote {promotions : List (UInt64 × AccountSet)}
    (hr : b.promote C e promotions = some b') : b'.Within C config apart := by
  induction promotions generalizing b with
  | nil =>
    obtain rfl := Option.some.inj hr
    exact h
  | cons p promotions ih =>
    obtain ⟨s, dirty⟩ := p
    obtain ⟨pool, hpool, hr⟩ := Option.bind_eq_some_iff.1 hr
    obtain ⟨pool', hpool', hr⟩ := Option.bind_eq_some_iff.1 hr
    have hs : s ∈ b.shardID := (b.served_iff s).1 (by rw [hpool]; rfl)
    exact ih (h.setPool hs ((h _ _ hpool).runReorg hpool')) hr

theorem Within.addPendingTransactions (hno : config.noLocals = true)
    (htxs : ∀ s, ∀ tx ∈ shardTxs txs s, TxPool.TakesSlots (apart s) tx)
    {ord : UInt64 → RangeOrder} {now : UInt64 → ℤ} {r : Additions}
    (hr : b.addPendingTransactions C ord now txs = some r) : r.backend.Within C config apart := by
  intro s pool' hlookup
  rw [(addPendingTransactions_spec hr).2 s, Option.map_eq_some_iff] at hlookup
  obtain ⟨r', hadded, rfl⟩ := hlookup
  obtain ⟨pool, hpool, hadd⟩ := Option.bind_eq_some_iff.1 hadded
  have hremote : (!pool.config.noLocals) = false := by
    rw [(h _ _ hpool).config]
    simp [TxPoolConfig.sanitize, hno]
  rw [TxPool.addLocals, hremote] at hadd
  exact (h _ _ hpool).addTxs (htxs s) hadd

theorem Within.addAndPromote (hno : config.noLocals = true)
    (htxs : ∀ s, ∀ tx ∈ shardTxs txs s, TxPool.TakesSlots (apart s) tx)
    (hr : b.addAndPromote C e txs = some b') : b'.Within C config apart := by
  obtain ⟨r, hadd, hr⟩ := Option.bind_eq_some_iff.1 hr
  exact (h.addPendingTransactions hno htxs hadd).promote hr

end

theorem mem_of_mem_shardTxs {s : UInt64} (h : tx ∈ shardTxs txs s) :
    tx ∈ txs ∧ tx.shardID = s := by
  simp only [shardTxs, List.mem_filter, decide_eq_true_eq] at h
  exact ⟨h.1.1, h.2⟩

end Backend

namespace Intake

variable {C : Crypto} {config : TxPoolConfig} {n n' : Intake} {e : IntakeEvent}

theorem submittedTo_insert (tx : Transaction) (s : UInt64) :
    n.submittedTo s ⊆ (⟨n.backend, n.submitted.insert tx⟩ : Intake).submittedTo s := by
  intro t ht
  simp only [submittedTo, List.mem_filter] at ht ⊢
  exact ⟨List.mem_insert_of_mem ht.1, ht.2⟩

/-- A step keeps every pool within its limit. -/
theorem within_step (hno : config.noLocals = true) (h : n.backend.Within C config n.submittedTo)
    (he : e.arrival.OneSlot) (hr : n.step C e = some n') :
    n'.backend.Within C config n'.submittedTo := by
  obtain ⟨ord, now, reorgOrd, reorgNow, arrival⟩ := e
  cases arrival with
  | message txs =>
    obtain ⟨b, hb, rfl⟩ := Option.map_eq_some_iff.1 hr
    refine h.addAndPromote hno (fun s tx htx => ?_) hb
    obtain ⟨hmem, -⟩ := Backend.mem_of_mem_shardTxs htx
    exact ⟨(he tx hmem).1.numSlots_pos, Or.inl (numSlots_le_one (he tx hmem).2)⟩
  | rpc tx =>
    have hmono : n.backend.Within C config
        (⟨n.backend, n.submitted.insert tx⟩ : Intake).submittedTo :=
      fun _ _ hpool => (h _ _ hpool).mono (submittedTo_insert tx _)
    simp only [step] at hr
    split_ifs at hr
    · obtain ⟨b, hb, rfl⟩ := Option.map_eq_some_iff.1 hr
      refine hmono.addAndPromote hno (fun s t ht => ?_) hb
      obtain ⟨hmem, hs⟩ := Backend.mem_of_mem_shardTxs ht
      obtain rfl := List.mem_singleton.1 hmem
      refine ⟨he.numSlots_pos, Or.inr ?_⟩
      simp [submittedTo, hs]
    · obtain rfl := Option.some.inj hr
      exact hmono

/-- **Peers cannot fill a pool beyond its limits**, when there are no local accounts and their
    transactions take one slot each. -/
theorem slots_bounded_of_run (C : Crypto) (config : TxPoolConfig)
    (hno : config.noLocals = true) (hlocals : config.locals = []) (b : Backend)
    (hfresh : b.Fresh config) (events : List IntakeEvent)
    (hevents : ∀ e ∈ events, e.arrival.OneSlot) (n : Intake)
    (hrun : runIntake C ⟨b, []⟩ events = some n) : n.Bounded := by
  have hstart : b.Within C config (⟨b, []⟩ : Intake).submittedTo := by
    intro s pool hpool
    obtain ⟨statedb, rfl⟩ := hfresh _ _ hpool
    exact TxPool.newTxPool_within hlocals statedb
  have hwithin : n.backend.Within C config n.submittedTo :=
    Run.runPartial_invariant (fun _ e => e.arrival.OneSlot)
      (fun n : Intake => n.backend.Within C config n.submittedTo)
      (fun _ _ _ h he hr => within_step hno h he hr) hstart
      (Run.StepsPartial.of_forall fun e he _ => hevents e he) hrun
  intro s pool hpool
  exact (hwithin _ _ hpool).slots_le

end Intake

namespace Concrete

open TxPool Backend Intake

/-- Room for two transactions. -/
def smallConfig (noLocals : Bool) : TxPoolConfig :=
  { defaultTxPoolConfig with noLocals := noLocals, globalSlots := 1, globalQueue := 1 }

/-- A node that serves shard 0 with a small pool. -/
def smallNode (noLocals : Bool) : Backend :=
  soleShard.setPool 0 (newTxPool (smallConfig noLocals) (uniformState 0 100))

def arriving (arrival : Arrival) : IntakeEvent :=
  ⟨fun _ => rangeOrder, fun _ => 0, fun _ => rangeOrder, fun _ => 0, arrival⟩

/-- The slots of the pool of shard 0. -/
def heldSlots (n : Intake) : Option ℤ :=
  (n.backend.txPool.lookup 0).map fun pool => pool.all.slots

/-- The limits of the pool of shard 0. -/
def slotLimit (n : Intake) : Option ℕ :=
  (n.backend.txPool.lookup 0).map fun pool =>
    pool.config.globalSlots.toNat + pool.config.globalQueue.toNat

/-- A transfer each of three senders. -/
def threeTransfers : List Transaction := [pay 7 0 5, pay 8 0 5, pay 9 0 5]

def crowdedNode : Intake :=
  (runIntake crypto ⟨smallNode false, []⟩ [arriving (.message threeTransfers)]).get
    (by decide +kernel)

/-- One message of a peer takes a pool for two transactions to three, each of them valid. -/
theorem pool_overfilled_by_peer :
    (∀ tx ∈ threeTransfers, (newTxPool (smallConfig false) (uniformState 0 100)).validateTx
      crypto tx false = .ok ()) ∧
      runIntake crypto ⟨smallNode false, []⟩ [arriving (.message threeTransfers)] =
        some crowdedNode ∧
      crowdedNode.submitted = [] ∧ slotLimit crowdedNode = some 2 ∧
      heldSlots crowdedNode = some 3 ∧ ¬ crowdedNode.Bounded := by
  have hlimit : slotLimit crowdedNode = some 2 := by decide +kernel
  have hheld : heldSlots crowdedNode = some 3 := by decide +kernel
  have hnone : crowdedNode.submitted = [] := by decide +kernel
  refine ⟨by decide +kernel, (Option.some_get _).symm, hnone, hlimit, hheld, fun hbound => ?_⟩
  obtain ⟨pool, hpool, hslots⟩ := Option.map_eq_some_iff.1 hheld
  have hle := hbound 0 pool hpool
  rw [slotLimit, hpool, Option.map_some] at hlimit
  have htwo := Option.some.inj hlimit
  rw [submittedTo, hnone, hslots] at hle
  simp only [List.filter_nil, List.map_nil, List.sum_nil] at hle
  omega

/-- Two messages of peers, of which the second comes to a full pool, and a submission. -/
def remoteEvents : List IntakeEvent :=
  [arriving (.message [pay 7 0 5, pay 8 0 5]), arriving (.message [pay 9 0 5]),
    arriving (.rpc (pay 7 1 5))]

def remoteNode : Intake :=
  (runIntake crypto ⟨smallNode true, []⟩ remoteEvents).get (by decide +kernel)

theorem fresh_smallNode (noLocals : Bool) : (smallNode noLocals).Fresh (smallConfig noLocals) := by
  intro s pool hpool
  rw [smallNode, lookup_setPool (by simp [soleShard])] at hpool
  split_ifs at hpool with hs
  · exact ⟨_, (Option.some.inj hpool).symm⟩
  · have hserved := (soleShard.served_iff s).1 (by rw [hpool]; rfl)
    exact absurd (List.mem_singleton.1 hserved) hs

theorem remoteNode_bounded :
    runIntake crypto ⟨smallNode true, []⟩ remoteEvents = some remoteNode ∧
      heldSlots remoteNode = some 2 ∧ remoteNode.Bounded := by
  have hrun : runIntake crypto ⟨smallNode true, []⟩ remoteEvents = some remoteNode :=
    (Option.some_get _).symm
  have hevents : ∀ e ∈ remoteEvents, e.arrival.OneSlot := by
    simp only [remoteEvents, arriving, List.forall_mem_cons, List.not_mem_nil, false_imp_iff,
      implies_true, and_true, Arrival.OneSlot, Transaction.Encodes]
    decide +kernel
  exact ⟨hrun, by decide +kernel, slots_bounded_of_run crypto (smallConfig true) rfl rfl
    (smallNode true) (fresh_smallNode true) remoteEvents hevents remoteNode hrun⟩

end Concrete

end Benzene
