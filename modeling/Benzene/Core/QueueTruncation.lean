import Benzene.Common.Shed
import Benzene.Core.PoolInvariant

/-!
# Truncation of the queue

`truncateQueue` (core/tx_pool.go:1340-1382) takes the accounts that are not local, the most recent
heartbeat first, and drops their queued transactions through `removeTx` until the queue fits.

`removeTx` first looks for the nonce among the pending transactions of the account; in a pool with
its invariant it is not there, so that only the queue loses (`removeTxs_unqueues`).  The loop is
then the shedding of an overflow (`truncateLoop_sheds`), whose counts are those of
`Benzene.Common.Shed`: `truncateQueue_exact`.
-/

namespace Benzene

namespace TxList

variable {l l' : TxList} {removed : List Transaction}

/-- What is left keeps its order. -/
theorem Drops.flatten (h : Drops l l' removed) :
    l'.flatten = l.flatten.filter fun t => decide (t ∉ removed) := by
  have hsorted := l.txs.flatten_lt.filter fun t => decide (t ∉ removed)
  refine List.Perm.eq_of_pairwise (fun a b _ _ hab hba => absurd hab (UInt64.lt_asymm hba))
    l'.txs.flatten_lt hsorted ?_
  rw [List.perm_ext_iff_of_nodup l'.flatten_nodup (l.flatten_nodup.filter _)]
  intro t
  rw [List.mem_filter, mem_flatten, mem_flatten, h.get_iff]
  simp

end TxList

theorem TxLookup.count_drop {C : Crypto} {t : TxLookup} {tx : Transaction}
    (h : t.get (C.txHash tx) = some tx) : (t.drop C tx).count + 1 = t.count := by
  simp only [count, GoMap.size_eq_length_values]
  exact (GoMap.values_perm_of_lookup h).length_eq.symm

namespace TxPool

variable {C : Crypto} {ord : RangeOrder} {now : ℤ} {pool pool' pool₁ : TxPool} {a b : Address}
  {tx : Transaction} {txs removed : List Transaction} {l : TxList}

/-- The queued transactions of an account, in the order of their nonces. -/
def queued (pool : TxPool) (a : Address) : List Transaction :=
  ((pool.queue.lookup a).map TxList.flatten).getD []

theorem queued_of_lookup (h : pool.queue.lookup a = some l) : pool.queued a = l.flatten := by
  simp [queued, h]

theorem queued_lt (pool : TxPool) (a : Address) :
    (pool.queued a).Pairwise fun s t => s.accountNonce < t.accountNonce := by
  unfold queued
  cases pool.queue.lookup a with
  | none => exact List.Pairwise.nil
  | some l => exact l.txs.flatten_lt

theorem queued_nodup (pool : TxPool) (a : Address) : (pool.queued a).Nodup :=
  (pool.queued_lt a).imp fun hlt heq => absurd (heq ▸ hlt) (UInt64.lt_irrefl _)

/-! ## Removal from the queue of an account -/

/-- An account has lost queued transactions, and nothing else has changed but the books. -/
structure Unqueues (C : Crypto) (a : Address) (removed : List Transaction) (pool pool' : TxPool) :
    Prop where
  pending : pool'.pending = pool.pending
  locals : pool'.locals = pool.locals
  others : ∀ b, b ≠ a → pool'.queue.lookup b = pool.queue.lookup b
  queued : pool'.queued a = (pool.queued a).filter fun t => decide (t ∉ removed)
  count : pool'.all.count + removed.length = pool.all.count

theorem Unqueues.refl (C : Crypto) (a : Address) (pool : TxPool) : Unqueues C a [] pool pool where
  pending := rfl
  locals := rfl
  others _ _ := rfl
  queued := by simp
  count := rfl

theorem Unqueues.trans {removed₁ removed₂ : List Transaction}
    (h : Unqueues C a removed₁ pool pool₁) (h' : Unqueues C a removed₂ pool₁ pool') :
    Unqueues C a (removed₁ ++ removed₂) pool pool' where
  pending := h'.pending.trans h.pending
  locals := h'.locals.trans h.locals
  others b hb := (h'.others b hb).trans (h.others b hb)
  queued := by
    rw [h'.queued, h.queued, List.filter_filter]
    refine List.filter_congr fun t _ => ?_
    simp [Bool.and_comm]
  count := by
    have h₁ := h.count
    have h₂ := h'.count
    rw [List.length_append]
    omega

/-- One queued transaction is removed. -/
theorem unqueue_unqueues (h : Sound C pool [])
    (hl : pool.queue.lookup (C.poolSender tx) = some l) (ht : l.get tx.accountNonce = some tx) :
    Unqueues C (C.poolSender tx) [tx] pool (pool.unqueue C ord true l tx) := by
  have hd := (TxList.remove_drops ord ht).2
  rw [TxList.remove_invalids ord tx (h.queue_strict hl)] at hd
  have hlookup : ∀ b, (pool.unqueue C ord true l tx).queue.lookup b =
      if b = C.poolSender tx then
        if (l.remove ord tx).1.isEmpty then none else some (l.remove ord tx).1
      else pool.queue.lookup b := by
    intro b
    simp only [unqueue, dropEmptyQueue, setQueue]
    split_ifs with hempty hb hb
    · rw [hb, AList.lookup_erase]
    · rw [AList.lookup_erase_ne hb, AList.lookup_insert_ne hb]
      rfl
    · rw [hb, AList.lookup_insert]
    · rw [AList.lookup_insert_ne hb]
      rfl
  exact {
    pending := rfl
    locals := rfl
    others := fun b hb => by rw [hlookup, if_neg hb]
    queued := by
      rw [queued_of_lookup hl, ← hd.flatten, TxPool.queued, hlookup, if_pos rfl]
      split_ifs with hempty
      · rw [TxList.isEmpty_iff, ← TxList.flatten_length, List.length_eq_zero_iff] at hempty
        rw [hempty]
        rfl
      · rfl
    count := TxLookup.count_drop (h.get_of_queued ((listAt_of_lookup hl _).trans ht)) }

/-- Removing queued transactions of an account takes them from its queue. -/
theorem removeTxs_unqueues (ord : RangeOrder) (now : ℤ) (h : Good C pool)
    (hmem : ∀ t ∈ txs, t ∈ pool.queued a) (hnd : txs.Nodup) :
    ∃ pool', removeTxs C ord now true pool txs = some pool' ∧ Good C pool' ∧
      Unqueues C a txs pool pool' := by
  induction txs generalizing pool with
  | nil => exact ⟨pool, rfl, h, Unqueues.refl C a pool⟩
  | cons tx txs ih =>
    obtain ⟨hnew, hnd⟩ := List.nodup_cons.1 hnd
    obtain ⟨l, hl, ht⟩ : ∃ l, pool.queue.lookup a = some l ∧ l.get tx.accountNonce = some tx := by
      have htx := hmem tx List.mem_cons_self
      unfold queued at htx
      cases hl : pool.queue.lookup a with
      | none => simp [hl] at htx
      | some l =>
        rw [hl] at htx
        exact ⟨l, rfl, TxList.mem_flatten.1 htx⟩
    obtain rfl : C.poolSender tx = a :=
      congrArg Prod.fst (h.sound.shelved.right_place ((listAt_of_lookup hl _).trans ht))
    obtain ⟨hremove, hsound⟩ := removeTx_of_queued ord now h.sound hl ht true
    have hun : Unqueues C (C.poolSender tx) [tx] pool (pool.unqueue C ord true l tx) :=
      unqueue_unqueues h.sound hl ht
    have hrest : ∀ t ∈ txs, t ∈ (pool.unqueue C ord true l tx).queued (C.poolSender tx) := by
      intro t hmemt
      rw [hun.queued, List.mem_filter]
      refine ⟨hmem t (List.mem_cons_of_mem _ hmemt), ?_⟩
      have hne : t ≠ tx := fun heq => hnew (heq ▸ hmemt)
      simpa using hne
    obtain ⟨pool', hrun, hg, hun'⟩ := ih ⟨hsound, h.tidy.unqueue hl true⟩ hrest hnd
    refine ⟨pool', ?_, hg, hun.trans hun'⟩
    simp only [removeTxs, hremove, Option.bind_eq_bind, Option.bind_some, hrun]

/-! ## The loop -/

/-- Accounts in a row have shed queued transactions. -/
structure ShedsQueue (accounts : List Address) (drop : ℕ) (pool pool' : TxPool) : Prop where
  pending : pool'.pending = pool.pending
  locals : pool'.locals = pool.locals
  others : ∀ b, b ∉ accounts → pool'.queue.lookup b = pool.queue.lookup b
  queued : accounts.map pool'.queued = shed drop (accounts.map pool.queued)
  count : pool'.all.count + (accounts.map pool.queued).flatten.length =
    pool.all.count + (accounts.map pool'.queued).flatten.length

theorem ShedsQueue.refl (accounts : List Address) (pool : TxPool) :
    ShedsQueue accounts 0 pool pool where
  pending := rfl
  locals := rfl
  others _ _ := rfl
  queued := (shed_zero _).symm
  count := rfl

variable {accounts : List Address} {drop : ℕ}

/-- One account has lost its last queued transactions, and those after it go on. -/
theorem Unqueues.sheds (h : Unqueues C a removed pool pool₁)
    (hperm : removed.Perm ((pool.queued a).reverse.take drop)) (ha : a ∉ accounts)
    (h' : ShedsQueue accounts (drop - (pool.queued a).length) pool₁ pool') :
    ShedsQueue (a :: accounts) drop pool pool' := by
  have hrest : accounts.map pool₁.queued = accounts.map pool.queued := by
    refine List.map_congr_left fun b hb => ?_
    rw [TxPool.queued, h.others b fun heq => ha (heq ▸ hb)]
    rfl
  have hhead : pool'.queued a = (pool.queued a).take ((pool.queued a).length - drop) := by
    have hsame : pool'.queued a = pool₁.queued a := by
      rw [TxPool.queued, h'.others a ha]
      rfl
    rw [hsame, h.queued, ← filter_notMem_reverse_take (pool.queued_nodup a)]
    refine List.filter_congr fun t _ => ?_
    simp only [hperm.mem_iff]
  refine {
    pending := h'.pending.trans h.pending
    locals := h'.locals.trans h.locals
    others := ?_
    queued := ?_
    count := ?_ }
  · intro b hb
    rw [List.mem_cons, not_or] at hb
    rw [h'.others b hb.2, h.others b hb.1]
  · rw [List.map_cons, List.map_cons, shed, hhead, h'.queued, hrest]
  · have hcount := h.count
    have hcount' := h'.count
    rw [hperm.length_eq] at hcount
    rw [hrest] at hcount'
    simp only [List.map_cons, List.flatten_cons, List.length_append, hhead, List.length_take,
      List.length_reverse] at hcount hcount' ⊢
    omega

/-- The loop sheds the overflow. -/
theorem truncateLoop_sheds (ord : RangeOrder) (now : ℤ) (h : Good C pool) (hnd : accounts.Nodup)
    (hq : ∀ a ∈ accounts, ∃ l, pool.queue.lookup a = some l) :
    ∃ pool', truncateLoop C ord now accounts pool drop = some pool' ∧ Good C pool' ∧
      ShedsQueue accounts drop pool pool' := by
  induction accounts generalizing pool drop with
  | nil =>
    refine ⟨pool, rfl, h, rfl, rfl, fun _ _ => rfl, rfl, rfl⟩
  | cons a accounts ih =>
    obtain ⟨ha, hnd⟩ := List.nodup_cons.1 hnd
    rcases Nat.eq_zero_or_pos drop with rfl | hpos
    · exact ⟨pool, rfl, h, ShedsQueue.refl _ pool⟩
    · obtain ⟨l, hl⟩ := hq a List.mem_cons_self
      have hstep : ∀ (txs : List Transaction) (drop' : ℕ), (∀ t ∈ txs, t ∈ pool.queued a) →
          txs.Nodup → txs.Perm ((pool.queued a).reverse.take drop) →
          drop' = drop - (pool.queued a).length →
          ∃ pool', ((removeTxs C ord now true pool txs).bind fun pool =>
              truncateLoop C ord now accounts pool drop') = some pool' ∧ Good C pool' ∧
            ShedsQueue (a :: accounts) drop pool pool' := by
        rintro txs drop' hmem hnodup hperm rfl
        obtain ⟨pool₁, hremove, hg₁, hun⟩ := removeTxs_unqueues ord now h hmem hnodup
        have hq₁ : ∀ b ∈ accounts, ∃ l, pool₁.queue.lookup b = some l := by
          intro b hb
          rw [hun.others b fun heq => ha (heq ▸ hb)]
          exact hq b (List.mem_cons_of_mem _ hb)
        obtain ⟨pool', hloop, hg', hsheds⟩ := ih hg₁ hnd hq₁
        exact ⟨pool', by rw [hremove, Option.bind_some, hloop], hg', hun.sheds hperm ha hsheds⟩
      have hlen : (pool.queued a).length = l.len := by
        rw [queued_of_lookup hl, TxList.flatten_length]
      simp only [truncateLoop, if_pos hpos, hl, Option.bind_eq_bind, Option.bind_some]
      rw [← queued_of_lookup hl]
      split_ifs with hle
      · refine hstep _ _ (fun t ht => ht) (pool.queued_nodup a) ?_ (by rw [hlen])
        rw [List.take_of_length_le (by rw [List.length_reverse, hlen]; exact hle)]
        exact (List.reverse_perm _).symm
      · refine hstep _ _ (fun t ht => List.mem_reverse.1 (List.mem_of_mem_take ht))
          ((List.nodup_reverse.2 (pool.queued_nodup a)).sublist (List.take_sublist _ _))
          (List.Perm.refl _) ?_
        omega

/-! ## The accounts and the counts -/

theorem byHeartbeat_perm (pool : TxPool) (ord : RangeOrder) : (pool.byHeartbeat ord).Perm
    ((ord.order pool.queue.keys).filter fun a => !AccountSet.contains pool.locals a) :=
  (List.reverse_perm _).trans (List.perm_insertionSort _ _)

theorem mem_byHeartbeat : a ∈ pool.byHeartbeat ord ↔
    AccountSet.contains pool.locals a = false ∧ ∃ l, pool.queue.lookup a = some l := by
  rw [(pool.byHeartbeat_perm ord).mem_iff, List.mem_filter, RangeOrder.mem_order,
    GoMap.mem_keys_iff]
  simp [and_comm]

theorem byHeartbeat_nodup (pool : TxPool) (ord : RangeOrder) : (pool.byHeartbeat ord).Nodup := by
  rw [(pool.byHeartbeat_perm ord).nodup_iff]
  exact ((ord.perm _).nodup_iff.2 pool.queue.keys_nodup).filter _

/-- The heartbeats go down. -/
theorem byHeartbeat_sorted (pool : TxPool) (ord : RangeOrder) :
    (pool.byHeartbeat ord).Pairwise fun a b =>
      (pool.beats.lookup b).getD 0 ≤ (pool.beats.lookup a).getD 0 := by
  have : Std.Total fun a b : Address =>
      (pool.beats.lookup a).getD 0 ≤ (pool.beats.lookup b).getD 0 := ⟨fun a b => le_total _ _⟩
  have : IsTrans Address fun a b =>
      (pool.beats.lookup a).getD 0 ≤ (pool.beats.lookup b).getD 0 :=
    ⟨fun a b c => le_trans⟩
  exact List.pairwise_reverse.2 (List.pairwise_insertionSort _ _)

/-- The number of queued transactions, over any accounts that include all with a queue. -/
theorem queuedCount_eq {ks : List Address} (hnd : ks.Nodup)
    (h : ∀ a l, pool.queue.lookup a = some l → a ∈ ks) :
    pool.queuedCount = (ks.map fun a => (pool.queued a).length).sum := by
  have hkeys : pool.queuedCount =
      (pool.queue.keys.map fun a => (pool.queued a).length).sum := by
    unfold queuedCount GoMap.values AList.keys List.keys
    rw [List.map_map, List.map_map]
    congr 1
    apply List.map_congr_left
    rintro ⟨b, l⟩ hmem
    simp [queued, GoMap.lookup_eq_some_iff.2 hmem, TxList.flatten_length]
  rw [hkeys, ← List.sum_toFinset _ pool.queue.keys_nodup, ← List.sum_toFinset _ hnd]
  apply Finset.sum_subset
  · intro a ha
    obtain ⟨l, hl⟩ := GoMap.mem_keys_iff.1 (List.mem_toFinset.1 ha)
    exact List.mem_toFinset.2 (h a l hl)
  · intro a _ ha
    have hnone : pool.queue.lookup a = none := by
      rw [Option.eq_none_iff_forall_ne_some]
      intro l hl
      exact ha (List.mem_toFinset.2 (GoMap.mem_keys_iff.2 ⟨l, hl⟩))
    simp [queued, hnone]

/-- The number of queued transactions of accounts that are not local. -/
def remoteQueued (pool : TxPool) : ℕ :=
  ((pool.queue.keys.filter fun a => !AccountSet.contains pool.locals a).map fun a =>
    (pool.queued a).length).sum

/-- The number of queued transactions of local accounts. -/
def localQueued (pool : TxPool) : ℕ :=
  ((pool.queue.keys.filter fun a => AccountSet.contains pool.locals a).map fun a =>
    (pool.queued a).length).sum

theorem remoteQueued_eq (pool : TxPool) (ord : RangeOrder) :
    pool.remoteQueued = ((pool.byHeartbeat ord).map pool.queued).flatten.length := by
  rw [List.length_flatten, List.map_map]
  refine (List.Perm.map _ ?_).sum_eq
  exact ((ord.perm _).symm.filter _).trans (pool.byHeartbeat_perm ord).symm

/-- The queue after the accounts that are not local have shed transactions. -/
theorem ShedsQueue.queuedCount (h : ShedsQueue (pool.byHeartbeat ord) drop pool pool') :
    pool'.queuedCount = pool.localQueued + (pool.remoteQueued - drop) ∧
      pool.queuedCount = pool.localQueued + pool.remoteQueued := by
  have hsplit : ∀ q : TxPool, (∀ a l, q.queue.lookup a = some l → a ∈ pool.queue.keys) →
      q.queuedCount =
        ((pool.queue.keys.filter fun a => AccountSet.contains pool.locals a).map fun a =>
          (q.queued a).length).sum + ((pool.byHeartbeat ord).map q.queued).flatten.length := by
    intro q hq
    have hlengths : ((pool.byHeartbeat ord).map q.queued).flatten.length =
        ((pool.byHeartbeat ord).map fun a => (q.queued a).length).sum := by
      rw [List.length_flatten, List.map_map]
      rfl
    rw [queuedCount_eq pool.queue.keys_nodup hq, hlengths, ← List.sum_append, ← List.map_append]
    refine (List.Perm.map _ ?_).sum_eq
    refine (List.filter_append_perm (fun a => AccountSet.contains pool.locals a) _).symm.trans ?_
    exact ((((ord.perm _).symm.filter _).trans (pool.byHeartbeat_perm ord).symm)).append_left _
  constructor
  · rw [hsplit pool' ?_, h.queued, length_flatten_shed, ← remoteQueued_eq]
    · congr 2
      apply List.map_congr_left
      intro a ha
      have hnot : a ∉ pool.byHeartbeat ord := by
        rw [mem_byHeartbeat]
        simp [(List.mem_filter.1 ha).2]
      rw [TxPool.queued, h.others a hnot]
      rfl
    · intro a l hl
      by_cases ha : a ∈ pool.byHeartbeat ord
      · obtain ⟨l', hl'⟩ := (mem_byHeartbeat.1 ha).2
        exact GoMap.mem_keys_iff.2 ⟨l', hl'⟩
      · rw [h.others a ha] at hl
        exact GoMap.mem_keys_iff.2 ⟨l, hl⟩
  · rw [hsplit pool ?_, ← remoteQueued_eq]
    · rfl
    · intro a l hl
      exact GoMap.mem_keys_iff.2 ⟨l, hl⟩

/-- What `truncateQueue` is to do. -/
structure QueueCut (pool pool' : TxPool) : Prop where
  pending : pool'.pending = pool.pending
  local_queue : ∀ a, AccountSet.contains pool.locals a = true →
    pool'.queue.lookup a = pool.queue.lookup a
  /-- The overflow is dropped, or all that is not local. -/
  dropped : pool'.queuedCount +
    min (pool.queuedCount - pool.config.globalQueue.toNat) pool.remoteQueued = pool.queuedCount
  /-- As many transactions leave the pool. -/
  left : pool'.all.count +
    min (pool.queuedCount - pool.config.globalQueue.toNat) pool.remoteQueued = pool.all.count
  /-- The accounts that are not local, by their heartbeats: the first ones lose everything, then
      at most one is cut and keeps its lowest nonces. -/
  accounts : ∃ whole cut rest : List Address,
    (whole ++ cut ++ rest).Nodup ∧
    (∀ a, a ∈ whole ++ cut ++ rest ↔
      AccountSet.contains pool.locals a = false ∧ ∃ l, pool.queue.lookup a = some l) ∧
    (whole ++ cut ++ rest).Pairwise (fun a b =>
      (pool.beats.lookup b).getD 0 ≤ (pool.beats.lookup a).getD 0) ∧
    (∀ a ∈ whole, pool'.queued a = []) ∧
    cut.length ≤ 1 ∧
    (∀ a ∈ cut, pool'.queued a ≠ [] ∧ ∃ lost ≠ [], pool.queued a = pool'.queued a ++ lost ∧
      ∀ s ∈ pool'.queued a, ∀ t ∈ lost, s.accountNonce < t.accountNonce) ∧
    ∀ a ∈ rest, pool'.queued a = pool.queued a

/-- Shedding the overflow is what is to be done. -/
theorem ShedsQueue.queueCut
    (h : ShedsQueue (pool.byHeartbeat ord) (pool.queuedCount - pool.config.globalQueue.toNat)
      pool pool') : QueueCut pool pool' := by
  obtain ⟨hafter, hbefore⟩ := h.queuedCount
  obtain ⟨whole, cut, rest, heq, hcut, hwhole, hpart, hrest⟩ := exists_split_of_shed h.queued
  refine {
    pending := h.pending
    local_queue := ?_
    dropped := by omega
    left := ?_
    accounts := ⟨whole, cut, rest, ?_, ?_, ?_, hwhole, hcut, ?_, hrest⟩ }
  · intro a ha
    refine h.others a ?_
    rw [mem_byHeartbeat]
    simp [ha]
  · have hcount := h.count
    rw [h.queued, length_flatten_shed, ← remoteQueued_eq] at hcount
    omega
  · exact heq ▸ pool.byHeartbeat_nodup ord
  · intro a
    rw [← heq]
    exact mem_byHeartbeat
  · exact heq ▸ pool.byHeartbeat_sorted ord
  · intro a ha
    obtain ⟨n, hpos, hlt, htake⟩ := hpart a ha
    have hsplit : pool.queued a = pool'.queued a ++ (pool.queued a).drop n := by
      rw [htake, List.take_append_drop]
    refine ⟨?_, (pool.queued a).drop n, ?_, hsplit, ?_⟩
    · rw [htake, ← List.length_pos_iff, List.length_take]
      omega
    · rw [← List.length_pos_iff, List.length_drop]
      omega
    · have hsorted := pool.queued_lt a
      rw [hsplit, List.pairwise_append] at hsorted
      exact hsorted.2.2

/-- In a pool with its invariant the overflow is shed. -/
theorem truncateQueue_sheds (ord : RangeOrder) (now : ℤ) (h : Good C pool) :
    ∃ pool', pool.truncateQueue C ord now = some pool' ∧ ShedsQueue (pool.byHeartbeat ord)
      (pool.queuedCount - pool.config.globalQueue.toNat) pool pool' := by
  unfold truncateQueue
  dsimp only
  split_ifs with hfits
  · refine ⟨pool, rfl, ?_⟩
    rw [Nat.sub_eq_zero_of_le hfits]
    exact ShedsQueue.refl _ pool
  · have hqueues : ∀ a ∈ pool.byHeartbeat ord, ∃ l, pool.queue.lookup a = some l :=
      fun a ha => (mem_byHeartbeat.1 ha).2
    obtain ⟨pool', hloop, -, hsheds⟩ :=
      truncateLoop_sheds ord now h (pool.byHeartbeat_nodup ord) hqueues
    exact ⟨pool', hloop, hsheds⟩

/-- **Truncation of the queue.**  In a pool with its invariant `truncateQueue` drops the overflow,
    from accounts that are not local and from the queue only, in the order of the heartbeats. -/
theorem truncateQueue_exact (C : Crypto) (ord : RangeOrder) (now : ℤ) (pool : TxPool)
    (h : Good C pool) :
    ∃ pool', pool.truncateQueue C ord now = some pool' ∧ QueueCut pool pool' := by
  obtain ⟨pool', hrun, hsheds⟩ := truncateQueue_sheds ord now h
  exact ⟨pool', hrun, hsheds.queueCut⟩

end TxPool

namespace Concrete

open TxPool

/-- A pool that may queue one transaction. -/
def narrowQueue : TxPool :=
  newTxPool { defaultTxPoolConfig with globalQueue := 1 } (uniformState 0 100)

/-- Three transfers that wait for earlier ones. -/
def waitingEvents : List Event :=
  [poolEvent (.addRemotes [pay 7 1 5, pay 7 2 5, pay 8 1 5])]

def waitingPool : TxPool := (runEvents crypto narrowQueue waitingEvents).get (by decide +kernel)

theorem waitingPool_cut :
    (waitingPool.queuedCount = 3 ∧ waitingPool.config.globalQueue = 1 ∧
      waitingPool.remoteQueued = 3) ∧
    ∃ pool', waitingPool.truncateQueue crypto rangeOrder 0 = some pool' ∧
      QueueCut waitingPool pool' := by
  have hrun : runEvents crypto narrowQueue waitingEvents = some waitingPool :=
    (Option.some_get _).symm
  exact ⟨by decide +kernel,
    truncateQueue_exact crypto rangeOrder 0 waitingPool (runEvents_good hrun).1⟩

end Concrete

end Benzene
