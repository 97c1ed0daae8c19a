import Benzene.Common.Run
import Benzene.Core.SortedMap

/-!
# The cache of the nonce-sorted map

Model of core/tx_list.go:50-237 with the `cache` field: the transactions in nonce order, kept
from one `Flatten` to the next.  `Forward` and `Cap` cut the cache where they cut the map, the
other operations drop it.  The cache is right after any operations (`run_refinesMap`), so that
`txSortedMap` is a finite map with its transactions in nonce order.
-/

namespace Benzene

/-- `txSortedMap` (core/tx_list.go:52-56); the cache is `none` when it is nil. -/
structure CachedMap where
  map : TxSortedMap
  cache : Option (List Transaction)

namespace CachedMap

/-- `newTxSortedMap`. -/
def new : CachedMap := ⟨.empty, none⟩

variable (m : CachedMap)

/-- `Put`. -/
def put (tx : Transaction) : CachedMap := ⟨m.map.put tx, none⟩

/-- `Forward`; `none` is a slice out of range. -/
def forward (threshold : UInt64) : Option (CachedMap × List Transaction) :=
  let r := m.map.forward threshold
  match m.cache with
  | none => some (⟨r.1, none⟩, r.2)
  | some c =>
    if r.2.length ≤ c.length then some (⟨r.1, some (c.drop r.2.length)⟩, r.2) else none

/-- `Filter`. -/
def filter (ord : RangeOrder) (p : Transaction → Bool) : CachedMap × List Transaction :=
  let r := m.map.filter ord p
  (⟨r.1, if r.2.isEmpty then m.cache else none⟩, r.2)

/-- `Cap`; `none` is an index or a slice out of range. -/
def cap (threshold : ℤ) : Option (CachedMap × List Transaction) :=
  if m.map.len ≤ threshold then some (m, [])
  -- the loop goes on below the first nonce
  else if threshold < 0 then none
  else
    let r := m.map.cap threshold.toNat
    match m.cache with
    | none => some (⟨r.1, none⟩, r.2)
    | some c =>
      if r.2.length ≤ c.length then
        some (⟨r.1, some (c.take (c.length - r.2.length))⟩, r.2)
      else none

/-- `Remove`. -/
def remove (nonce : UInt64) : CachedMap × Bool :=
  let r := m.map.remove nonce
  (⟨r.1, if r.2 then none else m.cache⟩, r.2)

/-- `Ready`. -/
def ready (start : UInt64) : CachedMap × List Transaction :=
  match m.map.index.head? with
  | none => (m, [])
  | some nonce =>
    if start < nonce then (m, []) else (⟨(m.map.ready start).1, none⟩, (m.map.ready start).2)

/-- `Flatten`. -/
def flatten : CachedMap × List Transaction :=
  match m.cache with
  | none => (⟨m.map, some m.map.flatten⟩, m.map.flatten)
  | some c => (m, c)

/-- The operations of a `txSortedMap`. -/
inductive Op where
  | put (tx : Transaction)
  | forward (threshold : UInt64)
  | filter (ord : RangeOrder) (p : Transaction → Bool)
  | cap (threshold : ℤ)
  | remove (nonce : UInt64)
  | ready (start : UInt64)
  | flatten

/-- The map after an operation; `none` is a panic. -/
def step : Op → Option CachedMap
  | .put tx => some (m.put tx)
  | .forward threshold => (m.forward threshold).map Prod.fst
  | .filter ord p => some (m.filter ord p).1
  | .cap threshold => (m.cap threshold).map Prod.fst
  | .remove nonce => some (m.remove nonce).1
  | .ready start => some (m.ready start).1
  | .flatten => some m.flatten.1

/-- The cache is absent, or the stored transactions in nonce order. -/
def Cached : Prop := m.cache = none ∨ m.cache = some m.map.flatten

variable {m}

/-- `Forward` cuts the front off the map and off the cache. -/
theorem forward_eq (h : m.Cached) (threshold : UInt64) :
    ∃ m', m.forward threshold = some (m', (m.map.forward threshold).2) ∧
      m'.map = (m.map.forward threshold).1 ∧ m'.Cached := by
  have hsplit := (m.map.forward_spec threshold).1
  rcases h with h | h
  · simp only [forward, h]
    exact ⟨_, rfl, rfl, Or.inl rfl⟩
  · simp only [forward, h]
    rw [if_pos (by rw [hsplit]; simp)]
    refine ⟨_, rfl, rfl, Or.inr (congrArg some ?_)⟩
    rw [hsplit]
    exact List.drop_left

/-- `Cap` cuts the back off the map and off the cache, unless the number is negative. -/
theorem cap_eq (h : m.Cached) {threshold : ℤ} (hnonneg : 0 ≤ threshold) :
    ∃ m', m.cap threshold = some (m', (m.map.cap threshold.toNat).2) ∧
      m'.map = (m.map.cap threshold.toNat).1 ∧ m'.Cached := by
  by_cases hle : (m.map.len : ℤ) ≤ threshold
  · have hself : m.map.cap threshold.toNat = (m.map, []) := if_pos (by omega)
    rw [cap, if_pos hle, hself]
    exact ⟨m, rfl, rfl, h⟩
  · rw [cap, if_neg hle, if_neg (not_lt.2 hnonneg)]
    have hsplit := m.map.flatten_cap threshold.toNat
    rcases h with h | h
    · simp only [h]
      exact ⟨_, rfl, rfl, Or.inl rfl⟩
    · simp only [h]
      rw [if_pos (by rw [hsplit]; simp)]
      refine ⟨_, rfl, rfl, Or.inr (congrArg some ?_)⟩
      rw [hsplit]
      exact List.take_left' (by simp)

theorem cap_eq_none {threshold : ℤ} (hneg : threshold < 0) : m.cap threshold = none := by
  rw [cap, if_neg (by omega), if_pos hneg]

theorem ready_map (m : CachedMap) (start : UInt64) :
    (m.ready start).1.map = (m.map.ready start).1 ∧ (m.ready start).2 = (m.map.ready start).2 := by
  cases hhead : m.map.index.head? with
  | none => simp [ready, TxSortedMap.ready, hhead]
  | some nonce =>
    simp only [ready, TxSortedMap.ready, hhead]
    split_ifs <;> exact ⟨rfl, rfl⟩

theorem flatten_of_cached (h : m.Cached) :
    m.flatten = (⟨m.map, some m.map.flatten⟩, m.map.flatten) := by
  rcases h with h | h
  · simp only [flatten, h]
  · simp only [flatten, h]
    rw [← h]

/-- An operation leaves a right cache or none; the one panic is a negative number. -/
theorem step_cached (h : m.Cached) (op : Op) :
    (∃ m', m.step op = some m' ∧ m'.Cached) ∨ m.step op = none ∧ ∃ k < 0, op = .cap k := by
  cases op with
  | put tx => exact Or.inl ⟨_, rfl, Or.inl rfl⟩
  | forward threshold =>
    obtain ⟨m', heq, -, hc⟩ := forward_eq h threshold
    exact Or.inl ⟨m', by rw [step, heq]; rfl, hc⟩
  | filter ord p =>
    refine Or.inl ⟨_, rfl, ?_⟩
    simp only [filter]
    split_ifs with hnil
    · have hself : (m.map.filter ord p).1 = m.map := by
        simp only [TxSortedMap.filter] at hnil ⊢
        split_ifs at hnil ⊢ <;> first | rfl | contradiction
      rw [hself]
      exact h
    · exact Or.inl rfl
  | cap threshold =>
    rcases lt_or_ge threshold 0 with hneg | hnonneg
    · exact Or.inr ⟨by rw [step, cap_eq_none hneg]; rfl, threshold, hneg, rfl⟩
    · obtain ⟨m', heq, -, hc⟩ := cap_eq h hnonneg
      exact Or.inl ⟨m', by rw [step, heq]; rfl, hc⟩
  | remove nonce =>
    refine Or.inl ⟨_, rfl, ?_⟩
    cases hget : m.map.get nonce with
    | none =>
      rw [remove, TxSortedMap.remove_eq_of_none hget]
      exact h
    | some tx =>
      rw [remove, (TxSortedMap.remove_removes hget).1]
      exact Or.inl rfl
  | ready start =>
    refine Or.inl ⟨_, rfl, ?_⟩
    unfold ready
    split
    · exact h
    · split_ifs
      · exact h
      · exact Or.inl rfl
  | flatten =>
    refine Or.inl ⟨_, rfl, Or.inr ?_⟩
    rw [flatten_of_cached h]

/-- What the index, the cache and the operations are to the finite map `m.map.get`. -/
structure RefinesMap (m : CachedMap) : Prop where
  /-- A heap of the stored nonces, each once. -/
  index : Heap.Ordered nonceLess m.map.index ∧ m.map.index.Nodup ∧
    ∀ n, n ∈ m.map.index ↔ ∃ tx, m.map.get n = some tx
  cache : m.cache = none ∨ m.cache = some m.map.flatten
  /-- The stored transactions in nonce order. -/
  sorted : (m.map.flatten.Pairwise fun a b => a.accountNonce < b.accountNonce) ∧
    ∀ n t, m.map.get n = some t ↔ t ∈ m.map.flatten ∧ t.accountNonce = n
  flatten : m.flatten = (⟨m.map, some m.map.flatten⟩, m.map.flatten)
  put : ∀ tx n, (m.put tx).map.get n = if n = tx.accountNonce then some tx else m.map.get n
  forward : ∀ threshold, ∃ m' removed, m.forward threshold = some (m', removed) ∧
    m.map.flatten = removed ++ m'.map.flatten ∧ (∀ t ∈ removed, t.accountNonce < threshold) ∧
    ∀ t ∈ m'.map.flatten, ¬ t.accountNonce < threshold
  filter : ∀ ord p, Removes m.map.items (m.filter ord p).1.map.items (m.filter ord p).2 ∧
    ∀ t, t ∈ (m.filter ord p).2 ↔ t ∈ m.map.flatten ∧ p t = true
  cap : ∀ threshold : ℤ, 0 ≤ threshold → ∃ m' removed, m.cap threshold = some (m', removed) ∧
    m'.map.flatten = m.map.flatten.take threshold.toNat ∧
    removed.reverse = m.map.flatten.drop threshold.toNat
  remove : ∀ nonce, ((m.remove nonce).2 = true ↔ ∃ tx, m.map.get nonce = some tx) ∧
    ∀ n, (m.remove nonce).1.map.get n = if n = nonce then none else m.map.get n
  /-- Nothing when every nonce is above `start`; otherwise the nonces from the lowest one `n₀`
      up to the first that is not stored. -/
  ready : ∀ start,
    ((m.ready start).1.map = m.map ∧ (m.ready start).2 = [] ∧
      ∀ t ∈ m.map.flatten, start < t.accountNonce) ∨
    ∃ n₀, (m.ready start).2 ≠ [] ∧ n₀ ≤ start.toNat ∧
      m.map.flatten = (m.ready start).2 ++ (m.ready start).1.map.flatten ∧
      ((m.ready start).2.map fun t => t.accountNonce.toNat) =
        List.range' n₀ (m.ready start).2.length ∧
      ∀ t ∈ (m.ready start).1.map.flatten, n₀ + (m.ready start).2.length < t.accountNonce.toNat

theorem Cached.refinesMap (h : m.Cached) : RefinesMap m where
  index := ⟨m.map.index_ordered, m.map.index_nodup, fun _ => m.map.mem_index⟩
  cache := h
  sorted := by
    refine ⟨m.map.flatten_lt, fun n t => ⟨fun ht => ?_, fun ⟨ht, hn⟩ => ?_⟩⟩
    · have hn := m.map.nonce_of_get ht
      exact ⟨TxSortedMap.mem_flatten.2 (by rwa [hn]), hn⟩
    · exact hn ▸ TxSortedMap.mem_flatten.1 ht
  flatten := flatten_of_cached h
  put tx n := m.map.get_put tx n
  forward threshold := by
    obtain ⟨m', heq, hmap, -⟩ := forward_eq h threshold
    refine ⟨m', _, heq, ?_⟩
    rw [hmap]
    exact m.map.forward_spec threshold
  filter ord p := by
    refine ⟨m.map.filter_removes ord p, fun t => ?_⟩
    rw [TxSortedMap.mem_flatten]
    exact TxSortedMap.mem_filter
  cap threshold hnonneg := by
    obtain ⟨m', heq, hmap, -⟩ := cap_eq h hnonneg
    refine ⟨m', _, heq, ?_⟩
    rw [hmap]
    exact m.map.cap_spec threshold.toNat
  remove nonce := m.map.remove_spec nonce
  ready start := by
    obtain ⟨hmap, hret⟩ := m.ready_map start
    rw [hmap, hret]
    refine (m.map.ready_spec start).imp_left fun ⟨heq, habove⟩ => ?_
    rw [heq]
    exact ⟨rfl, rfl, habove⟩

/-- After any operations the map is a finite map with its transactions in nonce order, unless
    `Cap` was given a negative number. -/
theorem run_refinesMap (ops : List Op) :
    match Run.runPartial step new ops with
    | none => ∃ k < 0, Op.cap k ∈ ops
    | some m => RefinesMap m := by
  have hrun : ∀ (ops : List Op) (m : CachedMap), m.Cached →
      (∃ m', Run.runPartial step m ops = some m' ∧ m'.Cached) ∨
        Run.runPartial step m ops = none ∧ ∃ k < 0, Op.cap k ∈ ops := by
    intro ops
    induction ops with
    | nil => exact fun m h => Or.inl ⟨m, rfl, h⟩
    | cons op ops ih =>
      intro m h
      rw [Run.runPartial_cons]
      rcases step_cached h op with ⟨m', heq, h'⟩ | ⟨heq, k, hk, rfl⟩
      all_goals rw [heq]
      · refine (ih m' h').imp_right fun ⟨hnone, k, hk, hin⟩ => ?_
        exact ⟨hnone, k, hk, List.mem_cons_of_mem _ hin⟩
      · exact Or.inr ⟨rfl, k, hk, List.mem_cons_self⟩
  rcases hrun ops new (Or.inl rfl) with ⟨m, heq, h⟩ | ⟨heq, hneg⟩
  all_goals rw [heq]
  · exact h.refinesMap
  · exact hneg

end CachedMap

end Benzene
