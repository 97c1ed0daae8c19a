import Benzene.Common.GoMap
import Benzene.Common.Heap
import Benzene.Types.Signing

/-!
# The nonce-sorted map

Model of core/tx_list.go:30-243: `txSortedMap`, a map from nonces to transactions with a heap
of the nonces.  The invariants are fields: every transaction is filed under its nonce, and the
heap holds each stored nonce once, so that the loops never meet a nonce without a transaction.
The cache of the sorted transactions is left out: `flatten` sorts (`CachedMap` adds it).

`Removes` says what `Forward`, `Filter`, `Cap`, `Remove` and `Ready` have in common: they take
transactions out of the map and return them.  Which ones is said by `forward_spec`,
`mem_filter`, `cap_spec`, `remove_removes` and `ready_spec`: but for `Filter`, they split the
list in nonce order.
-/

namespace Benzene

/-- `int(x)` of a `uint64`. -/
def goInt (x : UInt64) : ℤ := x.toBitVec.toInt

theorem goInt_eq (x : UInt64) :
    goInt x = if 2 * x.toNat < 2 ^ 64 then (x.toNat : ℤ) else x.toNat - 2 ^ 64 :=
  BitVec.toInt_eq_toNat_cond x.toBitVec

/-- `nonceHeap.Less`. -/
def nonceLess (a b : UInt64) : Bool := decide (a < b)

theorem nonceLess_eq_false {a b : UInt64} : nonceLess a b = false ↔ b.toNat ≤ a.toNat := by
  rw [nonceLess, decide_eq_false_iff_not, UInt64.lt_iff_toNat_lt, not_lt]

theorem nonceLess_strictWeak : Heap.StrictWeak nonceLess where
  asymm a b h := by
    rw [nonceLess_eq_false]
    rw [nonceLess, decide_eq_true_eq, UInt64.lt_iff_toNat_lt] at h
    omega
  trans a b c hab hbc := by
    rw [nonceLess_eq_false] at *
    omega

/-- A map that files transactions under their nonces. -/
def FiledByNonce (items : GoMap UInt64 Transaction) : Prop :=
  ∀ n tx, items.lookup n = some tx → tx.accountNonce = n

/-- `txSortedMap` (core/tx_list.go:52-56). -/
structure TxSortedMap where
  items : GoMap UInt64 Transaction
  index : List UInt64
  nonce_eq : FiledByNonce items
  /-- The heap holds the stored nonces. -/
  index_perm : index.Perm items.keys
  index_ordered : Heap.Ordered nonceLess index

/-- Transactions leave a map and are returned. -/
structure Removes (items items' : GoMap UInt64 Transaction) (removed : List Transaction) :
    Prop where
  lookup_iff : ∀ n t, items'.lookup n = some t ↔ items.lookup n = some t ∧ t ∉ removed
  mem : ∀ t ∈ removed, items.lookup t.accountNonce = some t
  nodup : removed.Nodup

variable {items : GoMap UInt64 Transaction}

theorem mem_values_iff_lookup (hf : FiledByNonce items) {t : Transaction} :
    t ∈ GoMap.values items ↔ items.lookup t.accountNonce = some t := by
  rw [GoMap.mem_values_iff]
  constructor
  · rintro ⟨n, hn⟩
    rwa [hf n t hn]
  · exact fun h => ⟨_, h⟩

theorem values_nodup (hf : FiledByNonce items) :
    (GoMap.values items).Nodup :=
  GoMap.nodup_values fun h => hf _ _ h

namespace Removes

variable {items items' : GoMap UInt64 Transaction} {removed : List Transaction}

theorem filed (h : Removes items items' removed) (hf : FiledByNonce items) :
    FiledByNonce items' :=
  fun n tx htx => hf n tx ((h.lookup_iff n tx).1 htx).1

theorem refl (items : GoMap UInt64 Transaction) : Removes items items [] :=
  ⟨by simp, by simp, List.nodup_nil⟩

/-- Deletions add up. -/
theorem trans {items'' : GoMap UInt64 Transaction} {removed' : List Transaction}
    (h : Removes items items' removed) (h' : Removes items' items'' removed') :
    Removes items items'' (removed ++ removed') where
  lookup_iff n t := by
    rw [h'.lookup_iff, h.lookup_iff, List.mem_append, not_or, and_assoc]
  mem t ht := by
    rcases List.mem_append.1 ht with ht | ht
    · exact h.mem t ht
    · exact ((h.lookup_iff _ t).1 (h'.mem t ht)).1
  nodup := by
    refine List.nodup_append.2 ⟨h.nodup, h'.nodup, ?_⟩
    rintro t ht t' ht' rfl
    exact ((h.lookup_iff _ t).1 (h'.mem t ht')).2 ht

/-- The transactions are split between the map and the list. -/
theorem values_perm (h : Removes items items' removed) (hf : FiledByNonce items) :
    (GoMap.values items).Perm (removed ++ GoMap.values items') := by
  have hf' := h.filed hf
  rw [List.perm_ext_iff_of_nodup (values_nodup hf)]
  · intro t
    rw [List.mem_append, mem_values_iff_lookup hf, mem_values_iff_lookup hf', h.lookup_iff]
    constructor
    · intro ht
      by_cases hr : t ∈ removed
      · exact Or.inl hr
      · exact Or.inr ⟨ht, hr⟩
    · rintro (ht | ht)
      · exact h.mem t ht
      · exact ht.1
  · refine List.nodup_append.2 ⟨h.nodup, values_nodup hf', ?_⟩
    rintro t ht t' ht' rfl
    exact ((h.lookup_iff _ t).1 ((mem_values_iff_lookup hf').1 ht')).2 ht

theorem size_eq (h : Removes items items' removed) (hf : FiledByNonce items) :
    removed.length + items'.size = items.size := by
  have hlen := (h.values_perm hf).length_eq
  simpa [GoMap.values, GoMap.size] using hlen.symm

end Removes

theorem FiledByNonce.erase (hf : FiledByNonce items) (n : UInt64) :
    FiledByNonce (items.erase n) := by
  intro k tx h
  rw [GoMap.lookup_erase_eq] at h
  split_ifs at h
  exact hf k tx h

variable {n : UInt64}

/-- A nonce leaves the heap and the map. -/
theorem perm_keys_erase {index : List UInt64} (h : (n :: index).Perm items.keys) :
    index.Perm (items.erase n).keys := by
  have herase := h.erase n
  rwa [List.erase_cons_head, ← AList.keys_erase] at herase

theorem perm_keys_eraseAll {index ks : List UInt64} (h : (ks ++ index).Perm items.keys) :
    index.Perm (GoMap.eraseAll items ks).keys := by
  induction ks generalizing items with
  | nil => exact h
  | cons n ks ih => exact ih (perm_keys_erase h)

namespace TxSortedMap

variable (m : TxSortedMap)

theorem index_nodup : m.index.Nodup := m.index_perm.nodup_iff.2 m.items.keys_nodup

theorem mem_index : n ∈ m.index ↔ ∃ tx, m.items.lookup n = some tx :=
  m.index_perm.mem_iff.trans GoMap.mem_keys_iff

/-- `newTxSortedMap`. -/
def empty : TxSortedMap where
  items := ∅
  index := []
  nonce_eq n tx h := by simp at h
  index_perm := List.Perm.refl _
  index_ordered := Heap.ordered_nil

/-- `Get`. -/
def get (nonce : UInt64) : Option Transaction := m.items.lookup nonce

/-- `Len`. -/
def len : ℕ := m.items.size

theorem nonce_of_get {tx : Transaction} (h : m.get n = some tx) :
    tx.accountNonce = n :=
  m.nonce_eq n tx h

/-- `Put` (core/tx_list.go:73-79). -/
def put (tx : Transaction) : TxSortedMap where
  items := m.items.insert tx.accountNonce tx
  index :=
    if (m.items.lookup tx.accountNonce).isNone then
      Heap.push nonceLess m.index tx.accountNonce
    else m.index
  nonce_eq n tx' h := by
    rw [GoMap.lookup_insert_eq] at h
    split_ifs at h with hn
    · rw [← Option.some.inj h, hn]
    · exact m.nonce_eq n tx' h
  index_perm := by
    rw [AList.keys_insert]
    split_ifs with hnone
    · have hnot : tx.accountNonce ∉ m.items.keys :=
        GoMap.lookup_eq_none.1 (Option.isNone_iff_eq_none.1 hnone)
      rw [List.erase_of_not_mem hnot]
      exact (Heap.push_perm nonceLess m.index _).trans (m.index_perm.cons _)
    · have hmem : tx.accountNonce ∈ m.items.keys := by
        by_contra hnot
        exact hnone (Option.isNone_iff_eq_none.2 (GoMap.lookup_eq_none.2 hnot))
      exact m.index_perm.trans (List.perm_cons_erase hmem)
  index_ordered := by
    split_ifs
    · exact Heap.push_ordered nonceLess_strictWeak m.index_ordered _
    · exact m.index_ordered

theorem get_put (tx : Transaction) (n : UInt64) :
    (m.put tx).get n = if n = tx.accountNonce then some tx else m.get n :=
  GoMap.lookup_insert_eq _ _ _ _

/-- `heap.Pop` with the `delete` that goes with it: the transaction with the lowest nonce. -/
def popMin : Option (Transaction × TxSortedMap) :=
  match hpop : Heap.pop nonceLess m.index with
  | none => none
  | some (nonce, index') =>
    match m.items.lookup nonce with
    | none => none
    | some tx =>
      some (tx,
        { items := m.items.erase nonce
          index := index'
          nonce_eq := m.nonce_eq.erase nonce
          index_perm :=
            perm_keys_erase ((Heap.pop_perm nonceLess hpop).symm.trans m.index_perm)
          index_ordered := Heap.pop_ordered nonceLess_strictWeak m.index_ordered hpop })

/-- The loop of `Forward`. -/
def forwardLoop (threshold : UInt64) :
    ℕ → TxSortedMap → List Transaction → TxSortedMap × List Transaction
  | 0, m, removed => (m, removed)
  | fuel + 1, m, removed =>
    match m.index.head? with
    | none => (m, removed)
    | some nonce =>
      if nonce < threshold then
        match m.popMin with
        | none => (m, removed)
        | some (tx, m') => forwardLoop threshold fuel m' (removed ++ [tx])
      else (m, removed)

/-- `Forward` (core/tx_list.go:84-98): the transactions below a nonce. -/
def forward (threshold : UInt64) : TxSortedMap × List Transaction :=
  forwardLoop threshold m.index.length m []

/-- The loop of `Ready`. -/
def readyLoop : ℕ → UInt64 → TxSortedMap → List Transaction → TxSortedMap × List Transaction
  | 0, _, m, ready => (m, ready)
  | fuel + 1, next, m, ready =>
    if m.index.head? = some next then
      match m.popMin with
      | none => (m, ready)
      | some (tx, m') => readyLoop fuel (next + 1) m' (ready ++ [tx])
    else (m, ready)

/-- `Ready` (core/tx_list.go:194-209): the consecutive transactions from the lowest nonce on,
    when that is at most `start`. -/
def ready (start : UInt64) : TxSortedMap × List Transaction :=
  match m.index.head? with
  | none => (m, [])
  | some nonce => if start < nonce then (m, []) else readyLoop m.index.length nonce m []

/-- `reheap` (core/tx_list.go:114-121), on the items that are left. -/
def reheap (ord : RangeOrder) (items : GoMap UInt64 Transaction) (hf : FiledByNonce items) :
    TxSortedMap where
  items := items
  index := Heap.init nonceLess (ord.order items.keys)
  nonce_eq := hf
  index_perm := (Heap.init_perm nonceLess _).trans (ord.perm _)
  index_ordered := Heap.init_ordered nonceLess_strictWeak _

end TxSortedMap

/-- `filter` (core/tx_list.go:125-139), which leaves the heap to be rebuilt. -/
def filterItems (ord : RangeOrder) (p : Transaction → Bool) (items : GoMap UInt64 Transaction) :
    GoMap UInt64 Transaction × List Transaction :=
  (GoMap.filter (fun _ tx => !p tx) items, (ord.order (GoMap.values items)).filter p)

variable {p : Transaction → Bool}

theorem mem_filterItems {ord : RangeOrder} (hf : FiledByNonce items) {t : Transaction} :
    t ∈ (filterItems ord p items).2 ↔ items.lookup t.accountNonce = some t ∧ p t = true := by
  simp [filterItems, mem_values_iff_lookup hf]

theorem filterItems_removes (ord : RangeOrder) (p : Transaction → Bool) (hf : FiledByNonce items) :
    Removes items (filterItems ord p items).1 (filterItems ord p items).2 where
  lookup_iff n t := by
    simp only [filterItems, GoMap.lookup_filter_eq_some, List.mem_filter, RangeOrder.mem_order,
      mem_values_iff_lookup hf]
    constructor
    · rintro ⟨ht, hp⟩
      simp_all
    · rintro ⟨ht, hp⟩
      rw [hf n t ht] at hp
      simp_all
  mem t ht := by
    simp only [filterItems, List.mem_filter, RangeOrder.mem_order] at ht
    exact (mem_values_iff_lookup hf).1 ht.1
  nodup := ((ord.perm _).nodup_iff.2 (values_nodup hf)).filter _

namespace TxSortedMap

variable (m : TxSortedMap) (ord : RangeOrder)

/-- `Filter` (core/tx_list.go:105-112). -/
def filter (p : Transaction → Bool) : TxSortedMap × List Transaction :=
  let r := filterItems ord p m.items
  if r.2.isEmpty then (m, r.2)
  else (reheap ord r.1 ((filterItems_removes ord p m.nonce_eq).filed m.nonce_eq), r.2)

/-- The nonces in increasing order. -/
def sortedIndex : List UInt64 := m.index.insertionSort (· ≤ ·)

theorem sortedIndex_perm : m.sortedIndex.Perm m.index := List.perm_insertionSort _ _

variable {tx t : Transaction} {n : UInt64}

theorem mem_eraseAll_lookup {ks : List UInt64} :
    (GoMap.eraseAll m.items ks).lookup n = some tx ↔ m.get n = some tx ∧ n ∉ ks := by
  rw [GoMap.lookup_eraseAll]
  by_cases hn : n ∈ ks <;> simp [hn, get]

/-- `Cap` (core/tx_list.go:143-164): the transactions with the highest nonces, down to a
    number of transactions. -/
def cap (threshold : ℕ) : TxSortedMap × List Transaction :=
  if m.len ≤ threshold then (m, [])
  else
    let dropped := (m.sortedIndex.drop threshold).reverse
    ({ items := GoMap.eraseAll m.items dropped
       index := Heap.init nonceLess (m.sortedIndex.take threshold)
       nonce_eq := fun n tx h => m.nonce_eq n tx (m.mem_eraseAll_lookup.1 h).1
       index_perm := by
         have hinit := Heap.init_perm nonceLess (m.sortedIndex.take threshold)
         have hall : m.sortedIndex.Perm m.items.keys := m.sortedIndex_perm.trans m.index_perm
         rw [← List.take_append_drop threshold m.sortedIndex] at hall
         refine perm_keys_eraseAll (List.Perm.trans ?_ hall)
         exact ((List.reverse_perm _).append hinit).trans List.perm_append_comm
       index_ordered := Heap.init_ordered nonceLess_strictWeak _ },
      dropped.filterMap m.items.lookup)

/-- `Remove` (core/tx_list.go:168-185). -/
def remove (nonce : UInt64) : TxSortedMap × Bool :=
  match h : m.items.lookup nonce with
  | none => (m, false)
  | some tx =>
    ({ items := m.items.erase nonce
       index := Heap.remove nonceLess m.index (m.index.idxOf nonce)
       nonce_eq := m.nonce_eq.erase nonce
       index_perm := by
         have hlt : m.index.idxOf nonce < m.index.length :=
           List.idxOf_lt_length_iff.2 (m.mem_index.2 ⟨tx, h⟩)
         have hperm := Heap.remove_perm nonceLess hlt
         rw [List.getElem_idxOf hlt] at hperm
         exact perm_keys_erase (hperm.symm.trans m.index_perm)
       index_ordered := Heap.remove_ordered nonceLess_strictWeak m.index_ordered
         (List.idxOf_lt_length_iff.2 (m.mem_index.2 ⟨tx, h⟩)) }, true)

/-- `Flatten` (core/tx_list.go:231-237): the transactions in nonce order. -/
def flatten : List Transaction :=
  (GoMap.values m.items).insertionSort fun a b => a.accountNonce ≤ b.accountNonce

/-! ## In nonce order -/

variable {m}

theorem mem_flatten : t ∈ m.flatten ↔ m.get t.accountNonce = some t :=
  (List.perm_insertionSort _ _).mem_iff.trans (mem_values_iff_lookup m.nonce_eq)

variable (m)

theorem flatten_nodup : m.flatten.Nodup :=
  (List.perm_insertionSort _ _).nodup_iff.2 (values_nodup m.nonce_eq)

theorem flatten_length : m.flatten.length = m.len :=
  (List.perm_insertionSort _ _).length_eq.trans (GoMap.size_eq_length_values _).symm

theorem length_flatten : m.flatten.length = m.index.length := by
  rw [m.flatten_length, m.index_perm.length_eq]
  simp [len, GoMap.size, AList.keys, List.keys]

theorem flatten_sorted : m.flatten.Pairwise fun a b => a.accountNonce ≤ b.accountNonce := by
  have : Std.Total fun a b : Transaction => a.accountNonce ≤ b.accountNonce :=
    ⟨fun a b => UInt64.le_total _ _⟩
  have : IsTrans Transaction fun a b => a.accountNonce ≤ b.accountNonce :=
    ⟨fun a b c => UInt64.le_trans⟩
  exact List.pairwise_insertionSort _ _

variable {m}

/-- Stored transactions with one nonce are the same. -/
theorem eq_of_nonce {a b : Transaction} (ha : m.get a.accountNonce = some a)
    (hb : m.get b.accountNonce = some b) (h : a.accountNonce = b.accountNonce) : a = b := by
  rw [h, hb] at ha
  exact (Option.some.inj ha).symm

theorem flatten_lt (m : TxSortedMap) :
    m.flatten.Pairwise fun a b => a.accountNonce < b.accountNonce := by
  refine (m.flatten_sorted.and m.flatten_nodup).imp_of_mem fun ha hb h => ?_
  exact UInt64.lt_of_le_of_ne h.1 fun heq => h.2 (eq_of_nonce (mem_flatten.1 ha)
    (mem_flatten.1 hb) heq)

/-- There is one list of the stored transactions in nonce order. -/
theorem flatten_eq {txs : List Transaction} (hnd : txs.Nodup)
    (hsorted : txs.Pairwise fun a b => a.accountNonce ≤ b.accountNonce)
    (hmem : ∀ t, t ∈ txs ↔ m.get t.accountNonce = some t) : m.flatten = txs := by
  refine List.Perm.eq_of_pairwise (fun a b ha hb hab hba => ?_) m.flatten_sorted hsorted ?_
  · exact eq_of_nonce (mem_flatten.1 ha) ((hmem b).1 hb) (UInt64.le_antisymm hab hba)
  · rw [List.perm_ext_iff_of_nodup m.flatten_nodup hnd]
    exact fun t => mem_flatten.trans (hmem t).symm

/-- What is split off in nonce order is removed. -/
theorem removes_of_flatten {m' : TxSortedMap} {removed : List Transaction}
    (h : m.flatten.Perm (removed ++ m'.flatten)) : Removes m.items m'.items removed := by
  have hmem : ∀ t, m.get t.accountNonce = some t ↔
      t ∈ removed ∨ m'.get t.accountNonce = some t := by
    intro t
    rw [← mem_flatten, h.mem_iff, List.mem_append, mem_flatten]
  obtain ⟨hnd, -, hapart⟩ := List.nodup_append.1 (h.nodup_iff.1 m.flatten_nodup)
  refine ⟨fun n t => ⟨fun ht => ?_, fun ⟨ht, hnot⟩ => ?_⟩, fun t ht => (hmem t).2 (Or.inl ht), hnd⟩
  · obtain rfl := m'.nonce_of_get ht
    exact ⟨(hmem t).2 (Or.inr ht), fun hr => hapart t hr t (mem_flatten.2 ht) rfl⟩
  · obtain rfl := m.nonce_of_get ht
    exact ((hmem t).1 ht).resolve_left hnot

/-! ## What the operations remove -/

/-- The front of the heap is the lowest nonce. -/
theorem head_le {k : UInt64} (hhead : m.index.head? = some n) (hk : m.get k = some tx) :
    n ≤ k := by
  obtain ⟨i, hi, hik⟩ := List.mem_iff_getElem.1 (m.mem_index.2 ⟨tx, hk⟩)
  have hle := m.index_ordered.front_le nonceLess_strictWeak hi n k ?_ ?_
  · exact UInt64.le_iff_toNat_le.2 (nonceLess_eq_false.1 hle)
  · rw [← hhead, List.head?_eq_getElem?]
  · rw [List.getElem?_eq_getElem hi, hik]

theorem flatten_eq_nil (h : m.index = []) : m.flatten = [] := by
  refine flatten_eq List.nodup_nil .nil fun t => ?_
  simp only [List.not_mem_nil, false_iff]
  intro ht
  have hmem := m.mem_index.2 ⟨t, ht⟩
  simp [h] at hmem

/-- `heap.Pop` takes the first transaction in nonce order. -/
theorem popMin_cases (m : TxSortedMap) :
    m.popMin = none ∧ m.index = [] ∧ m.flatten = [] ∨
    ∃ tx m', m.popMin = some (tx, m') ∧ m.index.head? = some tx.accountNonce ∧
      m.flatten = tx :: m'.flatten := by
  unfold popMin
  split
  · rename_i hpop
    have hnil := (Heap.pop_eq_none_iff nonceLess).1 hpop
    exact Or.inl ⟨rfl, hnil, flatten_eq_nil hnil⟩
  · rename_i nonce index' hpop
    have hmem : nonce ∈ m.index := (Heap.pop_perm nonceLess hpop).mem_iff.2 List.mem_cons_self
    have hhead : m.index.head? = some nonce := by
      rw [List.head?_eq_getElem?]
      exact Heap.pop_front nonceLess hpop
    obtain ⟨tx, htx⟩ := m.mem_index.1 hmem
    obtain rfl : tx.accountNonce = nonce := m.nonce_eq nonce tx htx
    rw [htx]
    refine Or.inr ⟨tx, _, rfl, hhead, ?_⟩
    generalize hm' : TxSortedMap.mk .. = m'
    have hget : ∀ n, m'.get n = if n = tx.accountNonce then none else m.get n := by
      intro n
      rw [← hm']
      exact GoMap.lookup_erase_eq _ _ _
    refine flatten_eq ?_ ?_ fun t => ?_
    · refine List.nodup_cons.2 ⟨fun hin => ?_, m'.flatten_nodup⟩
      rw [mem_flatten, hget, if_pos rfl] at hin
      cases hin
    · refine List.pairwise_cons.2 ⟨fun t ht => ?_, m'.flatten_sorted⟩
      rw [mem_flatten, hget] at ht
      split_ifs at ht
      exact head_le hhead ht
    · rw [List.mem_cons, mem_flatten, hget]
      by_cases hn : t.accountNonce = tx.accountNonce
      · rw [hn, if_pos rfl]
        have hstored : m.get tx.accountNonce = some tx := htx
        simp [hstored, eq_comm]
      · simp only [hn, if_false, or_iff_right_iff_imp]
        rintro rfl
        exact absurd rfl hn

theorem le_of_mem_flatten {rest : List Transaction} (h : m.flatten = tx :: rest)
    (ht : t ∈ m.flatten) : tx.accountNonce ≤ t.accountNonce := by
  have hsorted := m.flatten_sorted
  rw [h] at hsorted ht
  rcases List.mem_cons.1 ht with rfl | ht
  · exact UInt64.le_refl _
  · exact List.rel_of_pairwise_cons hsorted ht

theorem forwardLoop_spec (threshold : UInt64) (fuel : ℕ) (m : TxSortedMap)
    (removed : List Transaction) (hfuel : m.flatten.length ≤ fuel) :
    ∃ more, (forwardLoop threshold fuel m removed).2 = removed ++ more ∧
      m.flatten = more ++ (forwardLoop threshold fuel m removed).1.flatten ∧
      (∀ t ∈ more, t.accountNonce < threshold) ∧
      ∀ t ∈ (forwardLoop threshold fuel m removed).1.flatten, ¬ t.accountNonce < threshold := by
  induction fuel generalizing m removed with
  | zero =>
    have hnil : m.flatten = [] := List.length_eq_zero_iff.1 (by omega)
    exact ⟨[], by simp [forwardLoop], rfl, by simp, by simp [forwardLoop, hnil]⟩
  | succ fuel ih =>
    rcases m.popMin_cases with ⟨-, hidx, hnil⟩ | ⟨tx, m', hpop, hhead, hflat⟩
    · simp only [forwardLoop, hidx, List.head?_nil]
      exact ⟨[], by simp, rfl, by simp, by simp [hnil]⟩
    · simp only [forwardLoop, hhead, hpop]
      split_ifs with hlt
      · obtain ⟨more, heq, hsplit, hbelow, habove⟩ := ih m' (removed ++ [tx])
          (by simpa [hflat] using hfuel)
        refine ⟨tx :: more, by simpa using heq, ?_, ?_, habove⟩
        · rw [hflat, List.cons_append, ← hsplit]
        · simpa using ⟨hlt, hbelow⟩
      · refine ⟨[], by simp, rfl, by simp, fun t ht hbelow => hlt ?_⟩
        exact UInt64.lt_of_le_of_lt (le_of_mem_flatten hflat ht) hbelow

theorem forward_spec (m : TxSortedMap) (threshold : UInt64) :
    m.flatten = (m.forward threshold).2 ++ (m.forward threshold).1.flatten ∧
      (∀ t ∈ (m.forward threshold).2, t.accountNonce < threshold) ∧
      ∀ t ∈ (m.forward threshold).1.flatten, ¬ t.accountNonce < threshold := by
  obtain ⟨more, heq, hspec⟩ := forwardLoop_spec threshold m.index.length m [] m.length_flatten.le
  rw [List.nil_append] at heq
  rw [forward, heq]
  exact hspec

theorem forward_removes (m : TxSortedMap) (threshold : UInt64) :
    Removes m.items (m.forward threshold).1.items (m.forward threshold).2 :=
  removes_of_flatten (.of_eq (m.forward_spec threshold).1)

theorem mem_forward {threshold : UInt64} :
    t ∈ (m.forward threshold).2 ↔ m.get t.accountNonce = some t ∧ t.accountNonce < threshold := by
  obtain ⟨hsplit, hbelow, habove⟩ := m.forward_spec threshold
  rw [← mem_flatten, hsplit, List.mem_append]
  constructor
  · exact fun ht => ⟨Or.inl ht, hbelow t ht⟩
  · rintro ⟨ht | ht, hlt⟩
    · exact ht
    · exact absurd hlt (habove t ht)

theorem filter_removes (m : TxSortedMap) (ord : RangeOrder) (p : Transaction → Bool) :
    Removes m.items (m.filter ord p).1.items (m.filter ord p).2 := by
  have hrem := filterItems_removes ord p m.nonce_eq
  simp only [filter]
  split_ifs with hnil
  · rw [List.isEmpty_iff.1 hnil]
    exact Removes.refl _
  · exact hrem

theorem mem_filter {ord : RangeOrder} :
    t ∈ (m.filter ord p).2 ↔ m.get t.accountNonce = some t ∧ p t = true := by
  have hsnd : (m.filter ord p).2 = (filterItems ord p m.items).2 := by
    simp only [filter]
    split_ifs <;> rfl
  rw [hsnd]
  exact mem_filterItems m.nonce_eq

theorem remove_eq_of_none {nonce : UInt64} (h : m.get nonce = none) :
    m.remove nonce = (m, false) := by
  unfold remove
  split
  · rfl
  · rename_i tx htx
    exact absurd (h.symm.trans htx) (by simp)

theorem remove_spec (m : TxSortedMap) (nonce : UInt64) :
    ((m.remove nonce).2 = true ↔ ∃ tx, m.get nonce = some tx) ∧
      ∀ n, (m.remove nonce).1.get n = if n = nonce then none else m.get n := by
  unfold remove
  split
  · rename_i hnone
    have hget : m.get nonce = none := hnone
    refine ⟨by simp [hget], fun n => ?_⟩
    split_ifs with hn
    · rw [hn, hget]
    · rfl
  · rename_i tx htx
    exact ⟨by simp only [true_iff]; exact ⟨tx, htx⟩, GoMap.lookup_erase_eq _ _⟩

theorem remove_removes {nonce : UInt64} (h : m.get nonce = some tx) :
    (m.remove nonce).2 = true ∧ Removes m.items (m.remove nonce).1.items [tx] := by
  obtain ⟨hfound, hget⟩ := m.remove_spec nonce
  obtain rfl := m.nonce_of_get h
  refine ⟨hfound.2 ⟨tx, h⟩, fun n t => (Eq.congr_left (hget n)).trans ?_,
    fun t ht => List.mem_singleton.1 ht ▸ h, List.nodup_singleton tx⟩
  rw [List.mem_singleton]
  split_ifs with hn
  · subst hn
    simp [show m.items.lookup tx.accountNonce = some tx from h, eq_comm]
  · refine (and_iff_left_of_imp fun ht htx => hn ?_).symm
    rw [← m.nonce_eq n t ht, htx]

variable (m)

theorem sortedIndex_eq : m.sortedIndex = m.flatten.map fun t => t.accountNonce := by
  have hvalues := GoMap.map_values (m := m.items) fun {n tx} => m.nonce_eq n tx
  have hperm : m.sortedIndex.Perm (m.flatten.map fun t => t.accountNonce) := by
    refine (m.sortedIndex_perm.trans m.index_perm).trans ?_
    rw [← hvalues]
    exact ((List.perm_insertionSort _ _).map _).symm
  refine List.Perm.eq_of_pairwise (fun a b _ _ => UInt64.le_antisymm)
    (List.pairwise_insertionSort _ _) ?_ hperm
  exact List.pairwise_map.2 m.flatten_sorted

variable (threshold : ℕ)

/-- `Cap` splits off the end in nonce order. -/
theorem cap_spec :
    (m.cap threshold).1.flatten = m.flatten.take threshold ∧
      (m.cap threshold).2.reverse = m.flatten.drop threshold := by
  simp only [cap]
  split_ifs with hle
  · rw [← m.flatten_length] at hle
    rw [List.take_of_length_le hle, List.drop_of_length_le hle]
    exact ⟨rfl, rfl⟩
  · have hsub := List.take_sublist threshold m.flatten
    have hsplit := List.take_append_drop threshold m.flatten
    have hapart := m.flatten_lt
    rw [← hsplit, List.pairwise_append] at hapart
    constructor
    · refine flatten_eq (m.flatten_nodup.sublist hsub) (m.flatten_sorted.sublist hsub) fun t => ?_
      refine Iff.trans ?_ m.mem_eraseAll_lookup.symm
      simp only [List.mem_reverse, sortedIndex_eq, ← List.map_drop, List.mem_map, not_exists,
        not_and]
      constructor
      · intro ht
        refine ⟨mem_flatten.1 (hsub.subset ht), fun d hd heq => ?_⟩
        have hlt := hapart.2.2 t ht d hd
        rw [heq] at hlt
        exact UInt64.lt_irrefl _ hlt
      · rintro ⟨ht, hnot⟩
        rw [← mem_flatten, ← hsplit, List.mem_append] at ht
        exact ht.resolve_right fun hd => hnot t hd rfl
    · change ((m.sortedIndex.drop threshold).reverse.filterMap _).reverse = _
      rw [sortedIndex_eq, ← List.map_drop, ← List.map_reverse, List.filterMap_map]
      have hall : ∀ t ∈ (m.flatten.drop threshold).reverse,
          (m.items.lookup ∘ fun t => t.accountNonce) t = some t := fun t ht =>
        mem_flatten.1 (List.mem_of_mem_drop (List.mem_reverse.1 ht))
      rw [List.filterMap_congr hall, List.filterMap_some, List.reverse_reverse]

theorem flatten_cap : m.flatten = (m.cap threshold).1.flatten ++ (m.cap threshold).2.reverse := by
  obtain ⟨htake, hdrop⟩ := m.cap_spec threshold
  rw [htake, hdrop, List.take_append_drop]

theorem cap_removes : Removes m.items (m.cap threshold).1.items (m.cap threshold).2 := by
  refine removes_of_flatten ?_
  rw [m.flatten_cap threshold]
  exact List.perm_append_comm.trans ((List.reverse_perm _).append_right _)

/-- `Cap` keeps as many transactions as it is told to. -/
theorem cap_len : (m.cap threshold).1.len = min threshold m.len := by
  rw [← flatten_length, (m.cap_spec threshold).1, List.length_take, flatten_length]

variable {m threshold}

/-- What `Cap` keeps is below what it drops. -/
theorem cap_lt {threshold : ℕ} {d : Transaction} (ht : (m.cap threshold).1.get n = some t)
    (hd : d ∈ (m.cap threshold).2) : n < d.accountNonce := by
  have hsorted := m.flatten_lt
  rw [m.flatten_cap threshold, List.pairwise_append] at hsorted
  obtain rfl := nonce_of_get _ ht
  exact hsorted.2.2 t (mem_flatten.2 ht) d (List.mem_reverse.2 hd)

/-- The loop of `Ready`, on a map with no nonce below `next`.  Past the last nonce `next` wraps
    around to zero, but the map is empty then. -/
theorem readyLoop_spec (fuel : ℕ) (next : UInt64) (m : TxSortedMap) (ready : List Transaction)
    (hfuel : m.flatten.length ≤ fuel) (hmin : ∀ t ∈ m.flatten, next ≤ t.accountNonce) :
    ∃ more, (readyLoop fuel next m ready).2 = ready ++ more ∧
      m.flatten = more ++ (readyLoop fuel next m ready).1.flatten ∧
      more.map (fun t => t.accountNonce.toNat) = List.range' next.toNat more.length ∧
      ∀ t ∈ (readyLoop fuel next m ready).1.flatten,
        next.toNat + more.length < t.accountNonce.toNat := by
  induction fuel generalizing next m ready with
  | zero =>
    have hnil : m.flatten = [] := List.length_eq_zero_iff.1 (by omega)
    exact ⟨[], by simp [readyLoop], rfl, rfl, by simp [readyLoop, hnil]⟩
  | succ fuel ih =>
    rcases m.popMin_cases with ⟨-, hidx, hnil⟩ | ⟨tx, m', hpop, hhead, hflat⟩
    · simp only [readyLoop, hidx, List.head?_nil, reduceCtorEq, if_false]
      exact ⟨[], by simp, rfl, rfl, by simp [hnil]⟩
    · simp only [readyLoop, hhead, hpop, Option.some.injEq]
      split_ifs with hnext
      · subst hnext
        -- what is left is above the nonce that was popped
        have hleft : ∀ t ∈ m'.flatten, tx.accountNonce.toNat < t.accountNonce.toNat := by
          have hlt := m.flatten_lt
          rw [hflat] at hlt
          exact fun t ht => UInt64.lt_iff_toNat_lt.1 (List.rel_of_pairwise_cons hlt ht)
        have hsucc : (tx.accountNonce + 1).toNat = (tx.accountNonce.toNat + 1) % 2 ^ 64 := by
          simp
        have hmin' : ∀ t ∈ m'.flatten, tx.accountNonce + 1 ≤ t.accountNonce := by
          intro t ht
          have hgt := hleft t ht
          have hbound := t.accountNonce.toNat_lt
          rw [UInt64.le_iff_toNat_le, hsucc]
          omega
        obtain ⟨more, heq, hsplit, hnonces, hgap⟩ := ih (tx.accountNonce + 1) m' (ready ++ [tx])
          (by simpa [hflat] using hfuel) hmin'
        refine ⟨tx :: more, by simpa using heq, by rw [hflat, List.cons_append, ← hsplit], ?_, ?_⟩
        · cases more with
          | nil => rfl
          | cons t more =>
            have hgt := hleft t (hsplit ▸ List.mem_cons_self)
            have hbound := t.accountNonce.toNat_lt
            rw [hsucc, Nat.mod_eq_of_lt (by omega)] at hnonces
            exact congrArg (tx.accountNonce.toNat :: ·) hnonces
        · intro t ht
          have hin : t ∈ m'.flatten := hsplit ▸ List.mem_append_right _ ht
          have hgt := hleft t hin
          have hbound := t.accountNonce.toNat_lt
          have hnot := hgap t ht
          rw [hsucc, Nat.mod_eq_of_lt (by omega)] at hnot
          rw [List.length_cons]
          omega
      · refine ⟨[], by simp, rfl, rfl, fun t ht => ?_⟩
        have hle := le_of_mem_flatten hflat ht
        have hmin' := hmin tx (by simp [hflat])
        have hne : tx.accountNonce.toNat ≠ next.toNat := fun h => hnext (UInt64.toNat_inj.1 h)
        rw [UInt64.le_iff_toNat_le] at hle hmin'
        rw [List.length_nil]
        omega

/-- What `Ready` returns: nothing if every nonce is above `start`, and otherwise the nonces from
    the lowest one up to a gap. -/
theorem ready_spec (m : TxSortedMap) (start : UInt64) :
    (m.ready start = (m, []) ∧ ∀ t ∈ m.flatten, start < t.accountNonce) ∨
      ∃ n₀, (m.ready start).2 ≠ [] ∧ n₀ ≤ start.toNat ∧
        m.flatten = (m.ready start).2 ++ (m.ready start).1.flatten ∧
        ((m.ready start).2.map fun t => t.accountNonce.toNat) =
          List.range' n₀ (m.ready start).2.length ∧
        ∀ t ∈ (m.ready start).1.flatten,
          n₀ + (m.ready start).2.length < t.accountNonce.toNat := by
  unfold ready
  rcases m.popMin_cases with ⟨-, hidx, hnil⟩ | ⟨tx, m', hpop, hhead, hflat⟩
  · rw [hidx, List.head?_nil]
    exact Or.inl ⟨rfl, by simp [hnil]⟩
  · rw [hhead]
    dsimp only
    split_ifs with hlt
    · exact Or.inl ⟨rfl, fun t ht => UInt64.lt_of_lt_of_le hlt (le_of_mem_flatten hflat ht)⟩
    · obtain ⟨more, heq, hspec⟩ := readyLoop_spec m.index.length tx.accountNonce m []
        m.length_flatten.le fun t => le_of_mem_flatten hflat
      rw [List.nil_append] at heq
      rw [heq]
      refine Or.inr ⟨_, ?_, UInt64.le_iff_toNat_le.1 (UInt64.not_lt.1 hlt), hspec⟩
      rintro rfl
      have hin : tx ∈ m.flatten := hflat ▸ List.mem_cons_self
      rw [hspec.1] at hin
      have hgap := hspec.2.2 tx hin
      simp at hgap

theorem ready_removes (m : TxSortedMap) (start : UInt64) :
    Removes m.items (m.ready start).1.items (m.ready start).2 := by
  rcases m.ready_spec start with ⟨heq, -⟩ | ⟨-, -, -, hsplit, -⟩
  · rw [heq]
    exact Removes.refl _
  · exact removes_of_flatten (.of_eq hsplit)

end TxSortedMap

end Benzene
