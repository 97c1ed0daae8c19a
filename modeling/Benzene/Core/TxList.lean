import Benzene.Core.SortedMap

/-!
# The transactions of one account

Model of core/tx_list.go:245-407: `txList`, the list of an account with its cached cost and gas
caps.  The caps bound what is stored (a field), so that `Filter` may trust them.
-/

namespace Benzene

/-- `txList` (core/tx_list.go:250-256). -/
structure TxList where
  strict : Bool
  txs : TxSortedMap
  costcap : ℤ
  gascap : UInt64
  /-- The caps bound what is stored. -/
  cost_le : ∀ n tx, txs.get n = some tx → tx.cost ≤ costcap
  gas_le : ∀ n tx, txs.get n = some tx → tx.gasLimit ≤ gascap

namespace TxList

/-- `newTxList`. -/
def new (strict : Bool) : TxList where
  strict := strict
  txs := .empty
  costcap := 0
  gascap := 0
  cost_le n tx h := by simp [TxSortedMap.get, TxSortedMap.empty] at h
  gas_le n tx h := by simp [TxSortedMap.get, TxSortedMap.empty] at h

variable (l : TxList) (ord : RangeOrder)

/-- `l.txs.Get`. -/
def get (nonce : UInt64) : Option Transaction := l.txs.get nonce

/-- `Len`. -/
def len : ℕ := l.txs.len

/-- `Empty`. -/
def isEmpty : Bool := decide (l.len = 0)

/-- `Overlaps`. -/
def overlaps (tx : Transaction) : Bool := (l.get tx.accountNonce).isSome

/-- `Flatten`. -/
def flatten : List Transaction := l.txs.flatten

/-- `LastElement`; `none` is an index out of range. -/
def lastElement : Option Transaction := l.flatten.getLast?

/-- The price a replacement has to reach (core/tx_list.go:285-289); `100 + int64(priceBump)`
    wraps, and `Div` is Euclidean. -/
def bumpedPrice (old : Transaction) (priceBump : UInt64) : ℤ :=
  goInt (100 + priceBump) * old.price / 100

/-- The test of `Add` (core/tx_list.go:283-293): the transaction already at the nonce keeps its
    place. -/
def keepsOld (old tx : Transaction) (priceBump : UInt64) : Bool :=
  decide (tx.price ≤ old.price ∨ tx.price < bumpedPrice old priceBump)

/-- A list with one more transaction, and the caps raised to it. -/
def put (tx : Transaction) : TxList where
  strict := l.strict
  txs := l.txs.put tx
  costcap := if l.costcap < tx.cost then tx.cost else l.costcap
  gascap := if l.gascap < tx.gasLimit then tx.gasLimit else l.gascap
  cost_le n tx' h := by
    rw [TxSortedMap.get_put] at h
    by_cases hn : n = tx.accountNonce
    · simp only [hn, if_true, Option.some.injEq] at h
      subst h
      split_ifs <;> omega
    · simp only [hn, if_false] at h
      have hle := l.cost_le n tx' h
      split_ifs <;> omega
  gas_le n tx' h := by
    rw [TxSortedMap.get_put] at h
    by_cases hn : n = tx.accountNonce
    · simp only [hn, if_true, Option.some.injEq] at h
      subst h
      split_ifs with hg
      · exact UInt64.le_refl _
      · exact UInt64.not_lt.1 hg
    · simp only [hn, if_false] at h
      have hle := l.gas_le n tx' h
      split_ifs with hg
      · exact UInt64.le_trans hle (UInt64.le_of_lt hg)
      · exact hle

/-- `Add` (core/tx_list.go:279-304): the list, whether the transaction was inserted, and the one
    it replaced. -/
def add (tx : Transaction) (priceBump : UInt64) : TxList × Bool × Option Transaction :=
  let old := l.get tx.accountNonce
  match old with
  | some o => if keepsOld o tx priceBump then (l, false, none) else (l.put tx, true, old)
  | none => (l.put tx, true, old)

/-- A list whose transactions are among those of another, with its caps. -/
def withTxs (txs : TxSortedMap) (h : ∀ n tx, txs.get n = some tx → l.get n = some tx) : TxList where
  strict := l.strict
  txs := txs
  costcap := l.costcap
  gascap := l.gascap
  cost_le n tx htx := l.cost_le n tx (h n tx htx)
  gas_le n tx htx := l.gas_le n tx (h n tx htx)

variable {removed : List Transaction} {tx t : Transaction} {n gasLimit : UInt64} {costLimit : ℤ}
  {l' : TxList}

theorem get_of_removes {txs : TxSortedMap} (h : Removes l.txs.items txs.items removed) (n : UInt64)
    (tx : Transaction) (htx : txs.get n = some tx) : l.get n = some tx :=
  ((h.lookup_iff n tx).1 htx).1

/-- `Forward`. -/
def forward (threshold : UInt64) : TxList × List Transaction :=
  let r := l.txs.forward threshold
  (l.withTxs r.1 (l.get_of_removes (l.txs.forward_removes threshold)), r.2)

/-- The test of `Filter` (core/tx_list.go:332). -/
def unpayable (costLimit : ℤ) (gasLimit : UInt64) (tx : Transaction) : Bool :=
  decide (gasLimit < tx.gasLimit ∨ costLimit < tx.cost)

/-- The caps of `Filter` (core/tx_list.go:327-328), lowered to the limits. -/
def lowerCaps (costLimit : ℤ) (gasLimit : UInt64) (txs : TxSortedMap)
    (h : ∀ n tx, txs.get n = some tx → unpayable costLimit gasLimit tx = false) : TxList where
  strict := l.strict
  txs := txs
  costcap := costLimit
  gascap := gasLimit
  cost_le n tx htx := by
    have hp := h n tx htx
    simp only [unpayable, decide_eq_false_iff_not, not_or] at hp
    exact Int.not_lt.1 hp.2
  gas_le n tx htx := by
    have hp := h n tx htx
    simp only [unpayable, decide_eq_false_iff_not, not_or] at hp
    exact UInt64.not_lt.1 hp.1

/-- The lowest nonce of some transactions (core/tx_list.go:342-347). -/
def lowestNonce (txs : List Transaction) : UInt64 :=
  txs.foldl (fun lowest tx => if tx.accountNonce < lowest then tx.accountNonce else lowest)
    (UInt64.ofNat (2 ^ 64 - 1))

theorem payable_of_filter
    (h : (l.txs.filter ord (unpayable costLimit gasLimit)).1.get n = some tx) :
    unpayable costLimit gasLimit tx = false := by
  have hrem := l.txs.filter_removes ord (unpayable costLimit gasLimit)
  obtain ⟨htx, hnot⟩ := (hrem.lookup_iff n tx).1 h
  rw [TxSortedMap.mem_filter, l.txs.nonce_of_get htx, not_and] at hnot
  exact Bool.eq_false_iff.2 (hnot htx)

/-- What a strict list drops after its transactions from `lowest` on were removed. -/
def invalidated (items : GoMap UInt64 Transaction) (lowest : UInt64) :
    GoMap UInt64 Transaction × List Transaction :=
  if l.strict then filterItems ord (fun tx => decide (lowest < tx.accountNonce)) items
  else (items, [])

theorem invalidated_removes {items : GoMap UInt64 Transaction} (hf : FiledByNonce items)
    (lowest : UInt64) :
    Removes items (l.invalidated ord items lowest).1 (l.invalidated ord items lowest).2 := by
  unfold invalidated
  split_ifs
  · exact filterItems_removes ord _ hf
  · exact Removes.refl items

/-- `Filter` (core/tx_list.go:322-351): the list, the transactions over the limits, and those
    of a strict list that come after one of them. -/
def filter (costLimit : ℤ) (gasLimit : UInt64) : TxList × List Transaction × List Transaction :=
  if l.costcap ≤ costLimit ∧ l.gascap ≤ gasLimit then (l, [], [])
  else
    let r := l.txs.filter ord (unpayable costLimit gasLimit)
    if r.2.isEmpty then
      (l.lowerCaps costLimit gasLimit r.1 (fun _ _ => l.payable_of_filter ord), [], [])
    else
      let hrem := l.invalidated_removes ord r.1.nonce_eq (lowestNonce r.2)
      let rest := l.invalidated ord r.1.items (lowestNonce r.2)
      (l.lowerCaps costLimit gasLimit (.reheap ord rest.1 (hrem.filed r.1.nonce_eq))
        (fun n tx htx => l.payable_of_filter ord ((hrem.lookup_iff n tx).1 htx).1),
        r.2, rest.2)

/-- `Cap`. -/
def cap (threshold : ℕ) : TxList × List Transaction :=
  let r := l.txs.cap threshold
  (l.withTxs r.1 (l.get_of_removes (l.txs.cap_removes threshold)), r.2)

theorem get_remove {nonce : UInt64} (h : (l.txs.remove nonce).1.get n = some tx) :
    l.get n = some tx := by
  cases hnonce : l.txs.get nonce with
  | none => rwa [TxSortedMap.remove_eq_of_none hnonce] at h
  | some old => exact (((TxSortedMap.remove_removes hnonce).2.lookup_iff n tx).1 h).1

/-- `Remove` (core/tx_list.go:362-373): the list, whether the nonce was there, and the
    transactions a strict list drops with it. -/
def remove (tx : Transaction) : TxList × Bool × List Transaction :=
  let r := l.txs.remove tx.accountNonce
  let l' := l.withTxs r.1 fun _ _ => l.get_remove
  if r.2 then
    if l.strict then
      let p := fun tx' : Transaction => decide (tx.accountNonce < tx'.accountNonce)
      let rest := l'.txs.filter ord p
      (l'.withTxs rest.1 (l'.get_of_removes (l'.txs.filter_removes ord p)), true, rest.2)
    else (l', true, [])
  else (l', false, [])

/-- `Ready`. -/
def ready (start : UInt64) : TxList × List Transaction :=
  let r := l.txs.ready start
  (l.withTxs r.1 (l.get_of_removes (l.txs.ready_removes start)), r.2)

/-! ## Insertion -/

variable {l ord}

@[simp] theorem get_new (strict : Bool) (n : UInt64) : (new strict).get n = none := by
  simp [get, new, TxSortedMap.get, TxSortedMap.empty]

@[simp] theorem strict_put (tx : Transaction) : (l.put tx).strict = l.strict := rfl

theorem get_put (l : TxList) (tx : Transaction) (n : UInt64) :
    (l.put tx).get n = if n = tx.accountNonce then some tx else l.get n :=
  l.txs.get_put tx n

theorem add_of_none {priceBump : UInt64} (h : l.get tx.accountNonce = none) :
    l.add tx priceBump = (l.put tx, true, none) := by
  simp [add, h]

theorem add_of_some {old : Transaction} {priceBump : UInt64}
    (h : l.get tx.accountNonce = some old) :
    l.add tx priceBump =
      if keepsOld old tx priceBump then (l, false, none) else (l.put tx, true, some old) := by
  simp only [add, h]

theorem len_eq_zero_iff : l.len = 0 ↔ ∀ n, l.get n = none := by
  have hsize : l.len = (GoMap.values l.txs.items).length := GoMap.size_eq_length_values _
  rw [hsize, List.length_eq_zero_iff, List.eq_nil_iff_forall_not_mem]
  simp only [GoMap.mem_values_iff, not_exists]
  constructor
  · intro h n
    cases hn : l.get n with
    | none => rfl
    | some t => exact absurd hn (h t n)
  · intro h t n hn
    have hget : l.get n = some t := hn
    simp [h n] at hget

theorem len_ne_zero_of_get (h : l.get n = some t) : l.len ≠ 0 := by
  intro hlen
  have hnone := len_eq_zero_iff.1 hlen n
  simp [h] at hnone

@[simp] theorem isEmpty_iff : l.isEmpty = true ↔ l.len = 0 := by simp [isEmpty]

theorem len_put_of_none (h : l.get tx.accountNonce = none) : (l.put tx).len = l.len + 1 :=
  GoMap.size_insert_of_none h tx

theorem len_put_of_some {old : Transaction} (h : l.get tx.accountNonce = some old) :
    (l.put tx).len = l.len :=
  GoMap.size_insert_of_some h tx

theorem flatten_perm (l : TxList) : l.flatten.Perm (GoMap.values l.txs.items) :=
  List.perm_insertionSort _ _

theorem mem_flatten : tx ∈ l.flatten ↔ l.get tx.accountNonce = some tx :=
  TxSortedMap.mem_flatten

theorem flatten_nodup (l : TxList) : l.flatten.Nodup :=
  l.txs.flatten_nodup

theorem flatten_length (l : TxList) : l.flatten.length = l.len :=
  l.txs.flatten_length

theorem flatten_ne_nil (h : l.len ≠ 0) : l.flatten ≠ [] := by
  intro hnil
  rw [← l.flatten_length, hnil] at h
  exact h rfl

/-! ## What the operations remove -/

theorem nonce_of_get (h : l.get n = some tx) : tx.accountNonce = n :=
  l.txs.nonce_of_get h

/-- Transactions leave a list and are returned. -/
def Drops (l l' : TxList) (removed : List Transaction) : Prop :=
  Removes l.txs.items l'.txs.items removed ∧ l'.strict = l.strict

theorem Drops.refl (l : TxList) : Drops l l [] := ⟨Removes.refl _, rfl⟩

theorem Drops.get_iff (h : Drops l l' removed) :
    l'.get n = some t ↔ l.get n = some t ∧ t ∉ removed :=
  h.1.lookup_iff n t

theorem Drops.get_of_mem (h : Drops l l' removed) (ht : t ∈ removed) :
    l.get t.accountNonce = some t :=
  h.1.mem t ht

theorem Drops.len_eq (h : Drops l l' removed) : removed.length + l'.len = l.len :=
  h.1.size_eq l.txs.nonce_eq

theorem forward_drops (l : TxList) (threshold : UInt64) :
    Drops l (l.forward threshold).1 (l.forward threshold).2 :=
  ⟨l.txs.forward_removes threshold, rfl⟩

theorem cap_drops (l : TxList) (threshold : ℕ) :
    Drops l (l.cap threshold).1 (l.cap threshold).2 :=
  ⟨l.txs.cap_removes threshold, rfl⟩

theorem ready_drops (l : TxList) (start : UInt64) :
    Drops l (l.ready start).1 (l.ready start).2 :=
  ⟨l.txs.ready_removes start, rfl⟩

theorem filter_drops (l : TxList) (ord : RangeOrder) (costLimit : ℤ) (gasLimit : UInt64) :
    Drops l (l.filter ord costLimit gasLimit).1
      ((l.filter ord costLimit gasLimit).2.1 ++ (l.filter ord costLimit gasLimit).2.2) := by
  have hrem := l.txs.filter_removes ord (unpayable costLimit gasLimit)
  simp only [filter]
  split_ifs with hcap hnil
  · exact Drops.refl l
  · rw [List.isEmpty_iff.1 hnil] at hrem
    exact ⟨hrem, rfl⟩
  · exact ⟨hrem.trans (l.invalidated_removes ord (TxSortedMap.nonce_eq _) _), rfl⟩

variable (ord)

theorem remove_of_none (h : l.get tx.accountNonce = none) :
    (l.remove ord tx).2.1 = false ∧ (l.remove ord tx).1 = l := by
  have hrem := TxSortedMap.remove_eq_of_none h
  simp only [remove, hrem]
  exact ⟨rfl, rfl⟩

theorem remove_drops (h : l.get tx.accountNonce = some t) :
    (l.remove ord tx).2.1 = true ∧ Drops l (l.remove ord tx).1 (t :: (l.remove ord tx).2.2) := by
  obtain ⟨hfound, hrem⟩ := TxSortedMap.remove_removes h
  simp only [remove, hfound, if_true]
  split_ifs with hstrict
  · exact ⟨rfl, hrem.trans (TxSortedMap.filter_removes _ ord _), rfl⟩
  · exact ⟨rfl, hrem, rfl⟩

theorem remove_invalids (tx : Transaction) (h : l.strict = false) : (l.remove ord tx).2.2 = [] := by
  simp only [remove, h]
  split_ifs
  · contradiction
  · rfl
  · rfl

/-- A strict list keeps what is below the nonce. -/
theorem get_remove_of_strict {t' : Transaction} (hs : l.strict = true)
    (h : l.get tx.accountNonce = some t) :
    (l.remove ord tx).1.get n = some t' ↔ l.get n = some t' ∧ n < tx.accountNonce := by
  obtain ⟨hfound, hrem⟩ := TxSortedMap.remove_removes h
  have hmem : ∀ s, s ∈ (l.remove ord tx).2.2 ↔
      (l.txs.remove tx.accountNonce).1.get s.accountNonce = some s ∧
        tx.accountNonce < s.accountNonce := by
    intro s
    simp only [remove, hfound, hs, if_true]
    exact TxSortedMap.mem_filter.trans (by simp [withTxs])
  rw [(remove_drops ord h).2.get_iff, List.mem_cons, not_or, hmem]
  constructor
  · rintro ⟨hget, hne, hnot⟩
    have hn : t'.accountNonce = n := nonce_of_get hget
    refine ⟨hget, ?_⟩
    have hrest : (l.txs.remove tx.accountNonce).1.get t'.accountNonce = some t' :=
      (hrem.lookup_iff _ _).2 ⟨hn ▸ hget, by simpa using hne⟩
    have hle := UInt64.not_lt.1 fun hlt => hnot ⟨hrest, hlt⟩
    rw [hn] at hle
    refine UInt64.lt_of_le_of_ne hle fun heq => hne ?_
    rw [heq, h] at hget
    exact (Option.some.inj hget).symm
  · rintro ⟨hget, hlt⟩
    have hn : t'.accountNonce = n := nonce_of_get hget
    refine ⟨hget, fun heq => ?_, fun hnot => ?_⟩
    · rw [← hn, heq, nonce_of_get h] at hlt
      exact UInt64.lt_irrefl _ hlt
    · rw [hn] at hnot
      exact UInt64.lt_irrefl _ (UInt64.lt_trans hlt hnot.2)

theorem filter_invalids (costLimit : ℤ) (gasLimit : UInt64) (h : l.strict = false) :
    (l.filter ord costLimit gasLimit).2.2 = [] := by
  simp only [filter, invalidated, h]
  split_ifs
  · rfl
  · rfl
  · contradiction
  · rfl

variable {ord}

/-- The short circuit on the caps is exact: `Filter` returns what is over the limits. -/
theorem mem_filter :
    t ∈ (l.filter ord costLimit gasLimit).2.1 ↔
      l.get t.accountNonce = some t ∧ unpayable costLimit gasLimit t = true := by
  have hmem : t ∈ (l.txs.filter ord (unpayable costLimit gasLimit)).2 ↔ _ :=
    TxSortedMap.mem_filter
  simp only [filter]
  split_ifs with hcap hnil
  · simp only [List.not_mem_nil, false_iff, not_and, Bool.not_eq_true]
    intro ht
    have hcost := l.cost_le _ t ht
    have hgas := l.gas_le _ t ht
    simp only [unpayable, decide_eq_false_iff_not, not_or]
    exact ⟨UInt64.not_lt.2 (UInt64.le_trans hgas hcap.2), by omega⟩
  · rw [List.isEmpty_iff.1 hnil] at hmem
    exact hmem
  · exact hmem

theorem get_forward {threshold : UInt64} :
    (l.forward threshold).1.get n = some t ↔ l.get n = some t ∧ threshold ≤ n := by
  rw [(l.forward_drops threshold).get_iff]
  refine and_congr_right fun ht => ?_
  have hn : t.accountNonce = n := nonce_of_get ht
  have hmem : t ∈ (l.forward threshold).2 ↔ _ := TxSortedMap.mem_forward
  rw [hmem, hn, not_and, UInt64.not_lt]
  exact ⟨fun h => h ht, fun h _ => h⟩

/-- What a list that is not strict keeps of `Filter`. -/
theorem get_filter_of_not_strict (hs : l.strict = false) :
    (l.filter ord costLimit gasLimit).1.get n = some t ↔
      l.get n = some t ∧ unpayable costLimit gasLimit t = false := by
  have hd := l.filter_drops ord costLimit gasLimit
  rw [filter_invalids _ _ _ hs, List.append_nil] at hd
  rw [hd.get_iff, mem_filter, not_and, Bool.not_eq_true]
  refine and_congr_right fun ht => ?_
  rw [nonce_of_get ht]
  exact ⟨fun h => h ht, fun h _ => h⟩

theorem lowestNonce_lt_iff (txs : List Transaction) :
    lowestNonce txs < n ↔ ∃ t ∈ txs, t.accountNonce < n := by
  have hfold : ∀ (txs : List Transaction) (init : UInt64),
      txs.foldl (fun lowest tx => if tx.accountNonce < lowest then tx.accountNonce
        else lowest) init < n ↔ init < n ∨ ∃ t ∈ txs, t.accountNonce < n := by
    intro txs
    induction txs with
    | nil => simp
    | cons tx txs ih =>
      intro init
      rw [List.foldl_cons, ih, List.exists_mem_cons_iff, ← or_assoc]
      refine or_congr_left ?_
      split_ifs with hlt
      · exact ⟨Or.inr, fun h => h.elim (UInt64.lt_trans hlt) id⟩
      · exact ⟨Or.inl, fun h => h.elim id (UInt64.lt_of_le_of_lt (UInt64.not_lt.1 hlt))⟩
  -- nothing is above the start of the loop
  have hmax : ¬ UInt64.ofNat (2 ^ 64 - 1) < n := by
    have hlt := n.toNat_lt
    rw [UInt64.lt_iff_toNat_lt, show (UInt64.ofNat (2 ^ 64 - 1)).toNat = 2 ^ 64 - 1 by decide]
    omega
  rw [lowestNonce, hfold]
  exact or_iff_right hmax

/-- A strict list also drops the payable transactions that come after an unpayable one. -/
theorem mem_invalids :
    t ∈ (l.filter ord costLimit gasLimit).2.2 ↔
      l.strict = true ∧ (l.get t.accountNonce = some t ∧ unpayable costLimit gasLimit t = false) ∧
        ∃ r ∈ (l.filter ord costLimit gasLimit).2.1, r.accountNonce < t.accountNonce := by
  have hrem := l.txs.filter_removes ord (unpayable costLimit gasLimit)
  simp only [filter]
  split_ifs with hcap hnil
  · simp
  · simp
  · simp only [invalidated]
    split_ifs with hs
    · rw [mem_filterItems (TxSortedMap.nonce_eq _), hrem.lookup_iff, TxSortedMap.mem_filter,
        decide_eq_true_eq, lowestNonce_lt_iff]
      simp only [hs, true_and]
      refine and_congr_left' (and_congr_right fun ht => ?_)
      rw [not_and, Bool.not_eq_true]
      exact ⟨fun h => h ht, fun h _ => h⟩
    · simp [hs]

/-- What a strict list keeps of `Filter`: everything below the first unpayable transaction. -/
theorem get_filter_of_strict (hs : l.strict = true) :
    (l.filter ord costLimit gasLimit).1.get n = some t ↔
      l.get n = some t ∧
        ∀ n' t', l.get n' = some t' → unpayable costLimit gasLimit t' = true → n < n' := by
  rw [(l.filter_drops ord costLimit gasLimit).get_iff, List.mem_append]
  refine and_congr_right fun ht => ?_
  obtain rfl : t.accountNonce = n := nonce_of_get ht
  constructor
  · intro hnot n' t' ht' hun'
    obtain rfl : t'.accountNonce = n' := nonce_of_get ht'
    have hin' : t' ∈ (l.filter ord costLimit gasLimit).2.1 := mem_filter.2 ⟨ht', hun'⟩
    cases hun : unpayable costLimit gasLimit t with
    | true => exact absurd (Or.inl (mem_filter.2 ⟨ht, hun⟩)) hnot
    | false =>
      refine UInt64.lt_of_le_of_ne (UInt64.not_lt.1 fun hlt => hnot (Or.inr ?_)) fun heq => ?_
      · exact mem_invalids.2 ⟨hs, ⟨ht, hun⟩, t', hin', hlt⟩
      · rw [TxSortedMap.eq_of_nonce ht ht' heq, hun'] at hun
        cases hun
  · rintro hbelow (hin | hin)
    · exact UInt64.lt_irrefl _ (hbelow _ t ht (mem_filter.1 hin).2)
    · obtain ⟨-, -, r, hr, hlt⟩ := mem_invalids.1 hin
      obtain ⟨hget, hun⟩ := mem_filter.1 hr
      exact UInt64.lt_irrefl _ (UInt64.lt_trans (hbelow _ r hget hun) hlt)

/-- `Filter` splits the list exactly, whatever the caps: the transactions over a limit, those of
    a strict list that come after one of them, and the rest. -/
theorem filter_exact (l : TxList) (ord : RangeOrder) (costLimit : ℤ) (gasLimit : UInt64) :
    (∀ t, t ∈ (l.filter ord costLimit gasLimit).2.1 ↔
      t ∈ l.flatten ∧ (costLimit < t.cost ∨ gasLimit < t.gasLimit)) ∧
    (∀ t, t ∈ (l.filter ord costLimit gasLimit).2.2 ↔
      l.strict = true ∧ t ∈ l.flatten ∧ t ∉ (l.filter ord costLimit gasLimit).2.1 ∧
        ∃ r ∈ (l.filter ord costLimit gasLimit).2.1, r.accountNonce < t.accountNonce) ∧
    l.flatten.Perm ((l.filter ord costLimit gasLimit).2.1 ++
      (l.filter ord costLimit gasLimit).2.2 ++ (l.filter ord costLimit gasLimit).1.flatten) := by
  refine ⟨fun t => ?_, fun t => ?_, ?_⟩
  · rw [mem_filter, mem_flatten, unpayable, decide_eq_true_eq, or_comm]
  · rw [mem_invalids, mem_flatten, and_assoc]
    refine and_congr_right fun _ => and_congr_right fun ht => and_congr_left' ?_
    rw [mem_filter, not_and, Bool.not_eq_true]
    exact ⟨fun h _ => h, fun h => h ht⟩
  · have hsplit := (l.filter_drops ord costLimit gasLimit).1.values_perm l.txs.nonce_eq
    exact l.flatten_perm.trans (hsplit.trans ((flatten_perm _).symm.append_left _))

/-- What `Ready` returns: consecutive nonces from the lowest one up to a gap, or nothing if
    everything is above `start`. -/
theorem ready_spec (l : TxList) (start : UInt64) :
    ((l.ready start).2 = [] ∧ ∀ n t, l.get n = some t → start.toNat < n.toNat) ∨
      ∃ n₀, (l.ready start).2 ≠ [] ∧ ((l.ready start).2.map fun t => t.accountNonce.toNat) =
          List.range' n₀ (l.ready start).2.length ∧ n₀ ≤ start.toNat ∧
        (∀ n t, l.get n = some t → n₀ ≤ n.toNat) ∧
        ∀ n : UInt64, n.toNat = n₀ + (l.ready start).2.length → l.get n = none := by
  have hmem : ∀ {n t}, l.get n = some t → t ∈ l.txs.flatten ∧ t.accountNonce = n := fun h =>
    ⟨TxSortedMap.mem_flatten.2 (by rwa [nonce_of_get h]), nonce_of_get h⟩
  rcases l.txs.ready_spec start with ⟨heq, habove⟩ | ⟨n₀, hne, hle, hsplit, hnonces, hgap⟩
  · refine Or.inl ⟨congrArg Prod.snd heq, fun n t ht => ?_⟩
    obtain ⟨hin, rfl⟩ := hmem ht
    exact UInt64.lt_iff_toNat_lt.1 (habove t hin)
  · -- a stored nonce is in the run or above the gap
    have hcases : ∀ n t, l.get n = some t → n₀ ≤ n.toNat ∧
        n.toNat ≠ n₀ + (l.ready start).2.length := by
      intro n t ht
      obtain ⟨hin, rfl⟩ := hmem ht
      rw [hsplit, List.mem_append] at hin
      rcases hin with hin | hin
      · have hrun := List.mem_map_of_mem (f := fun t => t.accountNonce.toNat) hin
        rw [hnonces, List.mem_range'_1] at hrun
        exact ⟨hrun.1, hrun.2.ne⟩
      · have hgt := hgap t hin
        exact ⟨by omega, hgt.ne'⟩
    refine Or.inr ⟨n₀, hne, hnonces, hle, fun n t ht => (hcases n t ht).1, fun n hn => ?_⟩
    by_contra hsome
    obtain ⟨t, ht⟩ := Option.ne_none_iff_exists'.1 hsome
    exact (hcases n t ht).2 hn

/-- The last element has the highest nonce. -/
theorem lastElement_spec (h : l.lastElement = some t) :
    l.get t.accountNonce = some t ∧ ∀ n t', l.get n = some t' → n ≤ t.accountNonce := by
  refine ⟨mem_flatten.1 (List.mem_of_mem_getLast? h), fun n t' ht' => ?_⟩
  have hn : t'.accountNonce = n := nonce_of_get ht'
  have hsorted : l.flatten.Pairwise fun a b => a.accountNonce ≤ b.accountNonce :=
    TxSortedMap.flatten_sorted l.txs
  obtain ⟨init, hinit⟩ := List.getLast?_eq_some_iff.1 h
  have hmem : t' ∈ l.flatten := mem_flatten.2 (by rwa [hn])
  rw [hinit] at hsorted hmem
  rcases List.mem_append.1 hmem with hmem | hmem
  · rw [← hn]
    exact (List.pairwise_append.1 hsorted).2.2 t' hmem t (by simp)
  · rw [← hn, List.mem_singleton.1 hmem]
    exact UInt64.le_refl _

end TxList

end Benzene
