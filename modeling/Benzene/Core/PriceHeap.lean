import Benzene.Common.LazyHeap
import Benzene.Core.PricedList

/-!
# The price heap as a heap with lazy deletion

What the routines of `txPricedList` (core/tx_list.go:465-585) do to the entries of the heap, in
the terms of `LazyHeap`: the table is the lookup table of the pool, and the key of a transaction
its hash.

* `underpriced_swept`, `cap_swept`, `discard_swept`: stale entries go, with the counter, and the
  transactions returned go; all other entries stay, in heap order.
* `underpriced_front`, `discard_front`: what is in front of the heap.
* `discard_drop`: `Discard` returns the cheapest transactions that are not local.
* `cap_below`, `cap_rest`: `Cap` returns transactions below the threshold that are not local, and
  leaves entries that are local or not below it.
-/

namespace Benzene.TxPricedList

variable {C : Crypto} {all : TxLookup} {locals : AccountSet} {l l' : TxPricedList}
  {tx t : Transaction} {drop save : List Transaction} {fuel : ℕ} {slots threshold : ℤ}

/-! ## The order -/

theorem priceLess_strictWeak : Heap.StrictWeak priceLess where
  asymm := by
    intro a b hab
    simp only [priceLess, decide_eq_true_eq, decide_eq_false_iff_not] at hab ⊢
    rcases hab with hlt | ⟨heq, hlt⟩
    · omega
    · rintro (hgt | ⟨-, hgt⟩)
      · omega
      · exact UInt64.lt_asymm hlt hgt
  trans := by
    intro a b c hba hcb
    simp only [priceLess, decide_eq_false_iff_not, not_or, not_and, not_lt, UInt64.not_lt]
      at hba hcb ⊢
    refine ⟨by omega, fun hca => ?_⟩
    exact UInt64.le_trans (hcb.2 (by omega)) (hba.2 (by omega))

theorem price_le_of_not_priceLess (h : priceLess t tx = false) : tx.price ≤ t.price := by
  simp only [priceLess, decide_eq_false_iff_not, not_or, not_lt] at h
  exact h.1

/-- The first entry is a cheapest one. -/
theorem price_front_le {items : List Transaction} (ho : Heap.Ordered priceLess items)
    (hfront : items[0]? = some tx) (ht : t ∈ items) : tx.price ≤ t.price := by
  obtain ⟨k, hk, rfl⟩ := List.getElem_of_mem ht
  exact price_le_of_not_priceLess
    (Heap.Ordered.front_le priceLess_strictWeak ho hk tx _ hfront (List.getElem?_eq_getElem hk))

/-! ## The loops -/

/-- The heap after a loop, where `drop` has been taken out. -/
abbrev Swept (C : Crypto) (all : TxLookup) (locals : AccountSet) (l l' : TxPricedList)
    (drop : List Transaction) : Prop :=
  LazyHeap.Swept C.txHash all.all (AccountSet.containsTx C locals) l.items l.stales l'.items
    l'.stales drop

/-- The state of a loop. -/
def sweep (r : TxPricedList × List Transaction × List Transaction) :
    LazyHeap.Sweep Transaction :=
  ⟨r.1.items, r.1.stales, r.2.1, r.2.2⟩

/-- A loop pops entries. -/
abbrev Pops (C : Crypto) (all : TxLookup) (locals : AccountSet)
    (r r' : TxPricedList × List Transaction × List Transaction) : Prop :=
  Relation.ReflTransGen
    (LazyHeap.Pop priceLess C.txHash all.all (AccountSet.containsTx C locals)) (sweep r) (sweep r')

/-- One entry is popped. -/
abbrev Pop (C : Crypto) (all : TxLookup) (locals : AccountSet)
    (r r' : TxPricedList × List Transaction × List Transaction) : Prop :=
  LazyHeap.Pop priceLess C.txHash all.all (AccountSet.containsTx C locals) (sweep r) (sweep r')

section Pop

variable {items : List Transaction} (hpop : Heap.pop priceLess l.items = some (tx, items))
include hpop

theorem pop_stale (h : isStale C all tx = true) :
    Pop C all locals (l, drop, save) (⟨items, l.stales - 1⟩, drop, save) :=
  .stale hpop h

theorem pop_save : Pop C all locals (l, drop, save) (⟨items, l.stales⟩, drop, save ++ [tx]) :=
  .save hpop

theorem pop_drop (h : ¬ isStale C all tx = true)
    (hlocal : ¬ AccountSet.containsTx C locals tx = true) :
    Pop C all locals (l, drop, save) (⟨items, l.stales⟩, drop ++ [tx], save) :=
  .drop hpop (Bool.eq_false_of_not_eq_true h) (Bool.eq_false_of_not_eq_true hlocal)

end Pop

theorem capLoop_pops : Pops C all locals (l, drop, save)
    (capLoop C all locals threshold fuel l drop save) := by
  induction fuel generalizing l drop save with
  | zero => exact .refl
  | succ fuel ih =>
    rw [capLoop]
    cases hpop : Heap.pop priceLess l.items with
    | none => exact .refl
    | some r =>
      obtain ⟨x, items⟩ := r
      dsimp only
      split_ifs with hstale hprice hlocal
      · exact .head (pop_stale hpop hstale) ih
      · exact .single (pop_save hpop)
      · exact .head (pop_save hpop) ih
      · exact .head (pop_drop hpop hstale hlocal) ih

theorem discardLoop_pops : Pops C all locals (l, drop, save)
    (discardLoop C all locals fuel slots l drop save) := by
  induction fuel generalizing slots l drop save with
  | zero => exact .refl
  | succ fuel ih =>
    rw [discardLoop]
    split_ifs
    · cases hpop : Heap.pop priceLess l.items with
      | none => exact .refl
      | some r =>
        obtain ⟨x, items⟩ := r
        dsimp only
        split_ifs with hstale hlocal
        · exact .head (pop_stale hpop hstale) ih
        · exact .head (pop_save hpop) ih
        · exact .head (pop_drop hpop hstale hlocal) ih
    · exact .refl

theorem dropStale_pops : Pops C all locals (l, [], []) (dropStale C all fuel l, [], []) := by
  induction fuel generalizing l with
  | zero => exact .refl
  | succ fuel ih =>
    rw [dropStale]
    cases hpop : Heap.pop priceLess l.items with
    | none => exact .refl
    | some r =>
      obtain ⟨x, items⟩ := r
      dsimp only
      split_ifs with hstale
      · exact .head (pop_stale hpop hstale) ih
      · exact .refl

theorem length_put (l : TxPricedList) (tx : Transaction) :
    (l.put tx).items.length = l.items.length + 1 := by
  rw [put, (Heap.push_perm priceLess l.items tx).length_eq, List.length_cons]

theorem putAll_spec (l : TxPricedList) (txs : List Transaction) :
    (l.putAll txs).items.Perm (txs ++ l.items) ∧ (l.putAll txs).stales = l.stales ∧
      (Heap.Ordered priceLess l.items → Heap.Ordered priceLess (l.putAll txs).items) := by
  induction txs generalizing l with
  | nil => exact ⟨.refl _, rfl, id⟩
  | cons x txs ih =>
    obtain ⟨hperm, hstales, hordered⟩ := ih (l.put x)
    have hpush : (l.put x).items.Perm (x :: l.items) := Heap.push_perm priceLess l.items x
    refine ⟨hperm.trans ?_, hstales, fun ho => hordered ?_⟩
    · exact (hpush.append_left txs).trans List.perm_middle
    · exact Heap.push_ordered priceLess_strictWeak ho x

/-- A loop whose saved transactions are put back. -/
theorem Pops.swept (h : Pops C all locals (l, [], []) (l', drop, save)) :
    Swept C all locals l (l'.putAll save) drop ∧
      (Heap.Ordered priceLess l.items → Heap.Ordered priceLess (l'.putAll save).items) := by
  obtain ⟨hperm, hstales, hordered⟩ := putAll_spec l' save
  refine ⟨?_, fun ho => hordered (LazyHeap.Pop.ordered priceLess_strictWeak h ho)⟩
  rw [Swept, hstales]
  exact (LazyHeap.Pop.swept h rfl rfl).perm hperm

/-! ## Underpriced -/

theorem underpriced_eq (h : AccountSet.containsTx C locals tx = false) :
    underpriced C l all locals tx = (dropStale C all l.items.length l,
      (dropStale C all l.items.length l).items[0]?.any fun cheapest =>
        decide (tx.price ≤ cheapest.price)) := by
  simp only [underpriced, h, Bool.false_eq_true, if_false, List.head?_eq_getElem?]
  cases (dropStale C all l.items.length l).items[0]? <;> rfl

theorem underpriced_swept : Swept C all locals l (underpriced C l all locals tx).1 [] ∧
    (Heap.Ordered priceLess l.items →
      Heap.Ordered priceLess (underpriced C l all locals tx).1.items) := by
  cases hlocal : AccountSet.containsTx C locals tx with
  | true =>
    have heq : underpriced C l all locals tx = (l, false) := by simp [underpriced, hlocal]
    rw [heq]
    exact ⟨LazyHeap.Swept.refl _ _ _, id⟩
  | false =>
    rw [underpriced_eq hlocal]
    exact Pops.swept dropStale_pops

/-- In front of the heap there is no stale entry any more. -/
theorem dropStale_head (hfuel : l.items.length ≤ fuel)
    (h : (dropStale C all fuel l).items[0]? = some tx) : isStale C all tx = false := by
  induction fuel generalizing l with
  | zero =>
    rw [dropStale, List.eq_nil_of_length_eq_zero (Nat.le_zero.1 hfuel)] at h
    cases h
  | succ fuel ih =>
    rw [dropStale] at h
    cases hpop : Heap.pop priceLess l.items with
    | none =>
      rw [hpop] at h
      simp only at h
      rw [(Heap.pop_eq_none_iff priceLess).1 hpop] at h
      cases h
    | some r =>
      obtain ⟨head, items⟩ := r
      rw [hpop] at h
      simp only at h
      split_ifs at h with hstale
      · refine ih ?_ h
        have hlen := (Heap.pop_perm priceLess hpop).length_eq
        rw [List.length_cons] at hlen
        show items.length ≤ fuel
        omega
      · rw [Heap.pop_front priceLess hpop] at h
        obtain rfl := Option.some.inj h
        simpa using hstale

theorem underpriced_front (hremote : AccountSet.containsTx C locals tx = false)
    (h : (underpriced C l all locals tx).1.items[0]? = some t) : isStale C all t = false := by
  rw [underpriced_eq hremote] at h
  exact dropStale_head le_rfl h

/-! ## Cap -/

theorem cap_swept : Swept C all locals l (cap C l all locals threshold).1
    (cap C l all locals threshold).2 ∧ (Heap.Ordered priceLess l.items →
      Heap.Ordered priceLess (cap C l all locals threshold).1.items) :=
  Pops.swept capLoop_pops

/-- What the loop of `Cap` has dropped is below the threshold.  What it has saved is local or not
    below, and so is what is left. -/
theorem capLoop_spec (hfuel : l.items.length ≤ fuel) (ho : Heap.Ordered priceLess l.items)
    (hdrop : ∀ t ∈ drop, t.price < threshold)
    (hsave : ∀ t ∈ save, AccountSet.containsTx C locals t = true ∨ threshold ≤ t.price) :
    (∀ t ∈ (capLoop C all locals threshold fuel l drop save).2.1, t.price < threshold) ∧
      (∀ t ∈ (capLoop C all locals threshold fuel l drop save).2.2,
        AccountSet.containsTx C locals t = true ∨ threshold ≤ t.price) ∧
      ∀ t ∈ (capLoop C all locals threshold fuel l drop save).1.items, threshold ≤ t.price := by
  induction fuel generalizing l drop save with
  | zero =>
    refine ⟨hdrop, hsave, fun t ht => ?_⟩
    rw [capLoop, List.eq_nil_of_length_eq_zero (Nat.le_zero.1 hfuel)] at ht
    cases ht
  | succ fuel ih =>
    rw [capLoop]
    cases hpop : Heap.pop priceLess l.items with
    | none =>
      refine ⟨hdrop, hsave, fun t ht => ?_⟩
      dsimp only at ht
      rw [(Heap.pop_eq_none_iff priceLess).1 hpop] at ht
      cases ht
    | some r =>
      obtain ⟨x, items⟩ := r
      have hperm := Heap.pop_perm priceLess hpop
      have hlen : items.length ≤ fuel := by
        have := hperm.length_eq
        rw [List.length_cons] at this
        omega
      have ho' := Heap.pop_ordered priceLess_strictWeak ho hpop
      have hsave' : AccountSet.containsTx C locals x = true ∨ threshold ≤ x.price →
          ∀ t ∈ save ++ [x], AccountSet.containsTx C locals t = true ∨ threshold ≤ t.price := by
        intro hx t ht
        rcases List.mem_append.1 ht with ht | ht
        · exact hsave t ht
        · rw [List.mem_singleton.1 ht]
          exact hx
      dsimp only
      split_ifs with hstale hprice hlocal
      · exact ih hlen ho' hdrop hsave
      · refine ⟨hdrop, hsave' (Or.inr hprice), fun t ht => hprice.trans ?_⟩
        exact price_front_le ho (Heap.pop_front priceLess hpop)
          (hperm.mem_iff.2 (List.mem_cons_of_mem _ ht))
      · exact ih hlen ho' hdrop (hsave' (Or.inl hlocal))
      · refine ih hlen ho' (fun t ht => ?_) hsave
        rcases List.mem_append.1 ht with ht | ht
        · exact hdrop t ht
        · rw [List.mem_singleton.1 ht]
          exact not_le.1 hprice

theorem cap_below (ho : Heap.Ordered priceLess l.items)
    (ht : t ∈ (cap C l all locals threshold).2) : t.price < threshold :=
  (capLoop_spec le_rfl ho (by simp) (by simp)).1 t ht

theorem cap_rest (ho : Heap.Ordered priceLess l.items)
    (ht : t ∈ (cap C l all locals threshold).1.items) :
    AccountSet.containsTx C locals t = true ∨ threshold ≤ t.price := by
  obtain ⟨-, hsave, hrest⟩ :=
    @capLoop_spec C all locals l [] [] l.items.length threshold le_rfl ho (by simp) (by simp)
  rcases List.mem_append.1 ((putAll_spec _ _).1.mem_iff.1 ht) with ht | ht
  · exact hsave t ht
  · exact Or.inr (hrest t ht)

/-! ## Discard -/

theorem discard_swept (h : discard C l all locals slots = some (l', drop)) :
    Swept C all locals l l' drop ∧
      (Heap.Ordered priceLess l.items → Heap.Ordered priceLess l'.items) := by
  simp only [discard] at h
  split_ifs at h
  · obtain ⟨rfl, rfl⟩ := Prod.mk.inj (Option.some.inj h)
    exact ⟨LazyHeap.Swept.refl _ _ _, id⟩
  · obtain ⟨rfl, rfl⟩ := Prod.mk.inj (Option.some.inj h)
    exact Pops.swept discardLoop_pops

/-- `Discard` panics if it is to free more slots than the heap has entries, and there are no local
    accounts. -/
theorem discard_eq_none_iff (hslots : 0 < slots) : discard C l all locals slots = none ↔
    AccountSet.isEmpty locals = true ∧ (l.items.length : ℤ) < slots := by
  by_cases hempty : AccountSet.isEmpty locals = true
  · have htarget : discardTarget C l locals slots = slots := if_pos hempty
    simp only [discard, htarget, hempty, true_and]
    split_ifs with hzero hpanic
    · omega
    · simp only [true_iff]
      omega
    · simp only [false_iff]
      omega
  · -- no more slots than entries are asked for
    have htarget : discardTarget C l locals slots =
        min slots (l.items.countP fun tx => !AccountSet.containsTx C locals tx) := if_neg hempty
    have hle : l.items.countP (fun tx => !AccountSet.containsTx C locals tx) ≤ l.items.length :=
      List.countP_le_length
    simp only [discard, htarget, hempty]
    split_ifs with hzero hpanic
    · simp
    · omega
    · simp

theorem containsTx_empty (tx : Transaction) : AccountSet.containsTx C ∅ tx = false := by
  unfold AccountSet.containsTx
  split
  · simp [AccountSet.contains]
  · rfl

/-- The entries that can be discarded, in the order in which they are popped: those of pooled
    transactions that are not local. -/
def cheapest (C : Crypto) (l : TxPricedList) (all : TxLookup) (locals : AccountSet) :
    List Transaction :=
  (Heap.drain priceLess l.items.length l.items).filter fun tx =>
    !isStale C all tx && !AccountSet.containsTx C locals tx

/-- The first transactions of a list, until they take the slots. -/
def takeSlots : ℤ → List Transaction → List Transaction
  | _, [] => []
  | slots, tx :: txs => if 0 < slots then tx :: takeSlots (slots - numSlots tx) txs else []

theorem mem_cheapest : tx ∈ cheapest C l all locals ↔
    tx ∈ l.items ∧ isStale C all tx = false ∧ AccountSet.containsTx C locals tx = false := by
  rw [cheapest, List.mem_filter, (Heap.drain_perm priceLess le_rfl).mem_iff]
  simp

theorem takeSlots_of_nonpos {txs : List Transaction} (h : slots ≤ 0) :
    takeSlots slots txs = [] := by
  cases txs with
  | nil => rfl
  | cons tx txs => rw [takeSlots, if_neg h.not_gt]

theorem takeSlots_eq_nil_iff {txs : List Transaction} :
    takeSlots slots txs = [] ↔ slots ≤ 0 ∨ txs = [] := by
  cases txs with
  | nil => simp [takeSlots]
  | cons tx txs =>
    rw [takeSlots]
    split_ifs with hslots
    · simp [hslots]
    · simp [not_lt.1 hslots]

theorem discardLoop_drop : (discardLoop C all locals fuel slots l drop save).2.1 =
    drop ++ takeSlots slots ((Heap.drain priceLess fuel l.items).filter fun tx =>
      !isStale C all tx && !AccountSet.containsTx C locals tx) := by
  induction fuel generalizing slots l drop save with
  | zero => simp [discardLoop, Heap.drain, takeSlots]
  | succ fuel ih =>
    rw [discardLoop, Heap.drain]
    split_ifs with hslots
    · cases Heap.pop priceLess l.items with
      | none => simp [takeSlots]
      | some r =>
        dsimp only
        split_ifs with hstale hlocal
        · rw [ih, List.filter_cons_of_neg (by simp [hstale])]
        · rw [ih, List.filter_cons_of_neg (by simp [hlocal])]
        · rw [ih, List.filter_cons_of_pos (by simp [hstale, hlocal]), takeSlots, if_pos hslots,
            List.append_assoc, List.singleton_append]
    · rw [takeSlots_of_nonpos (not_lt.1 hslots), List.append_nil]

/-- What `Discard` takes: the cheapest transactions that are not local, until they have the slots
    it aims at. -/
theorem discard_drop (h : discard C l all locals slots = some (l', drop)) :
    drop = takeSlots (discardTarget C l locals slots) (cheapest C l all locals) := by
  simp only [discard] at h
  split_ifs at h with hzero
  · obtain ⟨-, rfl⟩ := Prod.mk.inj (Option.some.inj h)
    rw [takeSlots_of_nonpos hzero.le]
  · obtain ⟨-, rfl⟩ := Prod.mk.inj (Option.some.inj h)
    rw [discardLoop_drop, List.nil_append, cheapest]

/-- `Discard` takes a transaction if there is one to take. -/
theorem discard_ne_nil_iff (h : discard C l all locals slots = some (l', drop)) :
    drop ≠ [] ↔ 0 < slots ∧ ∃ t ∈ l.items, isStale C all t = false ∧
      AccountSet.containsTx C locals t = false := by
  have hentries : (∃ t ∈ l.items, isStale C all t = false ∧
      AccountSet.containsTx C locals t = false) ↔ cheapest C l all locals ≠ [] := by
    simp only [← mem_cheapest]
    exact ⟨fun ⟨_, ht⟩ => List.ne_nil_of_mem ht, List.exists_mem_of_ne_nil _⟩
  rw [discard_drop h, ne_eq, takeSlots_eq_nil_iff, not_or, not_le, hentries]
  refine and_congr_left fun hne => ?_
  unfold discardTarget
  split_ifs
  · rfl
  · -- an entry that can be discarded is counted
    obtain ⟨t, ht⟩ := List.exists_mem_of_ne_nil _ hne
    obtain ⟨hmem, -, hremote⟩ := mem_cheapest.1 ht
    have hcount : 0 < l.items.countP fun tx => !AccountSet.containsTx C locals tx :=
      List.countP_pos_iff.2 ⟨t, hmem, by simp [hremote]⟩
    omega

/-- The first transaction of the heap is discarded. -/
theorem discard_front (hlocals : locals = ∅)
    (hfront : ∀ tx, l.items[0]? = some tx → isStale C all tx = false) (hslots : 0 < slots)
    (h : discard C l all locals slots = some (l', drop)) :
    ∃ tx ∈ drop, isStale C all tx = false := by
  subst hlocals
  have hpos : 0 < l.items.length := by
    by_contra hzero
    have hnone := (@discard_eq_none_iff C all ∅ l slots hslots).2
      ⟨by simp [AccountSet.isEmpty], by omega⟩
    rw [hnone] at h
    cases h
  have hget : l.items[0]? = some l.items[0] := List.getElem?_eq_getElem hpos
  obtain ⟨tx, htx⟩ := List.exists_mem_of_ne_nil _ ((discard_ne_nil_iff h).2
    ⟨hslots, _, List.getElem_mem hpos, hfront _ hget, containsTx_empty _⟩)
  exact ⟨tx, htx, (discard_swept h).1.live tx htx⟩

end Benzene.TxPricedList
