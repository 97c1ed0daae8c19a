import Benzene.Core.PoolMoves
import Benzene.Core.PriceHeap

/-!
# The books of the pool

The lookup table, the price heap and the set of local accounts are the books of the pool.  Whatever
else an operation does, it changes them in a few ways only: `Act`.  A `History` is a sequence of
acts, and an invariant of the books is shown once for every act (`History.rule`).
-/

namespace Benzene

/-! ## Acts -/

theorem AccountSet.add_ne_empty (as : AccountSet) (a : Address) : as.add a ≠ ∅ := by
  intro hempty
  have hlookup : (as.add a).lookup a = some () := AList.lookup_insert _
  rw [hempty] at hlookup
  cases hlookup

namespace TxLookup

variable {C : Crypto} {t : TxLookup} {tx : Transaction} {txs txs' : List Transaction}

/-- The transactions are in the table, also after those before them have left. -/
def Leaves (C : Crypto) : TxLookup → List Transaction → Prop
  | _, [] => True
  | t, tx :: txs => t.get (C.txHash tx) = some tx ∧ Leaves C (t.drop C tx) txs

/-- The table without the hashes of some transactions, which need not be there. -/
def expunge (C : Crypto) (t : TxLookup) (txs : List Transaction) : TxLookup :=
  txs.foldl (fun t tx => (t.remove (C.txHash tx)).getD t) t

theorem dropAll_append : t.dropAll C (txs ++ txs') = (t.dropAll C txs).dropAll C txs' :=
  List.foldl_append

theorem Leaves.append (h : t.Leaves C txs) (h' : (t.dropAll C txs).Leaves C txs') :
    t.Leaves C (txs ++ txs') := by
  induction txs generalizing t with
  | nil => exact h'
  | cons tx txs ih => exact ⟨h.1, ih h.2 h'⟩

theorem get_expunge (t : TxLookup) (txs : List Transaction) (k : Hash) :
    (t.expunge C txs).get k = if k ∈ txs.map C.txHash then none else t.get k := by
  induction txs generalizing t with
  | nil => simp [expunge]
  | cons tx txs ih =>
    have hremove : ((t.remove (C.txHash tx)).getD t).get k =
        if k = C.txHash tx then none else t.get k := by
      cases hget : t.get (C.txHash tx) with
      | none =>
        rw [remove, hget, Option.map_none, Option.getD_none]
        split_ifs with hk
        · rw [hk, hget]
        · rfl
      | some x =>
        rw [remove, hget, Option.map_some, Option.getD_some]
        exact GoMap.lookup_erase_eq _ _ _
    have hstep : (t.expunge C (tx :: txs)).get k =
        (((t.remove (C.txHash tx)).getD t).expunge C txs).get k := rfl
    rw [hstep, ih, hremove, List.map_cons]
    by_cases hk : k = C.txHash tx
    · simp [hk]
    · simp [hk]

variable {k : Hash} {x : Transaction}

theorem get_of_get_drop (h : (t.drop C tx).get k = some x) :
    t.get k = some x := by
  rw [get_drop] at h
  split_ifs at h
  exact h

theorem get_of_get_dropAll (h : (t.dropAll C txs).get k = some x) :
    t.get k = some x := by
  induction txs generalizing t with
  | nil => exact h
  | cons tx txs ih =>
    have hdrop : (t.drop C tx).get k = some x := ih h
    exact get_of_get_drop hdrop

theorem get_dropAll_of_mem (h : tx ∈ txs) : (t.dropAll C txs).get (C.txHash tx) = none := by
  obtain ⟨txs₁, txs₂, rfl⟩ := List.append_of_mem h
  rw [Option.eq_none_iff_forall_ne_some]
  intro x hx
  rw [dropAll_append] at hx
  have hdrop : (((t.dropAll C txs₁).drop C tx).dropAll C txs₂).get (C.txHash tx) = some x := hx
  have hget := get_of_get_dropAll hdrop
  rw [get_drop, if_pos rfl] at hget
  cases hget

theorem get_of_get_expunge (h : (t.expunge C txs).get k = some x) : t.get k = some x := by
  rw [get_expunge] at h
  split_ifs at h
  exact h

theorem count_le_of_sub {t' : TxLookup} (h : ∀ {k x}, t'.get k = some x → t.get k = some x) :
    t'.count ≤ t.count :=
  GoMap.size_le_of_lookup h

theorem count_lt_of_sub {t' : TxLookup} (h : ∀ {k x}, t'.get k = some x → t.get k = some x)
    (hk : (t.get k).isSome) (hk' : t'.get k = none) : t'.count < t.count :=
  GoMap.size_lt_of_lookup h hk hk'

end TxLookup

/-- The table, the heap and the local accounts of a pool. -/
structure Books where
  all : TxLookup
  priced : TxPricedList
  locals : AccountSet

namespace Books

variable {C : Crypto} {b b' b₁ b₂ : Books} {seen seen' new : List Transaction}

/-- What happens to the books, with the transactions that enter. -/
inductive Act (C : Crypto) : List Transaction → Books → Books → Prop
  /-- Transactions leave, and the heap is told. -/
  | left {b : Books} (ord : RangeOrder) {txs : List Transaction} (h : b.all.Leaves C txs) :
      Act C [] b { b with
        all := b.all.dropAll C txs
        priced := b.priced.removed ord (b.all.dropAll C txs) txs.length }
  /-- A transaction enters, and its account may become local. -/
  | entered {b : Books} (isLocal : Bool) {tx : Transaction}
      (h : b.all.get (C.txHash tx) = none) :
      Act C [tx] b {
        all := b.all.add C tx
        priced := b.priced.put tx
        locals := if isLocal then AccountSet.add b.locals (C.poolSender tx) else b.locals }
  /-- The heap gives up transactions, which leave. -/
  | swept {b : Books} {l : TxPricedList} {drop : List Transaction}
      (h : TxPricedList.Swept C b.all b.locals b.priced l drop)
      (ho : Heap.Ordered priceLess b.priced.items → Heap.Ordered priceLess l.items) :
      Act C [] b { b with all := b.all.expunge C drop, priced := l }

/-- A sequence of acts, with all the transactions that enter. -/
inductive History (C : Crypto) : List Transaction → Books → Books → Prop
  | refl (b : Books) : History C [] b b
  | tail {seen new : List Transaction} {b b₁ b₂ : Books} (h : History C seen b b₁)
      (hact : Act C new b₁ b₂) : History C (seen ++ new) b b₂

theorem Act.history (h : Act C new b b') : History C new b b' :=
  .tail (.refl b) h

theorem History.trans (h : History C seen b b₁) (h' : History C seen' b₁ b₂) :
    History C (seen ++ seen') b b₂ := by
  induction h' with
  | refl =>
    rw [List.append_nil]
    exact h
  | tail _ hact ih =>
    rw [← List.append_assoc]
    exact .tail (ih h) hact

/-- One history after another in which nothing enters. -/
theorem History.quiet (h : History C seen b b₁) (h' : History C [] b₁ b₂) :
    History C seen b b₂ :=
  List.append_nil seen ▸ h.trans h'

theorem History.loud (h : History C [] b b₁) (h' : History C seen b₁ b₂) :
    History C seen b b₂ :=
  h.trans h'

/-- An invariant of every act. -/
theorem History.rule (Inv : List Transaction → Books → Prop)
    (hact : ∀ {seen new b b'}, Inv seen b → Act C new b b' → Inv (seen ++ new) b')
    (h : History C seen' b b') (h0 : Inv seen b) : Inv (seen ++ seen') b' := by
  induction h with
  | refl =>
    rw [List.append_nil]
    exact h0
  | tail _ ha ih =>
    rw [← List.append_assoc]
    exact hact (ih h0) ha

/-- What removals do to the books: the transactions leave, and the heap is told or not. -/
def Unlists (C : Crypto) (outofbound : Bool) (txs : List Transaction) (b b' : Books) : Prop :=
  match outofbound with
  | true => History C [] b b'
  | false => b' = { b with all := b.all.expunge C txs }

theorem Unlists.nil {outofbound : Bool} : Unlists C outofbound [] b b := by
  cases outofbound with
  | true => exact .refl b
  | false => rfl

theorem Unlists.cons {outofbound : Bool} {tx : Transaction} {txs : List Transaction}
    (h : Unlists C outofbound [tx] b b₁) (h' : Unlists C outofbound txs b₁ b₂) :
    Unlists C outofbound (tx :: txs) b b₂ := by
  cases outofbound with
  | true => exact History.quiet h h'
  | false =>
    obtain rfl : b₁ = _ := h
    exact h'

/-! ## What a history does to the table and to the local accounts -/

/-- What is in the table was there before, or has entered. -/
theorem History.enters (h : History C seen b b') {k : Hash} {t : Transaction}
    (hk : b'.all.get k = some t) : b.all.get k = some t ∨ t ∈ seen := by
  induction h with
  | refl => exact Or.inl hk
  | @tail seen new b b₁ b₂ _ hact ih =>
    rw [List.mem_append]
    cases hact with
    | left ord hleaves => exact (ih (TxLookup.get_of_get_dropAll hk)).imp_right Or.inl
    | @entered _ isLocal tx hnone =>
      change (b₁.all.add C tx).get k = some t at hk
      rw [TxLookup.get_add] at hk
      split_ifs at hk
      · exact Or.inr (Or.inr (List.mem_singleton.2 (Option.some.inj hk).symm))
      · exact (ih hk).imp_right Or.inl
    | swept => exact (ih (TxLookup.get_of_get_expunge hk)).imp_right Or.inl

theorem History.count_le (h : History C seen b b') :
    b'.all.count ≤ b.all.count + seen.length := by
  induction h with
  | refl => exact Nat.le_refl _
  | @tail seen new b b₁ b₂ _ hact ih =>
    have hact : b₂.all.count ≤ b₁.all.count + new.length := by
      cases hact with
      | left => exact TxLookup.count_le_of_sub TxLookup.get_of_get_dropAll
      | entered isLocal hnone => exact (TxLookup.count_add hnone).le
      | swept => exact TxLookup.count_le_of_sub TxLookup.get_of_get_expunge
    rw [List.length_append]
    omega

/-- An account becomes local only when a transaction enters. -/
theorem History.locals_eq (h : History C seen b b') (hseen : seen = []) :
    b'.locals = b.locals := by
  induction h with
  | refl => rfl
  | tail _ hact ih =>
    obtain ⟨hold, hnew⟩ := List.append_eq_nil_iff.1 hseen
    cases hact with
    | left => exact ih hold
    | entered => cases hnew
    | swept => exact ih hold

/-- Local accounts stay local. -/
theorem History.locals_empty (h : History C seen b b') (hlocals : b'.locals = ∅) :
    b.locals = ∅ := by
  induction h with
  | refl => exact hlocals
  | @tail seen new b b₁ b₂ _ hact ih =>
    cases hact with
    | left => exact ih hlocals
    | @entered _ isLocal tx =>
      cases isLocal with
      | false => exact ih hlocals
      | true => exact absurd hlocals (AccountSet.add_ne_empty b₁.locals (C.poolSender tx))
    | swept => exact ih hlocals

end Books

namespace TxPool

def books (pool : TxPool) : Books := ⟨pool.all, pool.priced, pool.locals⟩

end TxPool

end Benzene
