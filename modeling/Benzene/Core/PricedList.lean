import Benzene.Core.SortedMap

/-!
# The lookup table and the price heap of the pool

Model of core/tx_pool.go:1449-1606 and core/tx_list.go:409-585.

* `AccountSet` is a set of addresses; the sender of a transaction is recovered with the signer
  of the pool (`poolSender`).
* `TxLookup` is the table of all pooled transactions by hash, with the number of slots they
  take.  Removing a hash that is not there dereferences a nil transaction: `none`.
* `TxPricedList` is a heap of transactions by price.  Transactions that leave the pool stay in
  the heap as stale entries until enough of them have gathered.
-/

namespace Benzene

/-- `pool.signer` (core/tx_pool.go:267). -/
def poolSigner : Signer := newEIP155Signer (some 1)

/-- `addr, _ := types.Sender(pool.signer, tx)`. -/
@[irreducible] def Crypto.poolSender (C : Crypto) (tx : Transaction) : Address :=
  match C.sender poolSigner tx with
  | .ok addr => addr
  | .error _ => zeroBytes 20

/-! ## Account sets -/

/-- `accountSet` (core/tx_pool.go:1451-1455), without the cache of `flatten`. -/
abbrev AccountSet := GoMap Address Unit

namespace AccountSet

/-- `contains`. -/
def contains (as : AccountSet) (addr : Address) : Bool := (as.lookup addr).isSome

/-- `empty`. -/
def isEmpty (as : AccountSet) : Bool := decide (GoMap.size as = 0)

/-- `containsTx`. -/
def containsTx (C : Crypto) (as : AccountSet) (tx : Transaction) : Bool :=
  match C.sender poolSigner tx with
  | .ok addr => contains as addr
  | .error _ => false

/-- `add`. -/
def add (as : AccountSet) (addr : Address) : AccountSet := as.insert addr ()

/-- `addTx`. -/
def addTx (C : Crypto) (as : AccountSet) (tx : Transaction) : AccountSet :=
  match C.sender poolSigner tx with
  | .ok addr => add as addr
  | .error _ => as

/-- `flatten`. -/
def flatten (ord : RangeOrder) (as : AccountSet) : List Address := ord.order as.keys

/-- `merge`. -/
def merge (as other : AccountSet) : AccountSet := other.keys.foldl add as

end AccountSet

/-! ## The lookup table -/

/-- `txSlotSize` (core/tx_pool.go:46). -/
def txSlotSize : ℕ := 32 * 1024

/-- `txMaxSize` (core/tx_pool.go:52). -/
def txMaxSize : ℕ := 4 * txSlotSize

/-- `numSlots` (core/tx_pool.go:1604-1606). -/
@[irreducible] def numSlots (tx : Transaction) : ℕ := (tx.size + txSlotSize - 1) / txSlotSize

/-- `txLookup` (core/tx_pool.go:1532-1536). -/
structure TxLookup where
  all : GoMap Hash Transaction
  slots : ℤ

namespace TxLookup

/-- `newTxLookup`. -/
def new : TxLookup := ⟨∅, 0⟩

/-- `Get`. -/
def get (t : TxLookup) (hash : Hash) : Option Transaction := t.all.lookup hash

/-- `Count`. -/
def count (t : TxLookup) : ℕ := GoMap.size t.all

/-- `Add`. -/
def add (C : Crypto) (t : TxLookup) (tx : Transaction) : TxLookup :=
  ⟨t.all.insert (C.txHash tx) tx, t.slots + numSlots tx⟩

/-- `Remove`. -/
def remove (t : TxLookup) (hash : Hash) : Option TxLookup :=
  (t.get hash).map fun tx => ⟨t.all.erase hash, t.slots - numSlots tx⟩

end TxLookup

/-! ## The price heap -/

/-- `priceHeap.Less` (core/tx_list.go:416-426): the cheaper one, then the higher nonce. -/
def priceLess (a b : Transaction) : Bool :=
  decide (a.price < b.price ∨ a.price = b.price ∧ b.accountNonce < a.accountNonce)

/-- `txPricedList` (core/tx_list.go:443-447); the table it points to is an argument. -/
structure TxPricedList where
  items : List Transaction
  stales : ℤ

namespace TxPricedList

variable (C : Crypto) (ord : RangeOrder) (l : TxPricedList) (all : TxLookup) (locals : AccountSet)

/-- `newTxPricedList`. -/
def new : TxPricedList := ⟨[], 0⟩

/-- `Put`. -/
def put (tx : Transaction) : TxPricedList := ⟨Heap.push priceLess l.items tx, l.stales⟩

/-- `Removed` (core/tx_list.go:465-480): the heap is rebuilt when a quarter is stale. -/
def removed (count : ℕ) : TxPricedList :=
  if l.stales + count ≤ (l.items.length / 4 : ℕ) then ⟨l.items, l.stales + count⟩
  else ⟨Heap.init priceLess (ord.order (GoMap.values all.all)), 0⟩

/-- The transaction has left the pool. -/
def isStale (tx : Transaction) : Bool := (all.get (C.txHash tx)).isNone

/-- `heap.Push` of the saved transactions. -/
def putAll (txs : List Transaction) : TxPricedList := txs.foldl put l

/-- The loop of `Cap`, with the transactions to drop and to save. -/
def capLoop (threshold : ℤ) : ℕ → TxPricedList → List Transaction → List Transaction →
    TxPricedList × List Transaction × List Transaction
  | 0, l, drop, save => (l, drop, save)
  | fuel + 1, l, drop, save =>
    match Heap.pop priceLess l.items with
    | none => (l, drop, save)
    | some (tx, items) =>
      if isStale C all tx then capLoop threshold fuel ⟨items, l.stales - 1⟩ drop save
      else if threshold ≤ tx.price then (⟨items, l.stales⟩, drop, save ++ [tx])
      else if AccountSet.containsTx C locals tx then
        capLoop threshold fuel ⟨items, l.stales⟩ drop (save ++ [tx])
      else capLoop threshold fuel ⟨items, l.stales⟩ (drop ++ [tx]) save

/-- `Cap` (core/tx_list.go:484-511): the transactions below a price that are not local. -/
def cap (threshold : ℤ) : TxPricedList × List Transaction :=
  let r := capLoop C all locals threshold l.items.length l [] []
  (r.1.putAll r.2.2, r.2.1)

/-- Drop the stale entries at the front of the heap (core/tx_list.go:521-529). -/
def dropStale : ℕ → TxPricedList → TxPricedList
  | 0, l => l
  | fuel + 1, l =>
    match Heap.pop priceLess l.items with
    | none => l
    | some (head, items) =>
      if isStale C all head then dropStale fuel ⟨items, l.stales - 1⟩ else l

/-- `Underpriced` (core/tx_list.go:515-537). -/
def underpriced (tx : Transaction) : TxPricedList × Bool :=
  if AccountSet.containsTx C locals tx then (l, false)
  else
    let l := dropStale C all l.items.length l
    match l.items.head? with
    | none => (l, false)
    | some cheapest => (l, decide (tx.price ≤ cheapest.price))

/-- The loop of `Discard`, with the slots still to free. -/
def discardLoop : ℕ → ℤ → TxPricedList → List Transaction → List Transaction →
    TxPricedList × List Transaction × List Transaction
  | 0, _, l, drop, save => (l, drop, save)
  | fuel + 1, slots, l, drop, save =>
    if 0 < slots then
      match Heap.pop priceLess l.items with
      | none => (l, drop, save)
      | some (tx, items) =>
        if isStale C all tx then discardLoop fuel slots ⟨items, l.stales - 1⟩ drop save
        else if AccountSet.containsTx C locals tx then
          discardLoop fuel slots ⟨items, l.stales⟩ drop (save ++ [tx])
        else discardLoop fuel (slots - numSlots tx) ⟨items, l.stales⟩ (drop ++ [tx]) save
    else (l, drop, save)

/-- The slots `Discard` aims at (core/tx_list.go:543-559): at most the number of entries that
    are not local, if there are local accounts at all. -/
def discardTarget (slots : ℤ) : ℤ :=
  if AccountSet.isEmpty locals then slots
  else min slots (l.items.countP fun tx => !AccountSet.containsTx C locals tx)

/-- `Discard` (core/tx_list.go:541-585): the cheapest transactions that are not local, until
    `slots` slots are free.  `make` panics on a negative capacity. -/
def discard (slots : ℤ) : Option (TxPricedList × List Transaction) :=
  let slots := discardTarget C l locals slots
  if slots = 0 then some (l, [])
  else if slots < 0 ∨ l.items.length < slots then none
  else
    let r := discardLoop C all locals l.items.length slots l [] []
    some (r.1.putAll r.2.2, r.2.1)

end TxPricedList

end Benzene
