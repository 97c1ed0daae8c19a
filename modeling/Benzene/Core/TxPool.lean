import Benzene.Common.Float64
import Benzene.Core.PricedList
import Benzene.Core.TxList

/-!
# The transaction pool

Model of core/tx_pool.go and core/tx_noncer.go.  A pool operation runs under the pool's lock and
is a function of the pool; `none` is a panic (or a walk of `reset` that never ends).  `ord` is
the order in which the operation visits maps, `now` the time at which it runs.

The lists of the pool are shared by pointer in the source: each list operation writes the new
list back to the map it came from.  Feeds, metrics and logs are left out, and so is the memory of
`txNoncer.get`, which returns the same nonce with and without it.  `types.Sender` is called
without its cache (`Crypto.cachedSender_eq`).

The journal is the list of the records handed to it.
-/

namespace Benzene

/-! ## Configuration and state -/

/-- `TxPoolConfig` (core/tx_pool.go:137-152); durations are in nanoseconds. -/
structure TxPoolConfig where
  locals : List Address
  noLocals : Bool
  journal : String
  rejournal : ℤ
  priceLimit : UInt64
  priceBump : UInt64
  accountSlots : UInt64
  globalSlots : UInt64
  accountQueue : UInt64
  globalQueue : UInt64
  lifetime : ℤ

/-- `DefaultTxPoolConfig` (core/tx_pool.go:156-169). -/
def defaultTxPoolConfig : TxPoolConfig where
  locals := []
  noLocals := false
  journal := "transactions.rlp"
  rejournal := 3600 * 10 ^ 9
  priceLimit := 1
  priceBump := 10
  accountSlots := 16
  globalSlots := 4096
  accountQueue := 64
  globalQueue := 1024
  lifetime := 3 * 3600 * 10 ^ 9

/-- A setting, or its default when it is below one. -/
def atLeastOne (value fallback : UInt64) : UInt64 := if value < 1 then fallback else value

/-- `sanitize` (core/tx_pool.go:173-208). -/
def TxPoolConfig.sanitize (conf : TxPoolConfig) : TxPoolConfig where
  locals := conf.locals
  noLocals := conf.noLocals
  journal := conf.journal
  rejournal := if conf.rejournal < 10 ^ 9 then 10 ^ 9 else conf.rejournal
  priceLimit := atLeastOne conf.priceLimit defaultTxPoolConfig.priceLimit
  priceBump := atLeastOne conf.priceBump defaultTxPoolConfig.priceBump
  accountSlots := atLeastOne conf.accountSlots defaultTxPoolConfig.accountSlots
  globalSlots := atLeastOne conf.globalSlots defaultTxPoolConfig.globalSlots
  accountQueue := atLeastOne conf.accountQueue defaultTxPoolConfig.accountQueue
  globalQueue := atLeastOne conf.globalQueue defaultTxPoolConfig.globalQueue
  lifetime := if conf.lifetime < 1 then defaultTxPoolConfig.lifetime else conf.lifetime

/-- What the pool reads of a `state.StateDB`. -/
structure StateView where
  getNonce : Address → UInt64
  getBalance : Address → ℤ

/-- `txNoncer` (core/tx_noncer.go:29-33). -/
structure TxNoncer where
  fallback : Address → UInt64
  nonces : GoMap Address UInt64

namespace TxNoncer

variable (txn : TxNoncer)

/-- `newTxNoncer`. -/
def new (statedb : StateView) : TxNoncer := ⟨statedb.getNonce, ∅⟩

/-- `get`. -/
def get (addr : Address) : UInt64 := (txn.nonces.lookup addr).getD (txn.fallback addr)

/-- `set`. -/
def set (addr : Address) (nonce : UInt64) : TxNoncer :=
  { txn with nonces := txn.nonces.insert addr nonce }

/-- `setIfLower` (core/tx_noncer.go:68-79). -/
def setIfLower (addr : Address) (nonce : UInt64) : TxNoncer :=
  if txn.get addr ≤ nonce then txn else txn.set addr nonce

theorem get_set (addr a : Address) (nonce : UInt64) :
    (txn.set addr nonce).get a = if a = addr then nonce else txn.get a := by
  rw [get, set, GoMap.lookup_insert_eq]
  split_ifs <;> rfl

theorem get_setIfLower (addr a : Address) (nonce : UInt64) :
    (txn.setIfLower addr nonce).get a =
      if a = addr ∧ ¬ txn.get addr ≤ nonce then nonce else txn.get a := by
  unfold setIfLower
  split_ifs with hle h h
  · exact absurd hle h.2
  · rfl
  · rw [get_set, if_pos h.1]
  · rw [get_set, if_neg fun ha => h ⟨ha, hle⟩]

end TxNoncer

/-- `TxPool` (core/tx_pool.go:217-250). -/
structure TxPool where
  config : TxPoolConfig
  gasPrice : ℤ
  currentState : StateView
  pendingNonces : TxNoncer
  currentMaxGas : UInt64
  locals : AccountSet
  journal : Option (List Transaction)
  pending : GoMap Address TxList
  queue : GoMap Address TxList
  beats : GoMap Address ℤ
  all : TxLookup
  priced : TxPricedList

/-- The errors of core/tx_pool.go:55-84, and those of core/error.go that the pool returns. -/
inductive TxError
  | alreadyKnown
  | invalidSender
  | underpriced
  | replaceUnderpriced
  | negativeValue
  | oversizedData
  | nonceTooLow
  | insufficientFunds
deriving DecidableEq

/-- `blockChain` (core/tx_pool.go:128-134), as it is while a head is being reset. -/
structure PoolChain where
  headerHash : Header → Hash
  getBlock : Hash → UInt64 → Option Block
  stateAt : Hash → Option StateView

/-- `txpoolResetRequest` (core/tx_pool.go:252-254), with the chain it is about. -/
structure ResetRequest where
  chain : PoolChain
  oldHead : Header
  newHead : Header

/-- `NewTxPool` (core/tx_pool.go:258-310) up to the loading of the journal, whose batches are
    calls of `AddLocals`.  When the state of the head cannot be read the pool panics on its first
    transaction; a later reset starts it as here. -/
def newTxPool (config : TxPoolConfig) (statedb : StateView) : TxPool :=
  let config := config.sanitize
  { config := config
    gasPrice := config.priceLimit.toNat
    currentState := statedb
    pendingNonces := .new statedb
    currentMaxGas := 0
    locals := config.locals.foldl AccountSet.add ∅
    journal := if config.noLocals = false ∧ config.journal ≠ "" then some [] else none
    pending := ∅
    queue := ∅
    beats := ∅
    all := .new
    priced := .new }

namespace TxPool

variable (C : Crypto) (ord : RangeOrder) (now : ℤ) (pool : TxPool)

/-! ## Lookup table, heap and queue -/

/-- `pool.config.GlobalSlots + pool.config.GlobalQueue`, which wraps. -/
def globalLimit : UInt64 := pool.config.globalSlots + pool.config.globalQueue

/-- `pool.all.Remove(hash)`. -/
def allRemove (hash : Hash) : Option TxPool :=
  (pool.all.remove hash).map fun all => { pool with all := all }

/-- `pool.all.Remove(tx.Hash())` for the transactions of a list. -/
def allRemoveTxs : TxPool → List Transaction → Option TxPool
  | pool, [] => some pool
  | pool, tx :: txs => do
    let pool ← pool.allRemove (C.txHash tx)
    allRemoveTxs pool txs

/-- `pool.priced.Removed(count)`. -/
def pricedRemoved (count : ℕ) : TxPool :=
  { pool with priced := pool.priced.removed ord pool.all count }

/-- `pool.all.Add(tx)` and `pool.priced.Put(tx)`. -/
def allAdd (tx : Transaction) : TxPool :=
  { pool with all := pool.all.add C tx, priced := pool.priced.put tx }

/-- `pool.all.Remove(old.Hash())` and `pool.priced.Removed(1)`, if there is an `old`. -/
def replaceOld : Option Transaction → Option TxPool
  | none => some pool
  | some old => do
    let pool ← pool.allRemove (C.txHash old)
    some (pool.pricedRemoved ord 1)

/-- `if pool.all.Get(hash) == nil { pool.all.Add(tx); pool.priced.Put(tx) }`. -/
def allAddIfNew (hash : Hash) (tx : Transaction) : TxPool :=
  if (pool.all.get hash).isNone then pool.allAdd C tx else pool

def setPending (addr : Address) (list : TxList) : TxPool :=
  { pool with pending := pool.pending.insert addr list }

def setQueue (addr : Address) (list : TxList) : TxPool :=
  { pool with queue := pool.queue.insert addr list }

/-- The heartbeat of an account, if it has none (core/tx_pool.go:676-678). -/
def firstBeat (addr : Address) : TxPool :=
  { pool with
    beats := if (pool.beats.lookup addr).isNone then pool.beats.insert addr now else pool.beats }

/-- `enqueueTx` (core/tx_pool.go:650-680). -/
def enqueueTx (hash : Hash) (tx : Transaction) : Option (TxPool × Except TxError Bool) :=
  let from_ := C.poolSender tx
  let list := (pool.queue.lookup from_).getD (.new false)
  let r := list.add tx pool.config.priceBump
  let pool := pool.setQueue from_ r.1
  if !r.2.1 then some (pool, .error .replaceUnderpriced)
  else do
    let pool ← pool.replaceOld C ord r.2.2
    some ((pool.allAddIfNew C hash tx).firstBeat now from_, .ok r.2.2.isSome)

/-- `pool.enqueueTx(tx.Hash(), tx)` for the transactions of a list, whatever it returns. -/
def enqueueTxs : TxPool → List Transaction → Option TxPool
  | pool, [] => some pool
  | pool, tx :: txs => do
    let r ← pool.enqueueTx C ord now (C.txHash tx) tx
    enqueueTxs r.1 txs

/-- `journalTx` (core/tx_pool.go:684-692). -/
def journalTx (from_ : Address) (tx : Transaction) : TxPool :=
  { pool with
    journal := if AccountSet.contains pool.locals from_ then pool.journal.map (· ++ [tx])
      else pool.journal }

/-- `promoteTx` (core/tx_pool.go:698-733): the pool, and whether the transaction is pending. -/
def promoteTx (addr : Address) (hash : Hash) (tx : Transaction) : Option (TxPool × Bool) :=
  let list := (pool.pending.lookup addr).getD (.new true)
  let r := list.add tx pool.config.priceBump
  let pool := pool.setPending addr r.1
  if !r.2.1 then do
    let pool ← pool.allRemove hash
    some (pool.pricedRemoved ord 1, false)
  else do
    let pool ← pool.replaceOld C ord r.2.2
    let pool := pool.allAddIfNew C hash tx
    some ({ pool with
        pendingNonces := pool.pendingNonces.set addr (tx.accountNonce + 1)
        beats := pool.beats.insert addr now }, true)

/-! ## Removal -/

/-- Delete the queue of an account that has become empty (core/tx_pool.go:923-926 and
    1243-1246). -/
def dropEmptyQueue (addr : Address) (list : TxList) : TxPool :=
  { pool with
    queue := if list.isEmpty then pool.queue.erase addr else pool.queue
    beats := if list.isEmpty then pool.beats.erase addr else pool.beats }

/-- The end of `removeTx` (core/tx_pool.go:917-927): the transaction is in the queue. -/
def removeQueued (addr : Address) (tx : Transaction) : TxPool :=
  match pool.queue.lookup addr with
  | none => pool
  | some future =>
    let r := future.remove ord tx
    (pool.setQueue addr r.1).dropEmptyQueue addr r.1

/-- Write a pending list back, or delete it when it has become empty. -/
def storePending (addr : Address) (list : TxList) : TxPool :=
  { pool with
    pending := if list.isEmpty then pool.pending.erase addr else pool.pending.insert addr list }

/-- `removeTx` (core/tx_pool.go:883-928). -/
def removeTx (hash : Hash) (outofbound : Bool) : Option TxPool :=
  match pool.all.get hash with
  | none => some pool
  | some tx => do
    let addr := C.poolSender tx
    let pool ← pool.allRemove hash
    let pool := if outofbound then pool.pricedRemoved ord 1 else pool
    match pool.pending.lookup addr with
    | none => some (pool.removeQueued ord addr tx)
    | some list =>
      let r := list.remove ord tx
      if r.2.1 then do
        let pool ← (pool.storePending addr r.1).enqueueTxs C ord now r.2.2
        some { pool with pendingNonces := pool.pendingNonces.setIfLower addr tx.accountNonce }
      else some (pool.removeQueued ord addr tx)

/-- `pool.removeTx(tx.Hash(), outofbound)` for the transactions of a list. -/
def removeTxs (outofbound : Bool) : TxPool → List Transaction → Option TxPool
  | pool, [] => some pool
  | pool, tx :: txs => do
    let pool ← pool.removeTx C ord now (C.txHash tx) outofbound
    removeTxs outofbound pool txs

/-! ## Admission -/

/-- `validateTx` (core/tx_pool.go:520-562). -/
def validateTx (tx : Transaction) (isLocal : Bool) : Except TxError Unit :=
  if txMaxSize < tx.size then .error .oversizedData
  else if tx.amount < 0 then .error .negativeValue
  else
    match C.sender poolSigner tx with
    | .error _ => .error .invalidSender
    | .ok from_ =>
      if (isLocal || AccountSet.contains pool.locals from_) = false ∧ tx.price < pool.gasPrice then
        .error .underpriced
      else if tx.accountNonce < pool.currentState.getNonce from_ then .error .nonceTooLow
      else if pool.currentState.getBalance from_ < tx.cost then .error .insufficientFunds
      else .ok ()

/-- The full pool (core/tx_pool.go:585-600): whether there is room for the transaction. -/
def makeRoom (tx : Transaction) (isLocal : Bool) : Option (TxPool × Bool) :=
  if pool.globalLimit.toNat ≤ pool.all.count then
    let r := if isLocal then (pool.priced, false)
      else pool.priced.underpriced C pool.all pool.locals tx
    let pool := { pool with priced := r.1 }
    if r.2 then some (pool, false)
    else do
      let d ← pool.priced.discard C pool.all pool.locals
        (pool.all.slots - goInt pool.globalLimit + numSlots tx)
      let pool ← removeTxs C ord now false { pool with priced := d.1 } d.2
      some (pool, true)
  else some (pool, true)

/-- A pending transaction is replaced (core/tx_pool.go:604-625). -/
def replacePending (from_ : Address) (list : TxList) (tx : Transaction) :
    Option (TxPool × Except TxError Bool) :=
  let r := list.add tx pool.config.priceBump
  let pool := pool.setPending from_ r.1
  if !r.2.1 then some (pool, .error .replaceUnderpriced)
  else do
    let pool ← pool.replaceOld C ord r.2.2
    let pool := (pool.allAdd C tx).journalTx from_ tx
    some ({ pool with beats := pool.beats.insert from_ now }, .ok r.2.2.isSome)

/-- Mark the account of a local transaction (core/tx_pool.go:633-638). -/
def markLocal (from_ : Address) (isLocal : Bool) : TxPool :=
  { pool with locals := if isLocal then AccountSet.add pool.locals from_ else pool.locals }

/-- A transaction goes to the queue (core/tx_pool.go:628-645). -/
def enqueueNew (from_ : Address) (tx : Transaction) (isLocal : Bool) :
    Option (TxPool × Except TxError Bool) := do
  let r ← pool.enqueueTx C ord now (C.txHash tx) tx
  match r.2 with
  | .error err => some (r.1, .error err)
  | .ok replaced => some ((r.1.markLocal from_ isLocal).journalTx from_ tx, .ok replaced)

/-- The second half of `add` (core/tx_pool.go:602-645): into the pending list, or the queue. -/
def insertTx (tx : Transaction) (isLocal : Bool) : Option (TxPool × Except TxError Bool) :=
  let from_ := C.poolSender tx
  match pool.pending.lookup from_ with
  | none => pool.enqueueNew C ord now from_ tx isLocal
  | some list =>
    if list.overlaps tx then pool.replacePending C ord now from_ list tx
    else pool.enqueueNew C ord now from_ tx isLocal

/-- `add` (core/tx_pool.go:571-645): the pool, and whether an older transaction was replaced. -/
def add (tx : Transaction) (isLocal : Bool) : Option (TxPool × Except TxError Bool) :=
  if (pool.all.get (C.txHash tx)).isSome then some (pool, .error .alreadyKnown)
  else
    match pool.validateTx C tx isLocal with
    | .error err => some (pool, .error err)
    | .ok () => do
      let r ← pool.makeRoom C ord now tx isLocal
      if r.2 then r.1.insertTx C ord now tx isLocal else some (r.1, .error .underpriced)

/-- The loop of `addTxsLocked`, with the results and the accounts so far. -/
def addTxsLoop (isLocal : Bool) : TxPool → List Transaction → List (Option TxError) →
    AccountSet → Option (TxPool × List (Option TxError) × AccountSet)
  | pool, [], errs, dirty => some (pool, errs, dirty)
  | pool, tx :: txs, errs, dirty => do
    let r ← pool.add C ord now tx isLocal
    match r.2 with
    | .error err => addTxsLoop isLocal r.1 txs (errs ++ [some err]) dirty
    | .ok replaced =>
      addTxsLoop isLocal r.1 txs (errs ++ [none])
        (if replaced then dirty else AccountSet.addTx C dirty tx)

/-- `addTxsLocked` (core/tx_pool.go:833-845): the results, and the accounts to promote. -/
def addTxsLocked (txs : List Transaction) (isLocal : Bool) :
    Option (TxPool × List (Option TxError) × AccountSet) :=
  addTxsLoop C ord now isLocal pool txs [] ∅

/-- The result of a transaction that is known or has no sender (core/tx_pool.go:787-803). -/
def knownOrInvalid (tx : Transaction) : Option TxError :=
  if (pool.all.get (C.txHash tx)).isSome then some .alreadyKnown
  else
    match C.sender poolSigner tx with
    | .error _ => some .invalidSender
    | .ok _ => none

/-- The results of the new transactions go to the free slots (core/tx_pool.go:813-820), of which
    there is one for each. -/
def mergeErrs : List (Option TxError) → List (Option TxError) → List (Option TxError)
  | [], _ => []
  | some err :: errs, newErrs => some err :: mergeErrs errs newErrs
  | none :: errs, [] => none :: errs
  | none :: errs, newErr :: newErrs => newErr :: mergeErrs errs newErrs

/-- `addTxs` (core/tx_pool.go:781-829) up to the request for a promotion: the results, and the
    accounts to be promoted if there is a request. -/
def addTxs (txs : List Transaction) (isLocal : Bool) :
    Option (TxPool × List (Option TxError) × Option AccountSet) :=
  let errs := txs.map (pool.knownOrInvalid C)
  let news := txs.filter fun tx => (pool.knownOrInvalid C tx).isNone
  if news.isEmpty then some (pool, errs, none)
  else do
    let r ← pool.addTxsLocked C ord now news isLocal
    some (r.1, mergeErrs errs r.2.1, some r.2.2)

/-- `AddLocals` (core/tx_pool.go:740-742). -/
def addLocals (txs : List Transaction) :
    Option (TxPool × List (Option TxError) × Option AccountSet) :=
  pool.addTxs C ord now txs !pool.config.noLocals

/-- `AddRemotes` (core/tx_pool.go:756-758). -/
def addRemotes (txs : List Transaction) :
    Option (TxPool × List (Option TxError) × Option AccountSet) :=
  pool.addTxs C ord now txs false

/-- `SetGasPrice` (core/tx_pool.go:420-429). -/
def setGasPrice (price : ℤ) : Option TxPool :=
  let r := pool.priced.cap C pool.all pool.locals price
  removeTxs C ord now false { pool with gasPrice := price, priced := r.1 } r.2

/-! ## Promotion and demotion -/

/-- `pool.promoteTx(addr, tx.Hash(), tx)` for the transactions of a list. -/
def promoteTxs (addr : Address) : TxPool → List Transaction → Option TxPool
  | pool, [] => some pool
  | pool, tx :: txs => do
    let r ← pool.promoteTx C ord now addr (C.txHash tx) tx
    promoteTxs addr r.1 txs

/-- `list.Cap(int(pool.config.AccountQueue))` of an account that is not local; the index is out
    of range when the limit is negative. -/
def capQueue (addr : Address) (list : TxList) : Option (TxList × List Transaction) :=
  if AccountSet.contains pool.locals addr then some (list, [])
  else if goInt pool.config.accountQueue < 0 then none
  else some (list.cap pool.config.accountQueue.toNat)

/-- One account of `promoteExecutables` (core/tx_pool.go:1195-1247). -/
def promoteAccount (addr : Address) : Option TxPool :=
  match pool.queue.lookup addr with
  | none => some pool
  | some list => do
    let forwards := list.forward (pool.currentState.getNonce addr)
    let pool ← allRemoveTxs C (pool.setQueue addr forwards.1) forwards.2
    let drops := forwards.1.filter ord (pool.currentState.getBalance addr) pool.currentMaxGas
    let pool ← allRemoveTxs C (pool.setQueue addr drops.1) drops.2.1
    let readies := drops.1.ready (pool.pendingNonces.get addr)
    let pool ← promoteTxs C ord now addr (pool.setQueue addr readies.1) readies.2
    let caps ← pool.capQueue addr readies.1
    let pool ← allRemoveTxs C (pool.setQueue addr caps.1) caps.2
    let pool := pool.pricedRemoved ord
      (forwards.2.length + drops.2.1.length + caps.2.length)
    some (pool.dropEmptyQueue addr caps.1)

/-- `promoteExecutables` (core/tx_pool.go:1189-1250). -/
def promoteExecutables : TxPool → List Address → Option TxPool
  | pool, [] => some pool
  | pool, addr :: accounts => do
    let pool ← pool.promoteAccount C ord now addr
    promoteExecutables pool accounts

/-- A list with a gap in front is postponed (core/tx_pool.go:1417-1428): the list and what
    leaves it. -/
def demoteGapped (nonce : UInt64) (list : TxList) : TxList × List Transaction :=
  if 0 < list.len ∧ (list.get nonce).isNone then list.cap 0 else (list, [])

/-- One account of `demoteUnexecutables` (core/tx_pool.go:1390-1433). -/
def demoteAccount (addr : Address) : Option TxPool :=
  match pool.pending.lookup addr with
  | none => some pool
  | some list => do
    let nonce := pool.currentState.getNonce addr
    let olds := list.forward nonce
    let pool ← allRemoveTxs C (pool.setPending addr olds.1) olds.2
    let drops := olds.1.filter ord (pool.currentState.getBalance addr) pool.currentMaxGas
    let pool ← allRemoveTxs C (pool.setPending addr drops.1) drops.2.1
    let pool := pool.pricedRemoved ord (olds.2.length + drops.2.1.length)
    let pool ← enqueueTxs C ord now pool drops.2.2
    let gapped := demoteGapped nonce drops.1
    let pool ← enqueueTxs C ord now (pool.setPending addr gapped.1) gapped.2
    some (pool.storePending addr gapped.1)

/-- The loop of `demoteUnexecutables`. -/
def demoteAccounts : TxPool → List Address → Option TxPool
  | pool, [] => some pool
  | pool, addr :: accounts => do
    let pool ← pool.demoteAccount C ord now addr
    demoteAccounts pool accounts

/-- `demoteUnexecutables` (core/tx_pool.go:1387-1435). -/
def demoteUnexecutables : Option TxPool :=
  demoteAccounts C ord now pool (ord.order pool.pending.keys)

/-! ## Truncation -/

/-- The number of pending transactions (core/tx_pool.go:1256-1259). -/
def pendingCount : ℕ := ((GoMap.values pool.pending).map TxList.len).sum

/-- The number of queued transactions (core/tx_pool.go:1341-1344). -/
def queuedCount : ℕ := ((GoMap.values pool.queue).map TxList.len).sum

/-- `pool.pending[addr].Len()`. -/
def pendingLen (addr : Address) : Option ℕ := (pool.pending.lookup addr).map TxList.len

/-- `pool.all.Remove` and `pool.pendingNonces.setIfLower` for the transactions of a list. -/
def dropPending (addr : Address) : TxPool → List Transaction → Option TxPool
  | pool, [] => some pool
  | pool, tx :: txs => do
    let pool ← pool.allRemove (C.txHash tx)
    dropPending addr
      { pool with pendingNonces := pool.pendingNonces.setIfLower addr tx.accountNonce } txs

/-- The last transaction of an account is dropped (core/tx_pool.go:1288-1301). -/
def capLast (addr : Address) : Option TxPool := do
  let list ← pool.pending.lookup addr
  if list.len = 0 then none
  else do
    let caps := list.cap (list.len - 1)
    let pool ← dropPending C addr (pool.setPending addr caps.1) caps.2
    some (pool.pricedRemoved ord caps.2.length)

/-- The last transaction of each of some accounts is dropped. -/
def capEach : TxPool → List Address → Option TxPool
  | pool, [] => some pool
  | pool, addr :: addrs => do
    let pool ← pool.capLast C ord addr
    capEach pool addrs

/-- The rounds of `truncatePending` (core/tx_pool.go:1286-1307 and 1314-1334): while there are
    too many pending transactions and the account `last` has more than `threshold`, each offender
    loses one.  `pending` is the counter of the source. -/
def capRounds (offenders : List Address) (last : Address) (threshold : ℕ) :
    ℕ → TxPool → ℕ → Option (TxPool × ℕ)
  | 0, pool, pending => some (pool, pending)
  | fuel + 1, pool, pending => do
    if pool.config.globalSlots.toNat < pending then
      let len ← pool.pendingLen last
      if threshold < len then do
        let pool ← capEach C ord pool offenders
        capRounds offenders last threshold fuel pool (pending - offenders.length)
      else some (pool, pending)
    else some (pool, pending)

/-- The loop over the spammers (core/tx_pool.go:1275-1310): each one that is popped is equalised
    with those before. -/
def capOffenders : List Address → List Address → TxPool → ℕ →
    Option (TxPool × ℕ × List Address)
  | [], offenders, pool, pending => some (pool, pending, offenders)
  | offender :: spammers, offenders, pool, pending =>
    if pool.config.globalSlots.toNat < pending then
      match offenders.getLast? with
      | none => capOffenders spammers [offender] pool pending
      | some last => do
        let threshold ← pool.pendingLen offender
        let r ← capRounds C ord offenders last threshold pending pool pending
        capOffenders spammers (offenders ++ [offender]) r.1 r.2
    else some (pool, pending, offenders)

/-- `prque` of the accounts above the limit (core/tx_pool.go:1266-1272), which pops the longest
    list first, and equally long ones in any order. -/
def spammers : List Address :=
  let offending := fun addr =>
    !AccountSet.contains pool.locals addr &&
      decide (pool.config.accountSlots.toNat < (pool.pendingLen addr).getD 0)
  ((ord.order pool.pending.keys).filter offending).insertionSort
    fun a b => (pool.pendingLen b).getD 0 ≤ (pool.pendingLen a).getD 0

/-- `truncatePending` (core/tx_pool.go:1255-1337). -/
def truncatePending : Option TxPool :=
  let pending := pool.pendingCount
  if pending ≤ pool.config.globalSlots.toNat then some pool
  else do
    let r ← capOffenders C ord (pool.spammers ord) [] pool pending
    match r.2.2.getLast? with
    | none => some r.1
    | some last => do
      let r ← capRounds C ord r.2.2 last pool.config.accountSlots.toNat r.2.1 r.1 r.2.1
      some r.1

/-- The accounts with queued transactions that are not local, most recent heartbeat first
    (core/tx_pool.go:1350-1356). -/
def byHeartbeat : List Address :=
  let addresses := (ord.order pool.queue.keys).filter fun addr =>
    !AccountSet.contains pool.locals addr
  (addresses.insertionSort fun a b =>
    (pool.beats.lookup a).getD 0 ≤ (pool.beats.lookup b).getD 0).reverse

/-- The loop of `truncateQueue` (core/tx_pool.go:1359-1381), with the number still to drop. -/
def truncateLoop : List Address → TxPool → ℕ → Option TxPool
  | [], pool, _ => some pool
  | addr :: addresses, pool, drop =>
    if 0 < drop then do
      let list ← pool.queue.lookup addr
      if list.len ≤ drop then do
        let pool ← removeTxs C ord now true pool list.flatten
        truncateLoop addresses pool (drop - list.len)
      else do
        let pool ← removeTxs C ord now true pool (list.flatten.reverse.take drop)
        truncateLoop addresses pool 0
    else some pool

/-- `truncateQueue` (core/tx_pool.go:1340-1382). -/
def truncateQueue : Option TxPool :=
  let queued := pool.queuedCount
  if queued ≤ pool.config.globalQueue.toNat then some pool
  else
    truncateLoop C ord now (pool.byHeartbeat ord) pool (queued - pool.config.globalQueue.toNat)

/-! ## Head resets -/

/-- The end of a walk back from two heads. -/
inductive Walk (α : Type)
  /-- A block is missing: `reset` returns. -/
  | unrooted
  | found (result : α)

/-- Go back from `rem` to the number of the other block (core/tx_pool.go:1134-1139 and
    1140-1145), collecting the transactions on the way. -/
def walkDown (chain : PoolChain) (target : UInt64) :
    ℕ → Block → List Transaction → Option (Walk (Block × List Transaction))
  | 0, _, _ => none
  | fuel + 1, b, txs =>
    if target < b.numberU64 then
      match chain.getBlock b.header.parentHash (b.numberU64 - 1) with
      | none => some .unrooted
      | some parent => walkDown chain target fuel parent (txs ++ b.transactions)
    else some (.found (b, txs))

/-- Go back from two blocks of one number to their common ancestor (core/tx_pool.go:1146-1157). -/
def walkCommon (chain : PoolChain) :
    ℕ → Block → Block → List Transaction → List Transaction →
      Option (Walk (List Transaction × List Transaction))
  | 0, _, _, _, _ => none
  | fuel + 1, rem, add, discarded, included =>
    if chain.headerHash rem.header = chain.headerHash add.header then
      some (.found (discarded, included))
    else
      match chain.getBlock rem.header.parentHash (rem.numberU64 - 1) with
      | none => some .unrooted
      | some rem' =>
        match chain.getBlock add.header.parentHash (add.numberU64 - 1) with
        | none => some .unrooted
        | some add' =>
          walkCommon chain fuel rem' add' (discarded ++ rem.transactions)
            (included ++ add.transactions)

/-- The steps of a walk: one for every block number. -/
def walkFuel : ℕ := 2 ^ 64

/-- `types.TxDifference` (core/types/transaction.go:296-311). -/
def txDifference (a b : List Transaction) : List Transaction :=
  a.filter fun tx => decide (C.txHash tx ∉ b.map C.txHash)

/-- `uint64(math.Abs(float64(oldNum) - float64(newNum)))`; a distance of `2 ^ 64`, which the last
    conversion cannot represent, is left as it is. -/
def depth (oldNum newNum : UInt64) : ℕ := float64Dist oldNum.toNat newNum.toNat

/-- The transactions a reset puts back (core/tx_pool.go:1102-1161).  A missing new head is a nil
    dereference. -/
def reinject (req : ResetRequest) : Option (Walk (List Transaction)) :=
  let chain := req.chain
  if chain.headerHash req.oldHead = req.newHead.parentHash then some (.found [])
  else if 64 < depth req.oldHead.numberU64 req.newHead.numberU64 then some (.found [])
  else
    match chain.getBlock (chain.headerHash req.oldHead) req.oldHead.numberU64 with
    | none => some .unrooted
    | some rem => do
      let add ← chain.getBlock (chain.headerHash req.newHead) req.newHead.numberU64
      match ← walkDown chain add.numberU64 walkFuel rem [] with
      | .unrooted => some .unrooted
      | .found (rem, discarded) =>
        match ← walkDown chain rem.numberU64 walkFuel add [] with
        | .unrooted => some .unrooted
        | .found (add, included) =>
          match ← walkCommon chain walkFuel rem add discarded included with
          | .unrooted => some .unrooted
          | .found (discarded, included) => some (.found (txDifference C discarded included))

/-- `reset` (core/tx_pool.go:1100-1184). -/
def reset (req : ResetRequest) : Option TxPool := do
  match ← reinject C req with
  | .unrooted => some pool
  | .found txs =>
    match req.chain.stateAt req.newHead.root with
    | none => some pool
    | some statedb => do
      let r ← addTxsLocked C ord now
        { pool with currentState := statedb, pendingNonces := .new statedb } txs false
      some r.1

/-- `list.LastElement().Nonce() + 1` is the pool nonce of every pending account
    (core/tx_pool.go:1075-1078). -/
def setNonces : TxPool → List Address → Option TxPool
  | pool, [] => some pool
  | pool, addr :: accounts => do
    let list ← pool.pending.lookup addr
    let highestPending ← list.lastElement
    setNonces
      { pool with pendingNonces := pool.pendingNonces.set addr (highestPending.accountNonce + 1) }
      accounts

/-- The end of `runReorg` (core/tx_pool.go:1071-1078). -/
def finishReorg : Option TxPool := do
  let pool ← pool.truncatePending C ord
  let pool ← pool.truncateQueue C ord now
  setNonces pool (ord.order pool.pending.keys)

/-- `runReorg` (core/tx_pool.go:1033-1096). -/
def runReorg (req : Option ResetRequest) (dirtyAccounts : Option AccountSet) : Option TxPool :=
  match req with
  | none => do
    let promoteAddrs := (dirtyAccounts.map (AccountSet.flatten ord)).getD []
    let pool ← promoteExecutables C ord now pool promoteAddrs
    pool.finishReorg C ord now
  | some req => do
    let pool ← pool.reset C ord now req
    let pool ← promoteExecutables C ord now pool (ord.order pool.queue.keys)
    let pool ← pool.demoteUnexecutables C ord now
    pool.finishReorg C ord now

/-! ## Eviction -/

/-- The loop over the queue when the eviction ticker fires (core/tx_pool.go:355-368). -/
def evictLoop : TxPool → List Address → Option TxPool
  | pool, [] => some pool
  | pool, addr :: accounts =>
    if AccountSet.contains pool.locals addr then evictLoop pool accounts
    else if pool.config.lifetime < now - (pool.beats.lookup addr).getD 0 then do
      let list ← pool.queue.lookup addr
      let pool ← removeTxs C ord now true pool list.flatten
      evictLoop pool accounts
    else evictLoop pool accounts

/-- Evict the queues that have had no heartbeat for too long. -/
def evict : Option TxPool := evictLoop C ord now pool (ord.order pool.queue.keys)

/-! ## Runs -/

/-- What happens to a pool. -/
inductive Op
  | addLocals (txs : List Transaction)
  | addRemotes (txs : List Transaction)
  | setGasPrice (price : ℤ)
  | runReorg (req : Option ResetRequest) (dirtyAccounts : Option AccountSet)
  | evict

/-- One operation, with the order of its loops and its time. -/
structure Event where
  ord : RangeOrder
  now : ℤ
  op : Op

/-- One step of the pool.  `AddLocals` and `AddRemotes` select the new transactions before they
    take the lock; what happens in between can only make the selection smaller, so that a step
    with fewer transactions has the same effect. -/
def step (e : Event) : Option TxPool :=
  match e.op with
  | .addLocals txs => (pool.addLocals C e.ord e.now txs).map Prod.fst
  | .addRemotes txs => (pool.addRemotes C e.ord e.now txs).map Prod.fst
  | .setGasPrice price => pool.setGasPrice C e.ord e.now price
  | .runReorg req dirtyAccounts => pool.runReorg C e.ord e.now req dirtyAccounts
  | .evict => pool.evict C e.ord e.now

end TxPool

end Benzene
