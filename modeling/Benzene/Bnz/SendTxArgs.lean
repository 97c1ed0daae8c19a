import Benzene.Types.Signing

/-!
# The arguments of `SendTransaction`

Model of `SendTxArgs` with `setDefaults` and `toTransaction` (internal/bnzapi/api.go:553-640), as
`SendTransaction` (internal/bnzapi/api.go:668-696) calls them.  A nil dereference is `none`.

`setDefaults` fills in the price, the amount, the nonce and the gas, but reads `ShardID` to ask
for the nonce, and `toTransaction` reads `ShardID` and, for a transfer, `ToShardID`.
`assembles_iff` says for which arguments and answers of the backend that ends well; it puts
together the outcomes of `setDefaults` (`setDefaults_cases`) and what `toTransaction` makes of the
completed arguments (`toTransaction_completed`).
-/

namespace Benzene

/-- `SendTxArgs` (internal/bnzapi/api.go:553-566).  A nil pointer is `none`. -/
structure SendTxArgs where
  from_ : Address
  /-- `To`. -/
  recipient : Option Address
  shardID : Option UInt64
  toShardID : Option UInt64
  gas : Option UInt64
  gasPrice : Option ℤ
  value : Option ℤ
  nonce : Option UInt64
  data : Option Bytes
  input : Option Bytes
deriving DecidableEq

/-- The errors of `setDefaults`; those of the backend as their texts. -/
inductive SendTxError
  | backend (text : String)
  | dataMismatch
  | creationWithoutData
deriving DecidableEq

/-- The text of an error. -/
def SendTxError.text : SendTxError → String
  | .backend text => text
  | .dataMismatch => "both \"data\" and \"input\" are set and not equal. " ++
      "Please use \"input\" to pass transaction call data"
  | .creationWithoutData => "contract creation without any data provided"

/-- What `setDefaults` asks of the backend (internal/bnzapi/backend.go).  The price may be a nil
    pointer. -/
structure Answers where
  suggestPrice : Except String (Option ℤ)
  getPoolNonce : UInt64 → Address → Except String UInt64

/-- `DoEstimateGas` (internal/bnzapi/api.go:286-289). -/
def doEstimateGas : UInt64 := 0

/-- `NewTransaction`, `NewContractCreation` and `newTransaction`
    (core/types/transaction.go:79-114). -/
def newTransaction (nonce : UInt64) (recipient : Option Address) (shardID toShardID : UInt64)
    (amount : Option ℤ) (gasLimit : UInt64) (gasPrice : Option ℤ) (data : Bytes) : Transaction where
  accountNonce := nonce
  price := gasPrice.getD 0
  gasLimit := gasLimit
  shardID := shardID
  toShardID := toShardID
  recipient := recipient
  amount := amount.getD 0
  payload := data
  v := 0
  r := 0
  s := 0

namespace SendTxArgs

variable (b : Answers) (args : SendTxArgs)

/-- The price (internal/bnzapi/api.go:571-577). -/
def defaultPrice : Except SendTxError (Option ℤ) :=
  match args.gasPrice with
  | some price => .ok (some price)
  | none => b.suggestPrice.mapError .backend

/-- The nonce (internal/bnzapi/api.go:581-587), which needs the shard. -/
def defaultNonce : Option (Except SendTxError UInt64) :=
  match args.nonce, args.shardID with
  | some nonce, _ => some (.ok nonce)
  | none, some shardID => some ((b.getPoolNonce shardID args.from_).mapError .backend)
  | none, none => none

/-- The checks of the call data (internal/bnzapi/api.go:588-602). -/
def checkData : Option SendTxError :=
  if args.data.isSome ∧ args.input.isSome ∧ args.data ≠ args.input then some .dataMismatch
  else if args.recipient = none ∧ (args.data.or args.input).getD [] = [] then
    some .creationWithoutData
  else none

/-- `setDefaults` (internal/bnzapi/api.go:569-625). -/
def setDefaults : Option (Except SendTxError SendTxArgs) :=
  match args.defaultPrice b with
  | .error err => some (.error err)
  | .ok price =>
    match args.defaultNonce b with
    | none => none
    | some (.error err) => some (.error err)
    | some (.ok nonce) =>
      match args.checkData with
      | some err => some (.error err)
      | none => some (.ok { args with
          gasPrice := price
          value := some (args.value.getD 0)
          nonce := some nonce
          gas := some (args.gas.getD doEstimateGas) })

/-- `toTransaction` (internal/bnzapi/api.go:627-638). -/
def toTransaction : Option Transaction := do
  let input := (args.input.or args.data).getD []
  let nonce ← args.nonce
  let shardID ← args.shardID
  match args.recipient with
  | none =>
    let gas ← args.gas
    return newTransaction nonce none shardID shardID args.value gas args.gasPrice input
  | some recipient =>
    let toShardID ← args.toShardID
    let gas ← args.gas
    return newTransaction nonce (some recipient) shardID toShardID args.value gas args.gasPrice
      input

/-- The transaction that `SendTransaction` signs (internal/bnzapi/api.go:685-689). -/
def transaction : Option (Except SendTxError Transaction) :=
  match args.setDefaults b with
  | none => none
  | some (.error err) => some (.error err)
  | some (.ok args) => args.toTransaction.map .ok

/-! ## What the caller can expect -/

/-- What the caller has supplied is in the transaction, and the wallet of `From` signs for it. -/
structure Carries (C : Crypto) (tx : Transaction) : Prop where
  recipient : ∀ x ∈ args.recipient, tx.recipient = some x
  shardID : ∀ x ∈ args.shardID, tx.shardID = x
  toShardID : ∀ x ∈ args.toShardID, tx.toShardID = x
  gas : ∀ x ∈ args.gas, tx.gasLimit = x
  gasPrice : ∀ x ∈ args.gasPrice, tx.price = x
  value : ∀ x ∈ args.value, tx.amount = x
  nonce : ∀ x ∈ args.nonce, tx.accountNonce = x
  data : ∀ x ∈ args.data, tx.payload = x
  input : ∀ x ∈ args.input, tx.payload = x
  sender : ∀ k, C.address k = args.from_ →
    C.sender (.eip155 1) (C.signTx tx (.eip155 1) k) = .ok args.from_

/-- The arguments become an error or a transaction that carries them. -/
def Assembles (C : Crypto) : Prop :=
  ∃ r, args.transaction b = some r ∧ ∀ tx, r = .ok tx → args.Carries C tx

/-- An error is returned before a missing field is read. -/
def Refused : Prop :=
  (args.gasPrice = none ∧ ∃ text, b.suggestPrice = .error text) ∨
  (args.nonce = none ∧ ∃ shardID ∈ args.shardID, ∃ text,
    b.getPoolNonce shardID args.from_ = .error text) ∨
  ((args.nonce.isSome ∨ args.shardID.isSome) ∧ args.checkData.isSome)

/-- The shards are there, and a contract creation asks for no other shard than its own. -/
def Complete : Prop :=
  ∃ shardID ∈ args.shardID,
    match args.recipient with
    | none => ∀ x ∈ args.toShardID, x = shardID
    | some _ => args.toShardID.isSome

/-- The arguments that `setDefaults` leaves, with the price and the nonce it has found. -/
def completed (price : Option ℤ) (nonce : UInt64) : SendTxArgs :=
  { args with
    gasPrice := price
    value := some (args.value.getD 0)
    nonce := some nonce
    gas := some (args.gas.getD doEstimateGas) }

/-! ## `setDefaults` -/

/-- The price of the caller, or the answer of the backend. -/
theorem defaultPrice_cases :
    (∃ err, args.defaultPrice b = .error err ∧ args.gasPrice = none ∧
      ∃ text, b.suggestPrice = .error text) ∨
    ∃ price, args.defaultPrice b = .ok price ∧ (∀ y ∈ args.gasPrice, price = some y) ∧
      ¬ (args.gasPrice = none ∧ ∃ text, b.suggestPrice = .error text) := by
  unfold defaultPrice
  cases hprice : args.gasPrice with
  | some price =>
    right
    exact ⟨some price, rfl, by simp, by simp⟩
  | none =>
    cases hanswer : b.suggestPrice with
    | error text =>
      left
      exact ⟨.backend text, rfl, rfl, text, rfl⟩
    | ok price =>
      right
      exact ⟨price, rfl, by simp, by simp⟩

/-- The nonce of the caller, or the answer of the backend for the shard, or a panic without
    one. -/
theorem defaultNonce_cases :
    (args.defaultNonce b = none ∧ args.nonce = none ∧ args.shardID = none) ∨
    (∃ err, args.defaultNonce b = some (.error err) ∧ args.nonce = none ∧
      ∃ shardID ∈ args.shardID, ∃ text, b.getPoolNonce shardID args.from_ = .error text) ∨
    ∃ nonce, args.defaultNonce b = some (.ok nonce) ∧ (∀ y ∈ args.nonce, nonce = y) ∧
      (args.nonce.isSome ∨ args.shardID.isSome) ∧
      ¬ (args.nonce = none ∧ ∃ shardID ∈ args.shardID, ∃ text,
        b.getPoolNonce shardID args.from_ = .error text) := by
  unfold defaultNonce
  cases hnonce : args.nonce with
  | some nonce =>
    right; right
    exact ⟨nonce, rfl, by simp, by simp, by simp⟩
  | none =>
    cases hshard : args.shardID with
    | none =>
      left
      exact ⟨rfl, rfl, rfl⟩
    | some shardID =>
      right
      cases hanswer : b.getPoolNonce shardID args.from_ with
      | error text =>
        left
        exact ⟨.backend text, by simp [hanswer, Except.mapError], rfl, shardID, rfl, text, hanswer⟩
      | ok nonce =>
        right
        exact ⟨nonce, by simp [hanswer, Except.mapError], by simp, by simp, by simp [hanswer]⟩

/-- What `setDefaults` does: it panics for a missing shard whose pool is to be asked for the
    nonce, it returns an error, or it completes the arguments. -/
theorem setDefaults_cases :
    (args.setDefaults b = none ∧ ¬ args.Refused b ∧ args.shardID = none) ∨
    (∃ err, args.setDefaults b = some (.error err) ∧ args.Refused b) ∨
    ∃ price nonce, args.setDefaults b = some (.ok (args.completed price nonce)) ∧
      ¬ args.Refused b ∧ args.checkData = none ∧ (∀ y ∈ args.gasPrice, price = some y) ∧
      ∀ y ∈ args.nonce, nonce = y := by
  unfold setDefaults
  rcases args.defaultPrice_cases b with
    ⟨err, hprice, hrefused⟩ | ⟨price, hprice, hkept, hgood⟩
  · right; left
    exact ⟨err, by rw [hprice], Or.inl hrefused⟩
  · rw [hprice]
    rcases args.defaultNonce_cases b with
      ⟨hnonce, hnone, hshard⟩ | ⟨err, hnonce, hrefused⟩ |
      ⟨nonce, hnonce, hnonceKept, hreached, hanswered⟩
    · left
      refine ⟨by rw [hnonce], ?_, hshard⟩
      rintro (h | ⟨-, s, hs, -⟩ | ⟨h, -⟩)
      · exact hgood h
      · simp [hshard] at hs
      · simp [hnone, hshard] at h
    · right; left
      exact ⟨err, by rw [hnonce], Or.inr (Or.inl hrefused)⟩
    · rw [hnonce]
      right
      cases hdata : args.checkData with
      | some err =>
        left
        exact ⟨err, rfl, Or.inr (Or.inr ⟨hreached, by simp [hdata]⟩)⟩
      | none =>
        right
        refine ⟨price, nonce, rfl, ?_, rfl, hkept, hnonceKept⟩
        rintro (h | h | ⟨-, h⟩)
        · exact hgood h
        · exact hanswered h
        · simp [hdata] at h

/-! ## `toTransaction` -/

variable {b args} {price : Option ℤ} {nonce : UInt64}

/-- The payload is the data and the input of the caller, where they do not differ. -/
theorem payload_eq (h : args.checkData = none) :
    (∀ x ∈ args.data, (args.input.or args.data).getD [] = x) ∧
      ∀ x ∈ args.input, (args.input.or args.data).getD [] = x := by
  unfold checkData at h
  split_ifs at h with hboth
  cases hdata : args.data with
  | none =>
    refine ⟨by simp, ?_⟩
    intro x hx
    simp [Option.mem_def.1 hx]
  | some data =>
    cases hinput : args.input with
    | none => simp
    | some input =>
      have heq : data = input := by
        by_contra hne
        exact hboth (by simp [hdata, hinput, hne])
      simp [heq]

section

variable (C : Crypto) (hdata : args.checkData = none) (hprice : ∀ y ∈ args.gasPrice, price = some y)
  (hnonce : ∀ y ∈ args.nonce, nonce = y)

include hdata hprice hnonce

/-- What `newTransaction` makes of completed arguments has what the caller has supplied if the two
    shards are those of the caller. -/
theorem carries_newTransaction_iff {s t : UInt64} :
    args.Carries C (newTransaction nonce args.recipient s t (some (args.value.getD 0))
      (args.gas.getD doEstimateGas) price ((args.input.or args.data).getD [])) ↔
      (∀ x ∈ args.shardID, s = x) ∧ ∀ x ∈ args.toShardID, t = x := by
  constructor
  · intro hcarries
    exact ⟨hcarries.shardID, hcarries.toShardID⟩
  · rintro ⟨hs, ht⟩
    obtain ⟨hpayload, hpayload'⟩ := payload_eq hdata
    exact {
      recipient := fun x hx => hx
      shardID := hs
      toShardID := ht
      gas := fun y hy => by simp [newTransaction, Option.mem_def.1 hy]
      gasPrice := fun y hy => by simp [newTransaction, hprice y hy]
      value := fun y hy => by simp [newTransaction, Option.mem_def.1 hy]
      nonce := hnonce
      data := hpayload
      input := hpayload'
      sender := fun k hk => hk ▸ (C.sender_signTx_of_ne_zero one_ne_zero _ k).trans
        ((C.senderOfPub_ecrecover_iff _ _ k).2 rfl) }

/-- The completed arguments become a transaction where the shards are there; it has what the
    caller has supplied, except for the target shard of a contract creation. -/
theorem toTransaction_completed :
    (∃ tx, (args.completed price nonce).toTransaction = some tx ∧ args.Carries C tx) ↔
      args.Complete := by
  have hcarries := fun s t : UInt64 =>
    carries_newTransaction_iff (s := s) (t := t) C hdata hprice hnonce
  unfold toTransaction Complete completed
  dsimp only
  generalize (args.input.or args.data).getD [] = payload at hcarries ⊢
  cases hshard : args.shardID with
  | none => simp
  | some s =>
    cases hrecipient : args.recipient with
    | none =>
      -- `NewContractCreation` takes the shard for both
      simp only [hrecipient, hshard] at hcarries
      simp [hcarries, eq_comm]
    | some recipient =>
      simp only [hrecipient, hshard] at hcarries
      cases htarget : args.toShardID with
      | none => simp
      | some t => simp [hcarries, htarget]

end

/-- **The arguments of `SendTransaction`.**  They become an error or a transaction that carries
    what the caller has supplied exactly if an error is returned before a missing field is read, or
    the shards are there and a contract creation asks for no other shard than its own. -/
theorem assembles_iff (C : Crypto) (b : Answers) (args : SendTxArgs) :
    args.Assembles b C ↔ args.Refused b ∨ args.Complete := by
  unfold Assembles transaction
  rcases args.setDefaults_cases b with
    ⟨hset, hnot, hshard⟩ | ⟨err, hset, hrefused⟩ |
    ⟨price, nonce, hset, hnot, hdata, hprice, hnonce⟩
  · rw [hset]
    simp [hnot, Complete, hshard]
  · rw [hset]
    exact iff_of_true ⟨.error err, rfl, by simp⟩ (Or.inl hrefused)
  · rw [hset, ← toTransaction_completed C hdata hprice hnonce]
    dsimp only
    simp [hnot]

end SendTxArgs

namespace Concrete

/-- A backend that answers: the price 0 (bnz/api_backend.go:237-240) and the nonce 0. -/
def quietAnswers : Answers where
  suggestPrice := .ok (some 0)
  getPoolNonce _ _ := .ok 0

/-- A call with nothing but the sender and the call data. -/
def bareArgs : SendTxArgs where
  from_ := crypto.address (7 : UInt8)
  recipient := none
  shardID := none
  toShardID := none
  gas := none
  gasPrice := none
  value := none
  nonce := none
  data := none
  input := some [1]

/-- A call without a shard dereferences it, with and without a nonce; a transfer also needs the
    target shard; and a contract creation for another shard stays in its own. -/
theorem arguments_not_assembled :
    bareArgs.transaction quietAnswers = none ∧
      { bareArgs with nonce := some 0 }.transaction quietAnswers = none ∧
      { bareArgs with recipient := some bareArgs.from_, shardID := some 0 }.transaction
        quietAnswers = none ∧
      ∃ tx, { bareArgs with shardID := some 0, toShardID := some 1 }.transaction quietAnswers =
        some (.ok tx) ∧ tx.toShardID = 0 := by
  exact ⟨rfl, rfl, rfl, _, rfl, rfl⟩

end Concrete

end Benzene
