import Benzene.Core.PoolInvariant

/-!
# One sender per transaction

The pool, block import and the RPC view each derive the sender of a transaction with their own
signer.  `accepted_one_sender_iff`: for a transaction the pool accepts they agree exactly when it
is not replay protected.  The pool's signer has chain ID 1 and the other two have chain ID 0, so
that a protected transaction has a sender for the pool only.
-/

namespace Benzene

/-- The signer of `newRPCTransaction` (internal/bnzapi/api.go:374-377). -/
def Transaction.rpcSigner (tx : Transaction) : Signer :=
  if tx.isProtected then newEIP155Signer none else .frontier

/-- The signers that ask for the sender of a transaction. -/
def Transaction.signers (tx : Transaction) : List Signer := [poolSigner, makeSigner, tx.rpcSigner]

/-- In whatever order, and however often, the signers ask for the sender of a transaction, they
    all get one address. -/
def Crypto.OneSender (C : Crypto) (tx : Transaction) : Prop :=
  ∃ addr, ∀ ss : List Signer, (∀ s ∈ ss, s ∈ tx.signers) →
    ∀ result ∈ C.querySenders tx none ss, result = .ok addr

namespace Crypto

variable {C : Crypto} {tx : Transaction} {addr : Address}

theorem oneSender_iff :
    C.OneSender tx ↔ ∃ addr, ∀ s ∈ tx.signers, C.sender s tx = .ok addr := by
  have hempty : C.CacheOk tx none := by simp [CacheOk]
  constructor
  · rintro ⟨addr, hall⟩
    refine ⟨addr, fun s hs => hall [s] (by simpa using hs) _ ?_⟩
    simp [querySenders_eq hempty]
  · rintro ⟨addr, hall⟩
    refine ⟨addr, fun ss hss result hresult => ?_⟩
    rw [querySenders_eq hempty] at hresult
    obtain ⟨s, hs, rfl⟩ := List.mem_map.1 hresult
    exact hall s (hss s hs)

/-- The Frontier rules accept what the Homestead rules accept. -/
theorem recoverPlain_frontier {sighash : Hash} {R S V : ℤ}
    (h : C.recoverPlain sighash R S V true = .ok addr) :
    C.recoverPlain sighash R S V false = .ok addr := by
  unfold recoverPlain at h ⊢
  split_ifs at h ⊢ with hlen
  simp only [Bool.not_eq_true'] at h ⊢
  split_ifs at h with hvalid
  have hvalid' : validateSignatureValues (bigUint64 V - 27).toUInt8 R S false = true := by
    rw [Bool.not_eq_false, validateSignatureValues_iff] at hvalid
    obtain ⟨hR, hS, -, hrest⟩ := hvalid
    exact validateSignatureValues_iff.2 ⟨hR, hS, by simp, hrest⟩
  rw [hvalid', if_neg (by simp)]
  exact h

theorem sender_of_unprotected (h : tx.isProtected = false) (chainId : ℤ) :
    C.sender (.eip155 chainId) tx = C.sender .homestead tx := by
  simp [sender, h]

theorem chainID_of_protected (h : tx.isProtected = true) {chainId : ℤ}
    (hs : C.sender (.eip155 chainId) tx = .ok addr) : tx.chainID = chainId := by
  by_contra hne
  simp [sender, h, hne] at hs

/-- The signers agree on a transaction that has a sender for the pool exactly when it is not
    protected. -/
theorem oneSender_iff_unprotected (h : C.sender poolSigner tx = .ok addr) :
    C.OneSender tx ↔ tx.isProtected = false := by
  rw [oneSender_iff]
  constructor
  · rintro ⟨addr', hall⟩
    rw [← Bool.not_eq_true]
    intro hprot
    have hone := chainID_of_protected hprot h
    have hzero := chainID_of_protected hprot (hall makeSigner (by simp [Transaction.signers]))
    exact absurd (hone.symm.trans hzero) (by decide)
  · intro hprot
    have hhome : C.sender .homestead tx = .ok addr := sender_of_unprotected hprot _ ▸ h
    refine ⟨addr, fun s hs => ?_⟩
    simp only [Transaction.signers, Transaction.rpcSigner, hprot, Bool.false_eq_true, if_false,
      List.mem_cons, List.not_mem_nil, or_false] at hs
    rcases hs with rfl | rfl | rfl
    · exact h
    · exact (sender_of_unprotected hprot _).trans hhome
    · exact recoverPlain_frontier hhome

end Crypto

namespace TxPool

variable {C : Crypto} {ord : RangeOrder} {now : ℤ} {pool pool' : TxPool} {tx : Transaction}
  {txs : List Transaction}

/-- A transaction without an error was not filtered out. -/
theorem known_of_outcomes {isLocal : Bool} {start : TxPool} {i : ℕ}
    {r : TxPool × List (Option TxError)} (hr : outcomes C ord now isLocal start pool txs = some r)
    (htx : txs[i]? = some tx) (herr : r.2[i]? = some none) : start.knownOrInvalid C tx = none := by
  induction txs generalizing pool r i with
  | nil => simp at htx
  | cons tx' txs ih =>
    obtain ⟨pool₁, err, r', hr', -, herrs, hcase⟩ := of_outcomes_cons hr
    rw [herrs] at herr
    cases i with
    | zero =>
      obtain rfl : tx' = tx := by simpa using htx
      obtain rfl : err = none := by simpa using herr
      rcases hcase with ⟨-, hsome⟩ | ⟨hknown, -⟩
      · cases hsome
      · exact hknown
    | succ i => exact ih hr' htx herr

/-- An accepted transaction has a sender. -/
theorem sender_of_addTxs {isLocal : Bool} {errs : List (Option TxError)}
    {dirty : Option AccountSet} {i : ℕ}
    (h : pool.addTxs C ord now txs isLocal = some (pool', errs, dirty)) (htx : txs[i]? = some tx)
    (herr : errs[i]? = some none) :
    ∃ addr, C.sender poolSigner tx = .ok addr := by
  have hnone := known_of_outcomes (outcomes_of_addTxs h) htx herr
  cases hs : C.sender poolSigner tx with
  | ok addr => exact ⟨addr, rfl⟩
  | error e =>
    simp only [knownOrInvalid, hs] at hnone
    split_ifs at hnone

/-- **One sender per transaction.** The signers of the pool, of block import and of the RPC view
    agree on an accepted transaction, in every order of their queries, exactly when it is not
    protected. -/
theorem accepted_one_sender_iff (C : Crypto) (ord : RangeOrder) (now : ℤ) (pool pool' : TxPool)
    (txs : List Transaction) (errs : List (Option TxError)) (dirty : Option AccountSet)
    (h : pool.addLocals C ord now txs = some (pool', errs, dirty) ∨
      pool.addRemotes C ord now txs = some (pool', errs, dirty))
    (i : ℕ) (tx : Transaction) (htx : txs[i]? = some tx) (herr : errs[i]? = some none) :
    C.OneSender tx ↔ tx.isProtected = false := by
  obtain ⟨addr, hs⟩ : ∃ addr, C.sender poolSigner tx = .ok addr := by
    rcases h with h | h
    · exact sender_of_addTxs h htx herr
    · exact sender_of_addTxs h htx herr
  exact C.oneSender_iff_unprotected hs

end TxPool

namespace Concrete

/-- A transfer signed without a chain ID. -/
def unprotectedPay : Transaction := crypto.signTx (transfer 0 0 5) .homestead (7 : UInt8)

/-- What a new pool answers to a local transaction. -/
def admission (tx : Transaction) : Option (TxPool × List (Option TxError) × Option AccountSet) :=
  (newTxPool defaultTxPoolConfig (uniformState 0 100)).addLocals crypto rangeOrder 0 [tx]

/-- The pool accepts a transaction signed for its own chain ID, which block import and the RPC
    view find no sender for. -/
theorem accepted_without_one_sender :
    (admission (pay 7 0 5)).map (fun r => r.2.1) = some [none] ∧
      crypto.sender makeSigner (pay 7 0 5) = .error .invalidChainId ∧
      crypto.sender (pay 7 0 5).rpcSigner (pay 7 0 5) = .error .invalidChainId ∧
      ¬ crypto.OneSender (pay 7 0 5) := by
  have hsender : crypto.sender makeSigner (pay 7 0 5) = .error .invalidChainId := by
    decide +kernel
  refine ⟨by decide +kernel, hsender, by decide +kernel, fun hone => ?_⟩
  obtain ⟨addr, hall⟩ := Crypto.oneSender_iff.1 hone
  have hok := hall makeSigner (by simp [Transaction.signers])
  rw [hsender] at hok
  exact absurd hok (by simp)

/-- The answer to a transaction without a chain ID. -/
def unprotectedAdmission : TxPool × List (Option TxError) × Option AccountSet :=
  (admission unprotectedPay).get (by decide +kernel)

theorem accepted_one_sender_unprotected :
    unprotectedAdmission.2.1 = [none] ∧ unprotectedPay.isProtected = false ∧
      (crypto.OneSender unprotectedPay ↔ unprotectedPay.isProtected = false) := by
  have hadd : admission unprotectedPay = some unprotectedAdmission := (Option.some_get _).symm
  have herrs : unprotectedAdmission.2.1 = [none] := by decide +kernel
  exact ⟨herrs, by decide +kernel,
    TxPool.accepted_one_sender_iff crypto rangeOrder 0
      (newTxPool defaultTxPoolConfig (uniformState 0 100)) unprotectedAdmission.1 [unprotectedPay]
      unprotectedAdmission.2.1 unprotectedAdmission.2.2 (Or.inl hadd) 0 unprotectedPay rfl
      (herrs ▸ rfl)⟩

end Concrete

end Benzene
