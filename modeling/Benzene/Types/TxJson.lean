import Benzene.Common.Run
import Benzene.Types.Signing

/-!
# Transactions in JSON

Model of `MarshalJSON` and `UnmarshalJSON` (core/types/transaction.go:161-193) with the generated
code of core/types/gen_tx_json.go.  The texts themselves are left to a `TxCodec`: what it writes
it reads back, if the big integers have at most 256 bits, and it reads no others.

`UnmarshalJSON` checks a signature with one bit that it takes from `V`, in 64-bit arithmetic that
wraps.  The bit is 0 or 1 for every `V` (`signatureByte_le`), so `V` is not checked at all.

* `unmarshalJSON_marshalJSON`: a signed transaction comes back as it was.
* `json_signature_iff`: an accepted signature has a `V` that encodes its chain ID, unless `V` is
  below 27 or between 29 and 34.
-/

namespace Benzene

/-- The required fields of the JSON object. -/
inductive TxField
  | nonce
  | gasPrice
  | gas
  | shardID
  | toShardID
  | value
  | input
  | v
  | r
  | s
deriving DecidableEq

/-- The name of a field in the JSON object. -/
def TxField.name : TxField → String
  | .nonce => "nonce"
  | .gasPrice => "gasPrice"
  | .gas => "gas"
  | .shardID => "shardID"
  | .toShardID => "toShardID"
  | .value => "value"
  | .input => "input"
  | .v => "v"
  | .r => "r"
  | .s => "s"

/-- The errors of `UnmarshalJSON`. -/
inductive TxJsonError
  /-- `json.Unmarshal` fails. -/
  | json
  | missing (field : TxField)
  | invalidSig
deriving DecidableEq

/-- The text of an error of this module; that of `encoding/json` is its own. -/
def TxJsonError.text : TxJsonError → Option String
  | .json => none
  | .missing field => some ("missing required field '" ++ field.name ++ "' for txdata")
  | .invalidSig => some "invalid transaction v, r, s values"

/-- The JSON object (core/types/gen_tx_json.go:52-65), where every field may be missing. -/
structure TxJson where
  nonce : Option UInt64
  gasPrice : Option ℤ
  gas : Option UInt64
  shardID : Option UInt64
  toShardID : Option UInt64
  /-- `"to"`. -/
  recipient : Option Address
  value : Option ℤ
  input : Option Bytes
  v : Option ℤ
  r : Option ℤ
  s : Option ℤ
  hash : Option Hash
deriving DecidableEq

/-- `hexutil.Big` reads and writes numbers of at most 256 bits. -/
def HexBig (x : ℤ) : Prop := 0 ≤ x ∧ x < 2 ^ 256

instance (x : ℤ) : Decidable (HexBig x) := inferInstanceAs (Decidable (_ ∧ _))

/-- The big integers of the object. -/
def TxJson.bigs (o : TxJson) : List ℤ := [o.gasPrice, o.value, o.v, o.r, o.s].reduceOption

/-- All of them fit. -/
def TxJson.Fits (o : TxJson) : Prop := ∀ x ∈ o.bigs, HexBig x

instance (o : TxJson) : Decidable o.Fits := inferInstanceAs (Decidable (∀ x ∈ _, _))

/-- The JSON texts of transactions. -/
structure TxCodec (Text : Type) where
  /-- `json.Marshal`. -/
  marshal : TxJson → Text
  /-- `json.Unmarshal`. -/
  unmarshal : Text → Option TxJson
  unmarshal_marshal : ∀ o, o.Fits → unmarshal (marshal o) = some o
  fits_of_unmarshal : ∀ {text o}, unmarshal text = some o → o.Fits

namespace Transaction

/-- The byte that `UnmarshalJSON` takes from `V` (core/types/transaction.go:178-183). -/
def signatureByte (V : ℤ) : UInt8 :=
  if isProtectedV V then (bigUint64 V - 35 - 2 * bigUint64 (deriveChainID V)).toUInt8
  else (bigUint64 V - 27).toUInt8

/-- There is a signature (core/types/transaction.go:175). -/
def WithSignature (tx : Transaction) : Prop := tx.v ≠ 0 ∨ tx.r ≠ 0 ∨ tx.s ≠ 0

instance (tx : Transaction) : Decidable tx.WithSignature := inferInstanceAs (Decidable (_ ∨ _))

/-- A field that is required. -/
def required {α : Type} (field : TxField) (value : Option α) : Except TxJsonError α :=
  match value with
  | none => .error (.missing field)
  | some x => .ok x

/-- The fields of the object (core/types/gen_tx_json.go:66-120). -/
def ofJson (o : TxJson) : Except TxJsonError Transaction := do
  let accountNonce ← required .nonce o.nonce
  let price ← required .gasPrice o.gasPrice
  let gasLimit ← required .gas o.gas
  let shardID ← required .shardID o.shardID
  let toShardID ← required .toShardID o.toShardID
  let amount ← required .value o.value
  let payload ← required .input o.input
  let v ← required .v o.v
  let r ← required .r o.r
  let s ← required .s o.s
  let recipient := o.recipient
  return { accountNonce, price, gasLimit, shardID, toShardID, recipient, amount, payload, v, r, s }

/-- The object of a transaction (core/types/gen_tx_json.go:33-46). -/
def toJson (C : Crypto) (tx : Transaction) : TxJson where
  nonce := some tx.accountNonce
  gasPrice := some tx.price
  gas := some tx.gasLimit
  shardID := some tx.shardID
  toShardID := some tx.toShardID
  recipient := tx.recipient
  value := some tx.amount
  input := some tx.payload
  v := some tx.v
  r := some tx.r
  s := some tx.s
  hash := some (C.txHash tx)

variable {Text : Type} (J : TxCodec Text)

/-- `MarshalJSON` (core/types/transaction.go:162-167). -/
def marshalJSON (C : Crypto) (tx : Transaction) : Text := J.marshal (tx.toJson C)

/-- `UnmarshalJSON` (core/types/transaction.go:170-193). -/
def unmarshalJSON (input : Text) : Except TxJsonError Transaction :=
  match J.unmarshal input with
  | none => .error .json
  | some o => do
    let dec ← ofJson o
    if dec.WithSignature ∧ validateSignatureValues (signatureByte dec.v) dec.r dec.s false = false
    then .error .invalidSig
    else .ok dec

end Transaction

/-! ## The bit of the signature -/

namespace Crypto

/-- Twice the half of a number leaves its last bit. -/
theorem ofNat_sub_two_mul (m : ℕ) :
    UInt64.ofNat m - 2 * UInt64.ofNat (m / 2) = UInt64.ofNat (m % 2) := by
  have hsplit : UInt64.ofNat m = 2 * UInt64.ofNat (m / 2) + UInt64.ofNat (m % 2) := by
    conv_lhs => rw [← Nat.div_add_mod m 2]
    rw [UInt64.ofNat_add, UInt64.ofNat_mul]
    rfl
  rw [hsplit, UInt64.add_comm, UInt64.add_sub_cancel]

/-- The bit that is checked is 0 or 1, whatever `V` is. -/
theorem signatureByte_le {V : ℤ} (hV : 0 ≤ V) :
    Transaction.signatureByte V = 0 ∨ Transaction.signatureByte V = 1 := by
  have hbit : ∀ m : ℕ, (UInt64.ofNat m - 2 * UInt64.ofNat (m / 2)).toUInt8 = 0 ∨
      (UInt64.ofNat m - 2 * UInt64.ofNat (m / 2)).toUInt8 = 1 := by
    intro m
    rw [ofNat_sub_two_mul]
    rcases Nat.mod_two_eq_zero_or_one m with h | h <;> simp [h]
  unfold Transaction.signatureByte
  split_ifs with hprot
  · have hne : ¬ (V = 27 ∨ V = 28) := by
      rw [← unprotected_iff hV, hprot]
      decide
    unfold deriveChainID
    dsimp only
    split_ifs with hlen h27
    · -- within 64 bits `V` is not 27 or 28
      exact absurd (eq_of_bigUint64 hV hlen h27) hne
    · have hhalf : (bigUint64 V - 35) / 2 = UInt64.ofNat ((bigUint64 V - 35).toNat / 2) := by
        rw [← UInt64.toNat_inj, UInt64.toNat_div, UInt64.toNat_ofNat_of_lt']
        · rfl
        · exact (Nat.div_le_self _ _).trans_lt (UInt64.toNat_lt _)
      have hchain : bigUint64 (((bigUint64 V - 35) / 2).toNat : ℤ) = (bigUint64 V - 35) / 2 := by
        rw [bigUint64, Int.natAbs_natCast, UInt64.ofNat_toNat]
      have hm := hbit (bigUint64 V - 35).toNat
      rwa [UInt64.ofNat_toNat, ← hhalf, ← hchain] at hm
    · -- beyond 64 bits the difference is computed before the wrap
      have hlarge : 35 ≤ V := by
        by_contra hsmall
        apply hlen
        unfold bitLen
        rw [Nat.size_le]
        omega
      obtain ⟨m, rfl⟩ : ∃ m : ℕ, V = m + 35 := ⟨(V - 35).toNat, by omega⟩
      have hfirst : bigUint64 ((m : ℤ) + 35) - 35 = UInt64.ofNat m := by
        rw [bigUint64, show ((m : ℤ) + 35).natAbs = m + 35 by omega, UInt64.ofNat_add]
        exact UInt64.add_sub_cancel _ _
      have hchain : bigUint64 (((m : ℤ) + 35 - 35) / 2) = UInt64.ofNat (m / 2) := by
        rw [bigUint64, show (((m : ℤ) + 35 - 35) / 2).natAbs = m / 2 by omega]
      rw [hfirst, hchain]
      exact hbit m
  · rcases (unprotected_iff hV).1 (by simpa using hprot) with rfl | rfl
    · left
      decide
    · right
      decide

end Crypto

/-! ## Reading and writing -/

namespace Transaction

variable {C : Crypto} {Text : Type} {J : TxCodec Text} {tx : Transaction} {o : TxJson}
  {input : Text}

theorem ofJson_toJson (C : Crypto) (tx : Transaction) : ofJson (tx.toJson C) = .ok tx := rfl

theorem eq_some_of_required {α : Type} {field : TxField} {value : Option α} {x : α}
    (h : required field value = .ok x) : value = some x := by
  cases value with
  | none => cases h
  | some y => rw [Except.ok.inj h]

/-- The object of a transaction that is read has its values. -/
theorem v_of_ofJson (h : ofJson o = .ok tx) : o.v = some tx.v := by
  iterate 7 obtain ⟨_, -, h⟩ := Run.ok_of_bind h
  obtain ⟨v, hv, h⟩ := Run.ok_of_bind h
  iterate 2 obtain ⟨_, -, h⟩ := Run.ok_of_bind h
  obtain rfl := Except.ok.inj h
  exact eq_some_of_required hv

/-- An object with all fields is accepted if `R` and `S` are in range; `V` is not checked. -/
theorem accepts_iff (hread : J.unmarshal input = some o) (hdec : ofJson o = .ok tx) :
    unmarshalJSON J input = .ok tx ↔ (tx.WithSignature →
      (1 ≤ tx.r ∧ tx.r < secp256k1N) ∧ 1 ≤ tx.s ∧ tx.s < secp256k1N) := by
  have hv : 0 ≤ tx.v := by
    have hmem : tx.v ∈ o.bigs := by
      simp [TxJson.bigs, List.reduceOption_mem_iff, v_of_ofJson hdec]
    exact (J.fits_of_unmarshal hread _ hmem).1
  have hvalid : validateSignatureValues (signatureByte tx.v) tx.r tx.s false = true ↔
      (1 ≤ tx.r ∧ tx.r < secp256k1N) ∧ 1 ≤ tx.s ∧ tx.s < secp256k1N := by
    rw [validateSignatureValues_iff]
    have hbit := Crypto.signatureByte_le hv
    constructor
    · rintro ⟨hr, hs, -, hrN, hsN, -⟩
      exact ⟨⟨hr, hrN⟩, hs, hsN⟩
    · rintro ⟨⟨hr, hrN⟩, hs, hsN⟩
      exact ⟨hr, hs, by simp, hrN, hsN, hbit⟩
  rw [← hvalid]
  simp only [unmarshalJSON, hread, hdec, bind, Except.bind]
  split_ifs with hbad
  · simp [hbad.1, hbad.2]
  · simpa using hbad

/-- What is written is read back, if the numbers fit and `R` and `S` are in range. -/
theorem unmarshalJSON_marshalJSON (hprice : HexBig tx.price) (hamount : HexBig tx.amount)
    (hv : HexBig tx.v) (hr : 1 ≤ tx.r ∧ tx.r < secp256k1N) (hs : 1 ≤ tx.s ∧ tx.s < secp256k1N) :
    unmarshalJSON J (marshalJSON J C tx) = .ok tx := by
  have hN : (secp256k1N : ℤ) < 2 ^ 256 := by decide
  have hfits : (tx.toJson C).Fits := by
    intro x hx
    simp only [TxJson.bigs, toJson, List.reduceOption_cons_of_some, List.reduceOption_nil,
      List.mem_cons, List.not_mem_nil, or_false] at hx
    rcases hx with rfl | rfl | rfl | rfl | rfl
    · exact hprice
    · exact hamount
    · exact hv
    · exact ⟨by omega, by omega⟩
    · exact ⟨by omega, by omega⟩
  exact (accepts_iff (J.unmarshal_marshal _ hfits) (ofJson_toJson C tx)).2 fun _ => ⟨hr, hs⟩

/-- Every `V` is accepted, with some signature. -/
theorem exists_accepted {Text : Type} (J : TxCodec Text) {V : ℤ} (hV : HexBig V) :
    ∃ input tx, unmarshalJSON J input = .ok tx ∧ tx.WithSignature ∧ tx.v = V := by
  have hone : (1 : ℤ) ≤ 1 ∧ (1 : ℤ) < secp256k1N := by decide
  have hprice : HexBig (Concrete.transfer 0 0 0).price := by decide
  have hamount : HexBig (Concrete.transfer 0 0 0).amount := by decide
  let tx : Transaction := { Concrete.transfer 0 0 0 with v := V, r := 1, s := 1 }
  have hback : unmarshalJSON J (marshalJSON J Concrete.crypto tx) = .ok tx :=
    unmarshalJSON_marshalJSON hprice hamount hV hone hone
  exact ⟨_, tx, hback, Or.inr (Or.inl one_ne_zero), rfl⟩

/-- `V` encodes the chain ID of the transaction. -/
def EncodesChainID (tx : Transaction) : Prop :=
  (tx.v = 27 ∨ tx.v = 28) ∧ tx.chainID = 0 ∨
    ∃ c : ℕ, (tx.v = 35 + 2 * c ∨ tx.v = 36 + 2 * c) ∧ tx.chainID = c

theorem encodesChainID_iff : tx.EncodesChainID ↔ tx.v = 27 ∨ tx.v = 28 ∨ 35 ≤ tx.v := by
  constructor
  · rintro (⟨h | h, -⟩ | ⟨c, h | h, -⟩)
    · exact Or.inl h
    · exact Or.inr (Or.inl h)
    · omega
    · omega
  · rintro (h | h | h)
    · left
      rw [chainID, h]
      exact ⟨Or.inl rfl, by decide⟩
    · left
      rw [chainID, h]
      exact ⟨Or.inr rfl, by decide⟩
    · right
      -- the parity of `V` is the bit of the signature, the rest the chain ID
      obtain ⟨m, hm⟩ : ∃ m : ℕ, tx.v = 35 + m := ⟨(tx.v - 35).toNat, by omega⟩
      refine ⟨m / 2, by omega, ?_⟩
      have hsplit : tx.v = 35 + (m % 2 : ℕ) + (m / 2 : ℕ) * 2 := by omega
      rw [chainID, hsplit]
      exact Crypto.deriveChainID_eq (by omega) (m / 2)

end Transaction

namespace Crypto

variable (C : Crypto)

/-- The values of an EIP155 signature. -/
theorem signTx_values (tx : Transaction) (k : C.PrivateKey) {chainId : ℕ}
    (hchain : chainId ≤ 2 ^ 254) :
    let signed := C.signTx tx (.eip155 chainId) k
    HexBig signed.v ∧ (1 ≤ signed.r ∧ signed.r < secp256k1N) ∧
      1 ≤ signed.s ∧ signed.s < secp256k1N := by
  obtain ⟨hr, hs, -, hrN, hsN, -⟩ :=
    validateSignatureValues_iff.1 (C.sign_valid (C.signerHash (.eip155 chainId) tx) k)
  refine ⟨?_, ⟨hr, hrN⟩, hs, hsN⟩
  simp only [signTx, Signer.signatureValues]
  unfold HexBig
  have hle := C.sigV_sign_le (C.signerHash (.eip155 chainId) tx) k
  obtain ⟨h27, h35⟩ := C.sigV_sign_add (C.signerHash (.eip155 chainId) tx) k
  split_ifs
  · omega
  · omega

/-- **Transactions in JSON.**  A transaction that an EIP155 signer has signed for a chain ID up to
    `2 ^ 254` comes back with the same hash.  The transactions that are accepted with a signature
    of a given `V` encode their chain ID in it exactly if `V` is 27, 28 or at least 35. -/
theorem json_signature_iff {Text : Type} (J : TxCodec Text) :
    (∀ (tx : Transaction) (k : C.PrivateKey) (chainId : ℕ), chainId ≤ 2 ^ 254 →
      HexBig tx.price → HexBig tx.amount →
      ∃ tx', Transaction.unmarshalJSON J
          (Transaction.marshalJSON J C (C.signTx tx (.eip155 chainId) k)) = .ok tx' ∧
        C.txHash tx' = C.txHash (C.signTx tx (.eip155 chainId) k)) ∧
    ∀ V : ℤ, HexBig V →
      ((∀ (input : Text) (tx : Transaction), Transaction.unmarshalJSON J input = .ok tx →
        tx.WithSignature → tx.v = V → tx.EncodesChainID) ↔ V = 27 ∨ V = 28 ∨ 35 ≤ V) := by
  refine ⟨fun tx k chainId hchain hprice hamount => ?_, fun V hV => ⟨fun hall => ?_, ?_⟩⟩
  · obtain ⟨hv, hr, hs⟩ := C.signTx_values tx k hchain
    exact ⟨_, Transaction.unmarshalJSON_marshalJSON hprice hamount hv hr hs, rfl⟩
  · obtain ⟨input, tx, hok, hsigned, rfl⟩ := Transaction.exists_accepted J hV
    exact Transaction.encodesChainID_iff.1 (hall input tx hok hsigned rfl)
  · rintro hV input tx - - rfl
    exact Transaction.encodesChainID_iff.2 hV

end Crypto

namespace Concrete

/-- The objects themselves as texts. -/
def jsonCodec : TxCodec TxJson where
  marshal o := o
  unmarshal o := if o.Fits then some o else none
  unmarshal_marshal _ h := if_pos h
  fits_of_unmarshal {text o} h := by
    split_ifs at h with hfits
    exact Option.some.inj h ▸ hfits

/-- A transfer with a signature that nobody has made. -/
def forgedJson : TxJson :=
  { (transfer 0 0 0).toJson crypto with v := some 0, r := some 1, s := some 1 }

/-- `V = 0` is accepted, for a chain ID that is near `2 ^ 63`. -/
theorem forged_v_accepted :
    ∃ tx, Transaction.unmarshalJSON jsonCodec forgedJson = .ok tx ∧ tx.WithSignature ∧
      tx.v = 0 ∧ tx.chainID = 9223372036854775790 ∧ ¬ tx.EncodesChainID := by
  refine ⟨{ transfer 0 0 0 with r := 1, s := 1 }, by decide +kernel, by decide, rfl,
    by decide, fun h => ?_⟩
  have hv := Transaction.encodesChainID_iff.1 h
  exact absurd hv (by decide)

end Concrete

end Benzene
