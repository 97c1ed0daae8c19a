import Benzene.External.Secp256k1
import Benzene.Types.Block

/-!
# Transaction hashes and signers

Model of core/types/transaction_signing.go and of the hashing and signing parts of
core/types/transaction.go: the hash and size of a transaction, the three signers with the
fields each of them hashes, the encoding of the chain ID in `V`, recovery of the sender, and
the per-transaction cache of `Sender`.

Results:

* `hash_binds_iff`: when the EIP155 signing hash of two transactions decides all of their
  content.  The price, the gas limit and the payload are not hashed.
* `sender_signTx_iff`: signing and then recovering returns the signer's own address, except
  for chain ID 0, where `V` marks the transaction as unprotected and recovery hashes other
  fields than signing did.
* `querySenders_eq`: the cache is transparent, for any order of queries.
-/

namespace Benzene

/-- `big.Int.BitLen`. -/
def bitLen (x : ℤ) : ℕ := x.natAbs.size

/-- `big.Int.Uint64`: the low 64 bits of the absolute value. -/
def bigUint64 (x : ℤ) : UInt64 := UInt64.ofNat x.natAbs

/-- The ways in which recovery fails: `ErrInvalidSig`, `ErrInvalidChainId`, an error of
    `crypto.Ecrecover`, and `"invalid public key"`. -/
inductive SenderError
  | invalidSig
  | invalidChainId
  | ecrecover
  | invalidPublicKey
deriving DecidableEq

/-- The implementations of `Signer`. -/
inductive Signer
  | eip155 (chainId : ℤ)
  | homestead
  | frontier
deriving DecidableEq

/-- `NewEIP155Signer` (core/types/transaction_signing.go:101-109); nil is chain ID 0. -/
def newEIP155Signer (chainId : Option ℤ) : Signer := .eip155 (chainId.getD 0)

/-- `MakeSigner` (core/types/transaction_signing.go:42-44). -/
def makeSigner : Signer := newEIP155Signer none

/-- `isProtectedV` (core/types/transaction.go:136-143). -/
def isProtectedV (V : ℤ) : Bool :=
  if bitLen V ≤ 8 then
    let v := bigUint64 V
    v != 27 && v != 28
  else true

/-- `deriveChainID` (core/types/transaction_signing.go:239-249). -/
def deriveChainID (v : ℤ) : ℤ :=
  if bitLen v ≤ 64 then
    let v := bigUint64 v
    if v = 27 ∨ v = 28 then 0 else ((v - 35) / 2).toNat
  else (v - 35) / 2

namespace Transaction

/-- `Protected`. -/
def isProtected (tx : Transaction) : Bool := isProtectedV tx.v

/-- `ChainID`. -/
def chainID (tx : Transaction) : ℤ := deriveChainID tx.v

/-- The fields of `txdata`, as RLP writes them. -/
def fields (tx : Transaction) : List (Option Bytes) :=
  [Rlp.uint tx.accountNonce, Rlp.bigInt tx.price, Rlp.uint tx.gasLimit, Rlp.uint tx.shardID,
    Rlp.uint tx.toShardID, Rlp.pointer tx.recipient, Rlp.bigInt tx.amount, Rlp.bytes tx.payload,
    Rlp.bigInt tx.v, Rlp.bigInt tx.r, Rlp.bigInt tx.s]

/-- `Size` (core/types/transaction.go:232-240): an encoding error writes nothing. -/
def size (tx : Transaction) : ℕ := ((Rlp.encode tx.fields).map List.length).getD 0

/-- The content a user signs: everything but the signature. -/
structure SameContent (t t' : Transaction) : Prop where
  accountNonce : t.accountNonce = t'.accountNonce
  price : t.price = t'.price
  gasLimit : t.gasLimit = t'.gasLimit
  shardID : t.shardID = t'.shardID
  toShardID : t.toShardID = t'.toShardID
  recipient : t.recipient = t'.recipient
  amount : t.amount = t'.amount
  payload : t.payload = t'.payload

/-- `Cost` (core/types/transaction.go:259-263). -/
def cost (tx : Transaction) : ℤ := tx.amount

end Transaction

namespace Signer

/-- The fields hashed by `FrontierSigner.Hash` (core/types/transaction_signing.go:197-205);
    `HomesteadSigner` embeds `FrontierSigner`. -/
def frontierFields (tx : Transaction) : List (Option Bytes) :=
  [Rlp.uint tx.accountNonce, Rlp.uint tx.shardID, Rlp.uint tx.toShardID,
    Rlp.pointer tx.recipient, Rlp.bigInt tx.amount]

/-- The fields hashed by `EIP155Signer.Hash` (core/types/transaction_signing.go:146-155). -/
def eip155Fields (chainId : ℤ) (tx : Transaction) : List (Option Bytes) :=
  [Rlp.uint tx.accountNonce, Rlp.uint tx.shardID, Rlp.uint tx.toShardID,
    Rlp.pointer tx.recipient, Rlp.bigInt tx.amount, Rlp.bigInt chainId, Rlp.uint 0, Rlp.uint 0]

/-- The fields hashed by a signer. -/
def hashFields : Signer → Transaction → List (Option Bytes)
  | eip155 chainId => eip155Fields chainId
  | homestead => frontierFields
  | frontier => frontierFields

/-- `Equal`. -/
def equal (s s2 : Signer) : Bool := decide (s = s2)

/-- `SignatureValues` (core/types/transaction_signing.go:133-144, 185-195): `R`, `S` and `V`.
    The bytes `sig[64] + 27` and `sig[64] + 35` wrap. -/
def signatureValues (s : Signer) (sig : ByteArr 65) : ℤ × ℤ × ℤ :=
  match s with
  | eip155 chainId =>
    (sigR sig, sigS sig,
      if chainId ≠ 0 then ((sigV sig + 35).toNat : ℤ) + chainId * 2 else (sigV sig + 27).toNat)
  | _ => (sigR sig, sigS sig, (sigV sig + 27).toNat)

end Signer

namespace Crypto

variable (C : Crypto)

/-- `Transaction.Hash`. -/
def txHash (tx : Transaction) : Hash := C.rlpHash tx.fields

/-- `Signer.Hash`. -/
def signerHash (s : Signer) (tx : Transaction) : Hash := C.rlpHash (s.hashFields tx)

/-- The end of `recoverPlain`: the address of a recovered public key. -/
def senderOfPub : Option Bytes → Except SenderError Address
  | none => .error .ecrecover
  | some pub =>
    if pub.head? ≠ some 4 then .error .invalidPublicKey
    else .ok (pubkeyToAddress C.keccak256 pub)

/-- `recoverPlain` (core/types/transaction_signing.go:211-236). The range check keeps `R` and `S`
    within 32 bytes. -/
def recoverPlain (sighash : Hash) (R S Vb : ℤ) (homestead : Bool) : Except SenderError Address :=
  if 8 < bitLen Vb then .error .invalidSig
  else
    let V := (bigUint64 Vb - 27).toUInt8
    if !validateSignatureValues V R S homestead then .error .invalidSig
    else
      let sig := List.leftpad 32 0 (bigEndian R.natAbs) ++
        List.leftpad 32 0 (bigEndian S.natAbs) ++ [V]
      C.senderOfPub (C.ecrecover sighash sig)

/-- `Signer.Sender` (core/types/transaction_signing.go:118-128, 176-178, 207-209). -/
def sender (s : Signer) (tx : Transaction) : Except SenderError Address :=
  match s with
  | .eip155 chainId =>
    if !tx.isProtected then C.recoverPlain (C.signerHash .homestead tx) tx.r tx.s tx.v true
    else if tx.chainID ≠ chainId then .error .invalidChainId
    else C.recoverPlain (C.signerHash s tx) tx.r tx.s (tx.v - chainId * 2 - 8) true
  | .homestead => C.recoverPlain (C.signerHash .homestead tx) tx.r tx.s tx.v true
  | .frontier => C.recoverPlain (C.signerHash .frontier tx) tx.r tx.s tx.v false

/-- `SignTx` (core/types/transaction_signing.go:47-54), with `WithSignature`. -/
def signTx (tx : Transaction) (s : Signer) (prv : C.PrivateKey) : Transaction :=
  let sig := C.sign (C.signerHash s tx) prv
  let values := s.signatureValues sig
  { tx with r := values.1, s := values.2.1, v := values.2.2 }

/-- `Sender` (core/types/transaction_signing.go:63-80) with the content of the cache `from`
    before and after. -/
def cachedSender (s : Signer) (tx : Transaction) (from_ : Option (Signer × Address)) :
    Except SenderError Address × Option (Signer × Address) :=
  let derive : Except SenderError Address × Option (Signer × Address) :=
    match C.sender s tx with
    | .error e => (.error e, from_)
    | .ok addr => (.ok addr, some (s, addr))
  match from_ with
  | some (signer, addr) => if signer.equal s then (.ok addr, from_) else derive
  | none => derive

/-- What a sequence of `Sender` calls on one transaction returns. -/
def querySenders (tx : Transaction) :
    Option (Signer × Address) → List Signer → List (Except SenderError Address)
  | _, [] => []
  | from_, s :: ss =>
    let r := C.cachedSender s tx from_
    r.1 :: querySenders tx r.2 ss

end Crypto

/-! ## The signing hash -/

namespace Signer

/-- The part of a transaction that the signing hash covers. -/
structure SameHashed (t t' : Transaction) : Prop where
  accountNonce : t.accountNonce = t'.accountNonce
  shardID : t.shardID = t'.shardID
  toShardID : t.toShardID = t'.toShardID
  recipient : t.recipient = t'.recipient
  amount : t.amount = t'.amount

/-- The fields to sign have an encoding. -/
def Encodable (chainId : ℤ) (t : Transaction) : Prop := 0 ≤ chainId ∧ 0 ≤ t.amount

theorem none_mem_eip155Fields {chainId : ℤ} {t : Transaction} :
    none ∈ eip155Fields chainId t ↔ ¬ Encodable chainId t := by
  have hsplit : ¬ Encodable chainId t ↔ t.amount < 0 ∨ chainId < 0 := by
    unfold Encodable
    omega
  simp [eip155Fields, Rlp.uint, Rlp.pointer, hsplit, ← Rlp.bigInt_eq_none, eq_comm]

theorem eip155Fields_inj {chainId : ℤ} {t t' : Transaction} (henc : Encodable chainId t) :
    eip155Fields chainId t = eip155Fields chainId t' ↔ SameHashed t t' := by
  simp only [eip155Fields, List.cons.injEq, and_true]
  constructor
  · rintro ⟨hnonce, hshard, htoShard, hrecipient, hamount⟩
    exact ⟨Rlp.uint_injective hnonce, Rlp.uint_injective hshard, Rlp.uint_injective htoShard,
      Rlp.pointer_injective (by norm_num) hrecipient, Rlp.bigInt_inj henc.2 hamount⟩
  · rintro ⟨hnonce, hshard, htoShard, hrecipient, hamount⟩
    simp [hnonce, hshard, htoShard, hrecipient, hamount]

end Signer

namespace Crypto

variable {C : Crypto}

/-- Two transactions have one EIP155 signing hash when the five hashed fields agree, or when
    neither can be encoded. -/
theorem signerHash_eip155_eq_iff {chainId : ℤ} {t t' : Transaction}
    (hcf : C.NoCollision (Signer.eip155Fields chainId t) (Signer.eip155Fields chainId t')) :
    C.signerHash (.eip155 chainId) t = C.signerHash (.eip155 chainId) t' ↔
      Signer.SameHashed t t' ∨
        (¬ Signer.Encodable chainId t ∧ ¬ Signer.Encodable chainId t') := by
  have hstrings : C.signerHash (.eip155 chainId) t = C.signerHash (.eip155 chainId) t' ↔
      Rlp.strings (Signer.eip155Fields chainId t) =
        Rlp.strings (Signer.eip155Fields chainId t') := ⟨hcf, C.rlpHash_congr⟩
  have hnone : none ∈ Signer.eip155Fields chainId t ↔ _ := Signer.none_mem_eip155Fields
  have hnone' : none ∈ Signer.eip155Fields chainId t' ↔ _ := Signer.none_mem_eip155Fields
  rw [hstrings, Rlp.strings_inj, hnone, hnone']
  by_cases henc : Signer.Encodable chainId t
  · rw [Signer.eip155Fields_inj henc]
  · constructor
    · rintro (hfields | hboth)
      · exact Or.inr ⟨henc, hnone'.1 (hfields ▸ hnone.2 henc)⟩
      · exact Or.inr hboth
    · rintro (hsame | hboth)
      · refine Or.inr ⟨henc, ?_⟩
        unfold Signer.Encodable at henc ⊢
        rwa [← hsame.amount]
      · exact Or.inr hboth

/-- **What the EIP155 signing hash binds.** Equal hashes mean equal content for exactly those
    pairs of transactions that agree on the price, the gas limit and the payload whenever they
    agree on the five hashed fields, and that are equal when neither can be encoded (a negative
    amount or chain ID leaves the hash of nothing). -/
theorem hash_binds_iff (C : Crypto) (chainId : ℤ) (t t' : Transaction)
    (hcf : C.NoCollision (Signer.eip155Fields chainId t) (Signer.eip155Fields chainId t')) :
    (C.signerHash (.eip155 chainId) t = C.signerHash (.eip155 chainId) t' →
        t.SameContent t') ↔
      (Signer.SameHashed t t' →
        t.price = t'.price ∧ t.gasLimit = t'.gasLimit ∧ t.payload = t'.payload) ∧
      (¬ Signer.Encodable chainId t → ¬ Signer.Encodable chainId t' → t.SameContent t') := by
  rw [signerHash_eip155_eq_iff hcf]
  constructor
  · intro hbind
    refine ⟨fun hsame => ?_, fun henc henc' => hbind (Or.inr ⟨henc, henc'⟩)⟩
    have hcontent := hbind (Or.inl hsame)
    exact ⟨hcontent.price, hcontent.gasLimit, hcontent.payload⟩
  · rintro ⟨hrest, hnone⟩ (hsame | ⟨henc, henc'⟩)
    · obtain ⟨hprice, hgas, hpayload⟩ := hrest hsame
      exact ⟨hsame.accountNonce, hprice, hgas, hsame.shardID, hsame.toShardID, hsame.recipient,
        hsame.amount, hpayload⟩
    · exact hnone henc henc'

end Crypto

namespace Concrete

/-- An unsigned transfer. -/
def transfer (nonce : UInt64) (gasLimit : UInt64) (amount : ℤ) : Transaction where
  accountNonce := nonce
  price := 1
  gasLimit := gasLimit
  shardID := 0
  toShardID := 0
  recipient := none
  amount := amount
  payload := []
  v := 0
  r := 0
  s := 0

/-- A transfer signed for chain ID 1. -/
def signedTransfer : Transaction := crypto.signTx (transfer 3 21000 5) (.eip155 1) (7 : UInt8)

/-- The same signature under another price, gas limit and payload. -/
def transplanted : Transaction :=
  { signedTransfer with price := 1000, gasLimit := 1, payload := [0xde, 0xad] }

/-- A signature can be moved to another transaction: the hashes agree without a collision, and
    both transactions are from the same sender. -/
theorem signature_transplanted :
    crypto.NoCollision (Signer.eip155Fields 1 signedTransfer)
        (Signer.eip155Fields 1 transplanted) ∧
      crypto.signerHash (.eip155 1) signedTransfer = crypto.signerHash (.eip155 1) transplanted ∧
      ¬ signedTransfer.SameContent transplanted ∧
      crypto.sender (.eip155 1) signedTransfer = .ok (crypto.address (7 : UInt8)) ∧
      crypto.sender (.eip155 1) transplanted = .ok (crypto.address (7 : UInt8)) := by
  have hsender : crypto.sender (.eip155 1) signedTransfer =
      .ok (crypto.address (7 : UInt8)) := by decide +kernel
  refine ⟨fun _ => rfl, rfl, ?_, hsender, hsender⟩
  intro hsame
  exact absurd hsame.price (by decide)

theorem hash_binds_transfers :
    crypto.NoCollision (Signer.eip155Fields 1 (transfer 3 21000 5))
        (Signer.eip155Fields 1 (transfer 4 21000 5)) ∧
      ((crypto.signerHash (.eip155 1) (transfer 3 21000 5) =
          crypto.signerHash (.eip155 1) (transfer 4 21000 5) →
        (transfer 3 21000 5).SameContent (transfer 4 21000 5)) ↔
      (Signer.SameHashed (transfer 3 21000 5) (transfer 4 21000 5) →
        (transfer 3 21000 5).price = (transfer 4 21000 5).price ∧
          (transfer 3 21000 5).gasLimit = (transfer 4 21000 5).gasLimit ∧
          (transfer 3 21000 5).payload = (transfer 4 21000 5).payload) ∧
      (¬ Signer.Encodable 1 (transfer 3 21000 5) → ¬ Signer.Encodable 1 (transfer 4 21000 5) →
        (transfer 3 21000 5).SameContent (transfer 4 21000 5))) := by
  have hcf : crypto.NoCollision (Signer.eip155Fields 1 (transfer 3 21000 5))
      (Signer.eip155Fields 1 (transfer 4 21000 5)) := by
    intro heq
    exact absurd heq (by decide +kernel)
  exact ⟨hcf, Crypto.hash_binds_iff crypto 1 (transfer 3 21000 5) (transfer 4 21000 5) hcf⟩

end Concrete

/-! ## Signing and recovering -/

namespace Crypto

variable {C : Crypto}

theorem natAbs_lt_of_bitLen {x : ℤ} {k : ℕ} (h : bitLen x ≤ k) : x.natAbs < 2 ^ k :=
  Nat.size_le.1 h

theorem bigUint64_toNat {x : ℤ} (h : bitLen x ≤ 64) : (bigUint64 x).toNat = x.natAbs := by
  have hlt := natAbs_lt_of_bitLen h
  simp only [bigUint64, UInt64.toNat_ofNat']
  exact Nat.mod_eq_of_lt hlt

theorem eq_of_bigUint64 {V : ℤ} (hV : 0 ≤ V) (hlen : bitLen V ≤ 64)
    (h : bigUint64 V = 27 ∨ bigUint64 V = 28) : V = 27 ∨ V = 28 := by
  have hv := bigUint64_toNat hlen
  rcases h with h | h
  · rw [h, show (27 : UInt64).toNat = 27 from rfl] at hv
    omega
  · rw [h, show (28 : UInt64).toNat = 28 from rfl] at hv
    omega

/-- `V = 27` and `V = 28` are unprotected. -/
theorem unprotected_iff {V : ℤ} (hV : 0 ≤ V) : isProtectedV V = false ↔ V = 27 ∨ V = 28 := by
  constructor
  · intro h
    unfold isProtectedV at h
    split_ifs at h with hlen
    simp only [Bool.and_eq_false_iff, bne_eq_false_iff_eq] at h
    exact eq_of_bigUint64 hV (by omega) h
  · rintro (rfl | rfl)
    · decide
    · decide

theorem isProtectedV_of_large {v : ℤ} (h : 29 ≤ v) : isProtectedV v = true := by
  rw [← Bool.not_eq_false, unprotected_iff (by omega)]
  omega

/-- `V = 35 + 2 c` and `V = 36 + 2 c` encode chain ID `c`. -/
theorem deriveChainID_eq {b : ℕ} (hb : b ≤ 1) (c : ℕ) :
    deriveChainID (35 + b + c * 2) = c := by
  simp only [deriveChainID]
  split_ifs with hlen h27
  · -- within 64 bits, in machine arithmetic
    have hv := eq_of_bigUint64 (by omega) hlen h27
    omega
  · have hv := bigUint64_toNat hlen
    have hle : (35 : UInt64) ≤ bigUint64 (35 + b + c * 2) := by
      rw [UInt64.le_iff_toNat_le, hv, show (35 : UInt64).toNat = 35 from rfl]
      omega
    rw [UInt64.toNat_div, UInt64.toNat_sub_of_le _ _ hle, hv,
      show (35 : UInt64).toNat = 35 from rfl, show (2 : UInt64).toNat = 2 from rfl]
    omega
  · omega

variable (C)

/-- Recovering a sender from the values of a signature recovers from that signature. -/
theorem recoverPlain_sign (h h' : Hash) (k : C.PrivateKey) :
    C.recoverPlain h (sigR (C.sign h' k)) (sigS (C.sign h' k))
        (27 + (sigV (C.sign h' k)).toNat) true =
      C.senderOfPub (C.ecrecover h (C.sign h' k).toList) := by
  have hvalid := C.sign_valid h' k
  generalize C.sign h' k = sig at hvalid
  have hV : sigV sig = 0 ∨ sigV sig = 1 := (validateSignatureValues_iff.1 hvalid).2.2.2.2.2
  have hlen : ¬ 8 < bitLen (27 + ((sigV sig).toNat : ℤ)) := by
    rcases hV with hV | hV <;> rw [hV] <;> decide
  have hbyte : (bigUint64 (27 + ((sigV sig).toNat : ℤ)) - 27).toUInt8 = sigV sig := by
    rcases hV with hV | hV <;> rw [hV] <;> decide
  -- `R` and `S` give back the bytes they were read from
  have hR : List.leftpad 32 0 (bigEndian (sigR sig)) = sig.toList.take 32 := by
    simpa [sigR] using leftpad_bigEndian (sig.toList.take 32)
  have hS : List.leftpad 32 0 (bigEndian (sigS sig)) = (sig.toList.drop 32).take 32 := by
    simpa [sigS] using leftpad_bigEndian ((sig.toList.drop 32).take 32)
  have hsig : sig.toList.take 32 ++ (sig.toList.drop 32).take 32 ++ [sigV sig] = sig.toList := by
    have hlast : sig.toList.drop 64 = [sigV sig] := by
      have hlt : 64 < sig.toList.length := by simp
      rw [List.drop_eq_getElem_cons hlt, List.drop_eq_nil_of_le (by simp), sigV,
        List.getD_eq_getElem _ _ hlt]
    rw [← hlast, List.append_assoc, ← List.drop_drop (i := 32) (j := 32),
      List.take_append_drop, List.take_append_drop]
  simp only [recoverPlain, hlen, if_false, hbyte, hvalid, Bool.not_true, Bool.false_eq_true,
    Int.natAbs_natCast, hR, hS, hsig]

/-- The address of the key that signed is recovered under the signed hash only. -/
theorem senderOfPub_ecrecover_iff (h h' : Hash) (k : C.PrivateKey) :
    C.senderOfPub (C.ecrecover h' (C.sign h k).toList) = .ok (C.address k) ↔ h' = h := by
  constructor
  · intro hok
    cases hrec : C.ecrecover h' (C.sign h k).toList with
    | none => simp [hrec, senderOfPub] at hok
    | some pub =>
      simp only [hrec, senderOfPub] at hok
      split_ifs at hok
      exact C.ecrecover_binds h h' k pub hrec (Except.ok.inj hok)
  · rintro rfl
    simp [C.ecrecover_sign, senderOfPub, C.publicKey_head, address]

theorem sigV_sign (h : Hash) (k : C.PrivateKey) :
    sigV (C.sign h k) = 0 ∨ sigV (C.sign h k) = 1 :=
  (validateSignatureValues_iff.1 (C.sign_valid h k)).2.2.2.2.2

theorem sigV_sign_le (h : Hash) (k : C.PrivateKey) : (sigV (C.sign h k)).toNat ≤ 1 := by
  rcases C.sigV_sign h k with hV | hV <;> rw [hV] <;> decide

theorem sigV_sign_add (h : Hash) (k : C.PrivateKey) :
    (sigV (C.sign h k) + 27).toNat = 27 + (sigV (C.sign h k)).toNat ∧
      (sigV (C.sign h k) + 35).toNat = 35 + (sigV (C.sign h k)).toNat := by
  rcases C.sigV_sign h k with hV | hV <;> rw [hV] <;> decide

/-- For chain ID 0, `V` is 27 or 28: recovery takes the unprotected path, which hashes other
    fields than signing did. -/
theorem sender_signTx_zero (tx : Transaction) (k : C.PrivateKey) :
    C.sender (.eip155 0) (C.signTx tx (.eip155 0) k) =
      C.senderOfPub (C.ecrecover (C.signerHash .homestead tx)
        (C.sign (C.signerHash (.eip155 0) tx) k).toList) := by
  have hv : (C.signTx tx (.eip155 0) k).v =
      27 + ((sigV (C.sign (C.signerHash (.eip155 0) tx) k)).toNat : ℤ) := by
    simp only [signTx, Signer.signatureValues, ne_eq, not_true_eq_false, if_false,
      C.sigV_sign_add]
    push_cast
    rfl
  have hprot : isProtectedV (C.signTx tx (.eip155 0) k).v = false := by
    have hle := C.sigV_sign_le (C.signerHash (.eip155 0) tx) k
    exact (unprotected_iff (by omega)).2 (by omega)
  simp only [sender, Transaction.isProtected, hprot, Bool.not_false, if_true]
  rw [hv]
  exact C.recoverPlain_sign _ _ k

/-- For other chain IDs recovery finds the chain ID in `V` and hashes what was signed. -/
theorem sender_signTx_of_ne_zero {chainId : ℕ} (hc : chainId ≠ 0) (tx : Transaction)
    (k : C.PrivateKey) :
    C.sender (.eip155 chainId) (C.signTx tx (.eip155 chainId) k) =
      C.senderOfPub (C.ecrecover (C.signerHash (.eip155 chainId) tx)
        (C.sign (C.signerHash (.eip155 chainId) tx) k).toList) := by
  have hv : (C.signTx tx (.eip155 chainId) k).v =
      35 + ((sigV (C.sign (C.signerHash (.eip155 chainId) tx) k)).toNat : ℤ) + chainId * 2 := by
    have hc' : (chainId : ℤ) ≠ 0 := by exact_mod_cast hc
    simp only [signTx, Signer.signatureValues, if_pos hc', C.sigV_sign_add]
    push_cast
    rfl
  have hprot : isProtectedV (C.signTx tx (.eip155 chainId) k).v = true := by
    apply isProtectedV_of_large
    rw [hv]
    omega
  have hchain : deriveChainID (C.signTx tx (.eip155 chainId) k).v = chainId := by
    rw [hv]
    exact deriveChainID_eq (C.sigV_sign_le _ k) chainId
  simp only [sender, Transaction.isProtected, Transaction.chainID, hprot, hchain, Bool.not_true,
    Bool.false_eq_true, if_false, ne_eq, not_true_eq_false]
  rw [hv, ← C.recoverPlain_sign _ _ k]
  congr 1
  ring

/-- **Signing and then recovering the sender**, with the EIP155 signer of a chain ID: it
    succeeds with the address of the key exactly when the chain ID is not 0, or the two hashes
    used for chain ID 0 are the same. -/
theorem sender_signTx_iff (chainId : ℕ) (tx : Transaction) (k : C.PrivateKey) :
    C.sender (.eip155 chainId) (C.signTx tx (.eip155 chainId) k) = .ok (C.address k) ↔
      chainId ≠ 0 ∨ C.signerHash .homestead tx = C.signerHash (.eip155 0) tx := by
  by_cases hc : chainId = 0
  · subst hc
    rw [Nat.cast_zero, sender_signTx_zero, senderOfPub_ecrecover_iff]
    simp
  · rw [sender_signTx_of_ne_zero C hc, senderOfPub_ecrecover_iff]
    simp [hc]

/-- The signer that block import uses signs for chain ID 0, and does not recover its own
    signatures. -/
theorem makeSigner_not_recovered :
    Concrete.crypto.sender makeSigner
        (Concrete.crypto.signTx (Concrete.transfer 3 21000 5) makeSigner (7 : UInt8)) =
      .error .ecrecover := by
  decide +kernel

/-! ## The sender cache -/

/-- The cache holds what its signer derives. -/
def CacheOk (tx : Transaction) (from_ : Option (Signer × Address)) : Prop :=
  ∀ s addr, from_ = some (s, addr) → C.sender s tx = .ok addr

variable {C} {from_ : Option (Signer × Address)}

theorem cachedSender_eq {tx : Transaction} (hok : C.CacheOk tx from_) (s : Signer) :
    (C.cachedSender s tx from_).1 = C.sender s tx ∧
      C.CacheOk tx (C.cachedSender s tx from_).2 := by
  -- a miss: the result is derived, and cached when there is one
  have hderive : ∀ d, d = (match C.sender s tx with
      | .error e => ((.error e : Except SenderError Address), from_)
      | .ok addr => (.ok addr, some (s, addr))) → d.1 = C.sender s tx ∧ C.CacheOk tx d.2 := by
    rintro d rfl
    cases hs : C.sender s tx with
    | error e => exact ⟨rfl, hok⟩
    | ok addr =>
      refine ⟨rfl, ?_⟩
      rintro s' addr' hsome
      obtain ⟨rfl, rfl⟩ := Prod.mk.inj (Option.some.inj hsome)
      exact hs
  unfold cachedSender
  match from_, hok, hderive with
  | none, _, hderive => exact hderive _ rfl
  | some (signer, addr), hok, hderive =>
    simp only
    split_ifs with heq
    · obtain rfl : signer = s := of_decide_eq_true heq
      exact ⟨(hok signer addr rfl).symm, hok⟩
    · exact hderive _ rfl

/-- The cache is transparent: whatever the order of the queries, each returns what its signer
    derives. -/
theorem querySenders_eq {tx : Transaction} (hok : C.CacheOk tx from_) (ss : List Signer) :
    C.querySenders tx from_ ss = ss.map fun s => C.sender s tx := by
  induction ss generalizing from_ with
  | nil => rfl
  | cons s ss ih =>
    obtain ⟨hres, hcache⟩ := cachedSender_eq hok s
    simp only [querySenders, List.map_cons, hres, ih hcache]

end Crypto

end Benzene
