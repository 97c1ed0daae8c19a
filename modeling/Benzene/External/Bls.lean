import Benzene.Common.Bytes

/-!
# BLS multi-signatures

The two crypto packages the consensus code imports and that are not part of the
repository: the BLS library (`bls_core`) and the participation mask built over it
(`bls.Mask`).  They enter the model as structures of functions together with the laws the
proofs use.

* `Bls`: keys and signatures are commutative monoids under `Add`; the signatures are
  ideal, that is, over a message and a public key there is exactly one valid signature
  `sigOf m pk`, and it is additive in the key.
* `PublicKeyWrapper`: a serialized key with the key it deserializes to.
* `MaskLib`: a mask is a bitmap over a list of keys, with the sum of the enabled keys.
-/

namespace Benzene

/-- The BLS library. -/
structure Bls where
  PublicKey : Type
  Sign : Type
  SecretKey : Type
  [decEqPublicKey : DecidableEq PublicKey]
  [addPublicKey : AddCommMonoid PublicKey]
  [addSign : AddCommMonoid Sign]
  getPublicKey : SecretKey → PublicKey
  signHash : SecretKey → Bytes → Sign
  verifyHash : Sign → PublicKey → Bytes → Bool
  serialize : Sign → Bytes
  deserialize : Bytes → Option Sign
  bytesToBLSPublicKey : Bytes → Option PublicKey
  /-- The valid signature over a message under a key. -/
  sigOf : Bytes → PublicKey →+ Sign
  verifyHash_iff : ∀ s pk m, verifyHash s pk m = true ↔ s = sigOf m pk
  signHash_eq : ∀ sk m, signHash sk m = sigOf m (getPublicKey sk)
  serialize_length : ∀ s, (serialize s).length = 96
  deserialize_serialize : ∀ s, deserialize (serialize s) = some s
  /-- Only the first 48 bytes of a key are read. -/
  bytesToBLSPublicKey_copyBytes : ∀ bs pk, bytesToBLSPublicKey bs = some pk →
    bytesToBLSPublicKey (copyBytes 48 bs).toList = some pk
  /-- The serialization of a key is canonical. -/
  bytesToBLSPublicKey_inj : ∀ (a b : SerializedPublicKey) pk,
    bytesToBLSPublicKey a.toList = some pk → bytesToBLSPublicKey b.toList = some pk → a = b

attribute [instance] Bls.decEqPublicKey Bls.addPublicKey Bls.addSign

/-- `bls.BLSSignatureSizeInBytes`. -/
def blsSignatureSizeInBytes : ℕ := 96

/-- `bls.PublicKeyWrapper`: the two forms of one key. -/
structure PublicKeyWrapper (B : Bls) where
  bytes : SerializedPublicKey
  object : B.PublicKey
  wf : B.bytesToBLSPublicKey bytes.toList = some object

namespace PublicKeyWrapper

variable {B : Bls} {a b : PublicKeyWrapper B}

theorem eq_of_bytes (h : a.bytes = b.bytes) : a = b := by
  obtain ⟨abytes, aobj, awf⟩ := a
  obtain ⟨bbytes, bobj, bwf⟩ := b
  obtain rfl : abytes = bbytes := h
  obtain rfl : aobj = bobj := Option.some.inj (awf.symm.trans bwf)
  rfl

theorem eq_of_object (h : a.object = b.object) : a = b :=
  eq_of_bytes (B.bytesToBLSPublicKey_inj _ _ _ a.wf (h ▸ b.wf))

instance : DecidableEq (PublicKeyWrapper B) := fun a b =>
  decidable_of_iff (a.bytes = b.bytes) ⟨eq_of_bytes, congrArg bytes⟩

end PublicKeyWrapper

/-- The key with a given serialization, zero when there is none. -/
def Bls.keyObject (B : Bls) (k : SerializedPublicKey) : B.PublicKey :=
  (B.bytesToBLSPublicKey k.toList).getD 0

@[simp] theorem PublicKeyWrapper.keyObject_bytes {B : Bls} (w : PublicKeyWrapper B) :
    B.keyObject w.bytes = w.object := by
  rw [Bls.keyObject, w.wf]
  rfl

/-- `bls.PrivateKeyWrapper`: a secret key with its public key. -/
structure PrivateKeyWrapper (B : Bls) where
  pri : B.SecretKey
  pub : PublicKeyWrapper B
  wf : pub.object = B.getPublicKey pri

/-- `bls.Mask`. `NewMask(publics, nil)` has no failing path; `SetMask` fails on a bitmap
    of the wrong length, `SetKey` and `SetKeysAtomic` on a key that is not in the list,
    and a call that fails changes nothing. -/
structure MaskLib (B : Bls) where
  Mask : Type
  publics : Mask → List (PublicKeyWrapper B)
  bitmap : Mask → Bytes
  aggregatePublic : Mask → B.PublicKey
  newMask : List (PublicKeyWrapper B) → Mask
  clear : Mask → Mask
  setMask : Mask → Bytes → Option Mask
  setKey : Mask → SerializedPublicKey → Bool → Option Mask
  setKeysAtomic : Mask → List (PublicKeyWrapper B) → Bool → Option Mask
  countEnabled : Mask → ℕ
  getSignedPubKeysFromBitmap : Mask → Bytes → Option (List (PublicKeyWrapper B))
  bitmap_length : ∀ m, (bitmap m).length = ((publics m).length + 7) / 8
  bitmap_padding : ∀ m i, (publics m).length ≤ i → testBit (bitmap m) i = false
  aggregatePublic_eq : ∀ m, aggregatePublic m =
    (((publics m).zipIdx.filter fun p => testBit (bitmap m) p.2).map fun p => p.1.object).sum
  newMask_publics : ∀ ks, publics (newMask ks) = ks
  newMask_bit : ∀ ks i, testBit (bitmap (newMask ks)) i = false
  clear_publics : ∀ m, publics (clear m) = publics m
  clear_bit : ∀ m i, testBit (bitmap (clear m)) i = false
  setMask_isSome : ∀ m bs, (setMask m bs).isSome ↔ bs.length = (bitmap m).length
  setMask_publics : ∀ m bs m', setMask m bs = some m' → publics m' = publics m
  setMask_bit : ∀ m bs m' i, setMask m bs = some m' → i < (publics m).length →
    testBit (bitmap m') i = testBit bs i
  setKey_isSome : ∀ m k en, (setKey m k en).isSome ↔ k ∈ (publics m).map (·.bytes)
  setKey_publics : ∀ m k en m', setKey m k en = some m' → publics m' = publics m
  setKey_bit : ∀ m k en m' i, ((publics m).map (·.bytes)).Nodup → setKey m k en = some m' →
    testBit (bitmap m') i =
      if ((publics m).map (·.bytes))[i]? = some k then en else testBit (bitmap m) i
  setKeysAtomic_eq : ∀ m ks en,
    setKeysAtomic m ks en = ks.foldlM (fun m k => setKey m k.bytes en) m
  getSignedPubKeysFromBitmap_eq : ∀ m bs, getSignedPubKeysFromBitmap m bs =
    if bs.length = (bitmap m).length then
      some (((publics m).zipIdx.filter fun p => testBit bs p.2).map Prod.fst)
    else none

end Benzene
