import Benzene.Common.Rlp

/-!
# Keccak and ECDSA

The crypto package behind transaction signatures, which is not part of the repository.

* `validateSignatureValues`: the range check of `crypto.ValidateSignatureValues`.
* `Crypto`: Keccak-256 and the signatures, as functions.  ECDSA is ideal: recovery from a
  signature gives the key that signed (`ecrecover_sign`), and the address of that key is
  recovered under no other hash (`ecrecover_binds`).  Nothing is assumed of Keccak; a theorem
  that needs two encodings to have different hashes says so (`NoCollision`).
* `Concrete.crypto`: the laws are satisfiable, by a structure that computes.
-/

namespace Benzene

/-- `secp256k1N`, the order of the curve. -/
def secp256k1N : ℕ := 0xfffffffffffffffffffffffffffffffebaaedce6af48a03bbfd25e8cd0364141

/-- `secp256k1halfN`. -/
def secp256k1HalfN : ℕ := secp256k1N / 2

/-- `crypto.ValidateSignatureValues`. -/
def validateSignatureValues (v : UInt8) (r s : ℤ) (homestead : Bool) : Bool :=
  if r < 1 ∨ s < 1 then false
  else if homestead = true ∧ (secp256k1HalfN : ℤ) < s then false
  else decide (r < secp256k1N ∧ s < secp256k1N ∧ (v = 0 ∨ v = 1))

theorem validateSignatureValues_iff {v : UInt8} {r s : ℤ} {homestead : Bool} :
    validateSignatureValues v r s homestead = true ↔
      1 ≤ r ∧ 1 ≤ s ∧ (homestead = true → s ≤ secp256k1HalfN) ∧
        r < secp256k1N ∧ s < secp256k1N ∧ (v = 0 ∨ v = 1) := by
  unfold validateSignatureValues
  split_ifs with hlow hhigh
  · simp only [false_iff]
    omega
  · simp only [false_iff]
    intro h
    have := h.2.2.1 hhigh.1
    omega
  · simp only [decide_eq_true_eq, not_or, not_and, not_lt] at hlow hhigh ⊢
    exact ⟨fun h => ⟨hlow.1, hlow.2, hhigh, h⟩, fun h => h.2.2.2⟩

/-- `[R || S || V]`: the parts of a signature. -/
def sigR (sig : ByteArr 65) : ℕ := ofBigEndian (sig.toList.take 32)

@[inherit_doc sigR] def sigS (sig : ByteArr 65) : ℕ := ofBigEndian ((sig.toList.drop 32).take 32)

@[inherit_doc sigR] def sigV (sig : ByteArr 65) : UInt8 := sig.toList.getD 64 0

/-- The address of an uncompressed public key:
    `copy(addr[:], crypto.Keccak256(pub[1:])[12:])`. -/
def pubkeyToAddress (keccak256 : Bytes → Hash) (pub : Bytes) : Address :=
  copyBytes 20 ((keccak256 pub.tail).toList.drop 12)

structure Crypto where
  keccak256 : Bytes → Hash
  PrivateKey : Type
  /-- The uncompressed public key of a private key. -/
  publicKey : PrivateKey → Bytes
  /-- `crypto.Sign`. -/
  sign : Hash → PrivateKey → ByteArr 65
  /-- `crypto.Ecrecover`. -/
  ecrecover : Hash → Bytes → Option Bytes
  publicKey_head : ∀ k, (publicKey k).head? = some 4
  /-- Signatures are canonical: `S` is in the lower half. -/
  sign_valid : ∀ h k,
    validateSignatureValues (sigV (sign h k)) (sigR (sign h k)) (sigS (sign h k)) true = true
  ecrecover_sign : ∀ h k, ecrecover h (sign h k).toList = some (publicKey k)
  ecrecover_binds : ∀ h h' k pub, ecrecover h' (sign h k).toList = some pub →
    pubkeyToAddress keccak256 pub = pubkeyToAddress keccak256 (publicKey k) → h' = h

namespace Crypto

variable (C : Crypto)

/-- `crypto.PubkeyToAddress` of the key of `k`. -/
def address (k : C.PrivateKey) : Address := pubkeyToAddress C.keccak256 (C.publicKey k)

/-- `rlpHash` (core/types/block.go:45-52). An encoding error is not looked at; nothing has been
    written to the hasher then. -/
def rlpHash (fields : List (Option Bytes)) : Hash := C.keccak256 ((Rlp.encode fields).getD [])

/-- The hash tells two lists of fields apart. -/
def NoCollision (fields fields' : List (Option Bytes)) : Prop :=
  C.rlpHash fields = C.rlpHash fields' → Rlp.strings fields = Rlp.strings fields'

theorem rlpHash_congr {fields fields' : List (Option Bytes)}
    (h : Rlp.strings fields = Rlp.strings fields') : C.rlpHash fields = C.rlpHash fields' := by
  simp only [rlpHash, Rlp.encode, h]

end Crypto

/-! ## A concrete instance -/

namespace Concrete

/-- The number `n` in `k` bytes, most significant first. -/
def fixedBytes (k n : ℕ) : ByteArr k :=
  ⟨(List.range k).map fun i => UInt8.ofNat (n / 256 ^ (k - 1 - i)), by simp⟩

/-- A checksum of 32 bytes. -/
def hash32 (bs : Bytes) : Hash :=
  fixedBytes 32 (bs.foldl (fun acc b => (acc * 257 + b.toNat + 1) % 2 ^ 256) 1)

/-- The signature of key `k` on `h`: the two halves of `h`, the second followed by the key. -/
def ecdsaSign (h : Hash) (k : UInt8) : ByteArr 65 :=
  ⟨(List.replicate 15 0 ++ [1] ++ h.toList.take 16) ++
    (List.replicate 14 0 ++ [1] ++ h.toList.drop 16 ++ [k]) ++ [0], by simp⟩

/-- The key behind a signature on `h`. -/
def ecdsaRecover (h : Hash) (sig : Bytes) : Option Bytes :=
  if sig = (ecdsaSign h (sig.getD 63 0)).toList then some [4, sig.getD 63 0] else none

theorem ecdsaSign_toList (h : Hash) (k : UInt8) : (ecdsaSign h k).toList =
    (List.replicate 15 0 ++ [1] ++ h.toList.take 16) ++
      (List.replicate 14 0 ++ [1] ++ h.toList.drop 16 ++ [k]) ++ [0] := rfl

theorem ecdsaSign_key (h : Hash) (k : UInt8) : (ecdsaSign h k).toList.getD 63 0 = k := by
  simp [ecdsaSign_toList]

theorem ecdsaSign_injective {h h' : Hash} {k k' : UInt8}
    (heq : (ecdsaSign h k).toList = (ecdsaSign h' k').toList) : h = h' := by
  rw [ecdsaSign_toList, ecdsaSign_toList] at heq
  obtain ⟨hleft, hright⟩ := List.append_inj (List.append_cancel_right heq) (by simp)
  have htake : h.toList.take 16 = h'.toList.take 16 := List.append_cancel_left hleft
  have hdrop : h.toList.drop 16 = h'.toList.drop 16 :=
    List.append_cancel_left (List.append_inj_left' hright rfl)
  apply List.Vector.toList_injective
  rw [← List.take_append_drop 16 h.toList, ← List.take_append_drop 16 h'.toList, htake, hdrop]

theorem ecdsaSign_valid (h : Hash) (k : UInt8) :
    validateSignatureValues (sigV (ecdsaSign h k)) (sigR (ecdsaSign h k)) (sigS (ecdsaSign h k))
      true = true := by
  have hleft := ofBigEndian_lt (h.toList.take 16)
  have hright := ofBigEndian_lt (h.toList.drop 16 ++ [k])
  have hone : ofBigEndian [1] = 1 := by decide
  have hr : sigR (ecdsaSign h k) = 256 ^ 16 + ofBigEndian (h.toList.take 16) := by
    rw [sigR, ecdsaSign_toList, List.append_assoc, List.take_left' (by simp),
      ofBigEndian_append, ofBigEndian_append, ofBigEndian_replicate_zero, hone]
    simp
  have hs : sigS (ecdsaSign h k) = 256 ^ 17 + ofBigEndian (h.toList.drop 16 ++ [k]) := by
    rw [sigS, ecdsaSign_toList, List.append_assoc, List.drop_left' (by simp),
      List.take_left' (by simp), List.append_assoc, ofBigEndian_append, ofBigEndian_append,
      ofBigEndian_replicate_zero, hone]
    simp
  have hv : sigV (ecdsaSign h k) = 0 := by simp [sigV, ecdsaSign_toList]
  rw [validateSignatureValues_iff, hr, hs, hv]
  simp only [List.length_take, List.length_append, List.length_drop, List.Vector.toList_length,
    List.length_singleton] at hleft hright
  norm_num [secp256k1N, secp256k1HalfN] at hleft hright ⊢
  omega

theorem ecdsaRecover_binds {h h' : Hash} {k : UInt8} {pub : Bytes}
    (hrec : ecdsaRecover h' (ecdsaSign h k).toList = some pub) : h' = h := by
  unfold ecdsaRecover at hrec
  split_ifs at hrec with heq
  exact (ecdsaSign_injective heq).symm

/-- ECDSA and Keccak over byte strings. -/
def crypto : Crypto where
  keccak256 := hash32
  PrivateKey := UInt8
  publicKey k := [4, k]
  sign := ecdsaSign
  ecrecover := ecdsaRecover
  publicKey_head _ := rfl
  sign_valid := ecdsaSign_valid
  ecrecover_sign h k := by
    unfold ecdsaRecover
    rw [ecdsaSign_key, if_pos rfl]
  ecrecover_binds _ _ _ _ hrec _ := ecdsaRecover_binds hrec

end Concrete

end Benzene
