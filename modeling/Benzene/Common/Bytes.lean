import Mathlib

/-!
# Byte strings

The vocabulary shared by the models of the Go code.

* A Go `[]byte` is `Bytes := List UInt8`, a Go `[n]byte` is `ByteArr n`.
* `copyBytes n src` is `copy(dst[:], src)` into a zeroed `[n]byte`: a longer
  source is cut, a shorter one is padded with zeros.
* `putUint64` is `binary.LittleEndian.PutUint64`.
* `testBit bs i` reads bit `i & 7` of byte `i >> 3`, the bit order of the
  participation bitmaps; `packBits` writes a list of bits in that order.

Results: `testBit_packBits`, `packBits_length` (packing is exact, with zero
padding) and `putUint64_injective`.
-/

namespace Benzene

abbrev Bytes := List UInt8

/-- Go `[n]byte`. -/
abbrev ByteArr (n : ℕ) := List.Vector UInt8 n

/-- `common.Hash`. -/
abbrev Hash := ByteArr 32

/-- `common.Address`. -/
abbrev Address := ByteArr 20

/-- `bls.SerializedPublicKey`. -/
abbrev SerializedPublicKey := ByteArr 48

-- Instances by name, so that equations over the keys do not each carry the search's own proof.
instance : LawfulBEq Hash := inferInstance

instance : LawfulBEq Address := inferInstance

instance : LawfulBEq SerializedPublicKey := inferInstance

/-- The zero value of `[n]byte`. -/
def zeroBytes (n : ℕ) : ByteArr n := ⟨List.replicate n 0, by simp⟩

/-- `copy(dst[:], src)` into a zeroed `[n]byte`. -/
def copyBytes (n : ℕ) (src : Bytes) : ByteArr n := ⟨(src ++ List.replicate n 0).take n, by simp⟩

@[simp] theorem copyBytes_toList {n : ℕ} (v : ByteArr n) : copyBytes n v.toList = v := by
  apply List.Vector.toList_injective
  show (v.toList ++ List.replicate n 0).take n = v.toList
  rw [List.take_append_of_le_length (by simp), List.take_of_length_le (by simp)]

/-- `binary.LittleEndian.PutUint64`. -/
def putUint64 (x : UInt64) : Bytes :=
  (List.range 8).map fun i => (x >>> UInt64.ofNat (8 * i)).toUInt8

@[simp] theorem putUint64_length (x : UInt64) : (putUint64 x).length = 8 := by simp [putUint64]

/-! ## Bits -/

/-- Bit `i & 7` of byte `i >> 3`; bits beyond the end of the string read as
    zero. -/
def testBit (bs : Bytes) (i : ℕ) : Bool := (bs.getD (i / 8) 0).toBitVec.getLsbD (i % 8)

/-- The `⌈n / 8⌉` bytes that hold the bits `f 0, …, f (n - 1)`, padded with
    zeros. -/
def packBits (n : ℕ) (f : ℕ → Bool) : Bytes :=
  (List.range ((n + 7) / 8)).map fun j =>
    UInt8.ofBitVec (BitVec.ofFnLE fun t : Fin 8 => decide (8 * j + t < n) && f (8 * j + t))

theorem testBit_of_length_le {bs : Bytes} {i : ℕ} (h : 8 * bs.length ≤ i) :
    testBit bs i = false := by
  have hi : bs.length ≤ i / 8 := by omega
  rw [testBit, List.getD_eq_default _ _ hi]
  simp

theorem packBits_length (n : ℕ) (f : ℕ → Bool) : (packBits n f).length = (n + 7) / 8 := by
  simp [packBits]

theorem testBit_packBits (n : ℕ) (f : ℕ → Bool) (i : ℕ) :
    testBit (packBits n f) i = (decide (i < n) && f i) := by
  by_cases hi : i < 8 * ((n + 7) / 8)
  · have hj : i / 8 < (n + 7) / 8 := by omega
    have hsplit : 8 * (i / 8) + i % 8 = i := by omega
    have ht : i % 8 < 8 := by omega
    simp [testBit, packBits, List.getD_eq_getElem?_getD, hj, ht, hsplit]
  · rw [testBit_of_length_le (by rw [packBits_length]; omega)]
    simp [show ¬ i < n by omega]

theorem testBit_putUint64 (x : UInt64) {i : ℕ} (hi : i < 64) :
    testBit (putUint64 x) i = x.toBitVec.getLsbD i := by
  have hj : i / 8 < 8 := by omega
  have hshift : 8 * (i / 8) % 64 = 8 * (i / 8) := by omega
  have hsplit : 8 * (i / 8) + i % 8 = i := by omega
  have ht : i % 8 < 8 := by omega
  simp [testBit, putUint64, List.getD_eq_getElem?_getD, hj, ht, hshift, hsplit]

theorem putUint64_injective : Function.Injective putUint64 := by
  intro x y h
  rw [← UInt64.toBitVec_inj]
  apply BitVec.eq_of_getLsbD_eq
  intro i hi
  rw [← testBit_putUint64 x hi, ← testBit_putUint64 y hi, h]

end Benzene
