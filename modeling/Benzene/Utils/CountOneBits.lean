import Benzene.Common.Bytes

/-!
# `CountOneBits`

The bit counter of internal/utils/bytes.go, a loop over the bytes with a lookup
table for each half byte.

Result: `countOneBits_eq_card`, the counter is the number of positions
whose bit is set, byte boundaries and a partial last byte included.
-/

namespace Benzene

/-- The number of one bits of a half byte (internal/utils/bytes.go:6). -/
def halfByteLookup : List ℕ := [0, 1, 1, 2, 1, 2, 2, 3, 1, 2, 2, 3, 2, 3, 3, 4]

/-- One bits of a byte (internal/utils/bytes.go:29-31). -/
def countOneBitsInByte (by' : UInt8) : ℕ :=
  halfByteLookup.getD (by' &&& 0x0F).toNat 0 + halfByteLookup.getD (by' >>> 4).toNat 0

/-- One bits of a byte array (internal/utils/bytes.go:34-46); the nil and the empty
    array are the zero iterations of the loop. -/
def countOneBits (arr : Bytes) : ℕ := arr.foldl (fun count b => count + countOneBitsInByte b) 0

theorem countOneBitsInByte_eq (b : UInt8) :
    countOneBitsInByte b = ((List.range 8).filter fun t => b.toBitVec.getLsbD t).length := by
  obtain ⟨⟨⟨n, hn⟩⟩⟩ := b
  revert n
  decide +kernel

theorem countOneBits_cons (b : UInt8) (arr : Bytes) :
    countOneBits (b :: arr) = countOneBitsInByte b + countOneBits arr := by
  have hsum : ∀ arr : Bytes, countOneBits arr = (arr.map countOneBitsInByte).sum := by
    intro arr
    rw [List.sum_eq_foldl, List.foldl_map]
    rfl
  rw [hsum, hsum, List.map_cons, List.sum_cons]

/-! ## The counter counts the set bits -/

theorem testBit_cons_add (b : UInt8) (arr : Bytes) (i : ℕ) :
    testBit (b :: arr) (8 + i) = testBit arr i := by
  have hdiv : (8 + i) / 8 = i / 8 + 1 := by omega
  have hmod : (8 + i) % 8 = i % 8 := by omega
  simp [testBit, hdiv, hmod]

theorem testBit_cons_lt (b : UInt8) (arr : Bytes) {t : ℕ} (ht : t < 8) :
    testBit (b :: arr) t = b.toBitVec.getLsbD t := by
  have hdiv : t / 8 = 0 := by omega
  have hmod : t % 8 = t := by omega
  simp [testBit, hdiv, hmod]

theorem countOneBits_eq_length (arr : Bytes) :
    countOneBits arr = ((List.range (8 * arr.length)).filter (testBit arr)).length := by
  induction arr with
  | nil => rfl
  | cons b arr ih =>
    have hlow : (List.range 8).filter (testBit (b :: arr)) =
        (List.range 8).filter fun t => b.toBitVec.getLsbD t := by
      apply List.filter_congr
      intro t ht
      exact testBit_cons_lt b arr (List.mem_range.1 ht)
    have hhigh : (testBit (b :: arr)) ∘ (fun i => 8 + i) = testBit arr :=
      funext (testBit_cons_add b arr)
    have hlen : 8 * (b :: arr).length = 8 + 8 * arr.length := by
      rw [List.length_cons]
      omega
    rw [countOneBits_cons, ih, countOneBitsInByte_eq, hlen, List.range_add, List.filter_append,
      List.length_append, hlow, List.filter_map, hhigh, List.length_map]

theorem countOneBits_eq_card (arr : Bytes) :
    countOneBits arr = ((Finset.range (8 * arr.length)).filter fun i => testBit arr i).card := by
  rw [countOneBits_eq_length, ← List.toFinset_card_of_nodup (List.nodup_range.filter _)]
  congr 1
  ext i
  simp

/-- When the bits past position `n` are zero, the counter counts the positions below
    `n`. -/
theorem countOneBits_eq_card_range {arr : Bytes} {n : ℕ} (hlen : n ≤ 8 * arr.length)
    (hpad : ∀ i, n ≤ i → testBit arr i = false) :
    countOneBits arr = ((Finset.range n).filter fun i => testBit arr i).card := by
  rw [countOneBits_eq_card]
  congr 1
  ext i
  simp only [Finset.mem_filter, Finset.mem_range]
  constructor
  · rintro ⟨-, hi⟩
    refine ⟨?_, hi⟩
    by_contra hn
    rw [hpad i (by omega)] at hi
    cases hi
  · rintro ⟨hi, hbit⟩
    exact ⟨by omega, hbit⟩

example : countOneBits [0xFF, 0x81, 0x00, 0x10] = 11 := by decide

end Benzene
