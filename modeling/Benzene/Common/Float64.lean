import Mathlib

/-!
# Integers as `float64`

The conversion of an unsigned integer to a `float64` keeps 53 significant bits and rounds to the
nearest, ties to even.  The result is an integer again, and it is exact below `2 ^ 53`
(`float64_of_lt`).
-/

namespace Benzene

/-- `float64(n)`, as an integer. -/
def float64 (n : ℕ) : ℕ :=
  let e := n.log2 - 52
  let q := n / 2 ^ e
  let r := n % 2 ^ e
  if 2 * r < 2 ^ e ∨ 2 * r = 2 ^ e ∧ q % 2 = 0 then q * 2 ^ e else (q + 1) * 2 ^ e

theorem float64_of_lt {n : ℕ} (h : n < 2 ^ 53) : float64 n = n := by
  have he : n.log2 - 52 = 0 := by
    rcases Nat.eq_zero_or_pos n with rfl | hpos
    · rfl
    · have hlog : n.log2 < 53 := (Nat.log2_lt (Nat.pos_iff_ne_zero.1 hpos)).2 h
      omega
  simp [float64, he, Nat.mod_one]

/-- The distance of two integers, computed in `float64`. -/
def float64Dist (a b : ℕ) : ℕ := float64 ((float64 a : ℤ) - float64 b).natAbs

theorem float64Dist_of_lt {a b : ℕ} (ha : a < 2 ^ 53) (hb : b < 2 ^ 53) :
    float64Dist a b = ((a : ℤ) - b).natAbs := by
  unfold float64Dist
  rw [float64_of_lt ha, float64_of_lt hb]
  apply float64_of_lt
  omega

end Benzene
