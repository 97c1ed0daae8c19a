import Mathlib

/-!
# The integers of Go

`int` has 64 bits: a sum wraps around (`goAdd`), and `a % m` is the truncated remainder, which has
the sign of `a`.  An index computed as `(i + s) % m` is therefore the position after `s` steps on
a ring of `m` places only under a condition on the sum.

* `tmod_nonneg_iff`: the remainder is an index exactly when the dividend is not negative or is
  divisible.
* `tmod_eq_emod_of_index`: and then it is the position on the ring.
-/

namespace Benzene

/-- `a + b` of two `int`s. -/
def goAdd (a b : ℤ) : ℤ := (a + b).bmod (2 ^ 64)

/-- A sum that fits is exact. -/
theorem goAdd_of_fits {a b : ℤ} (hlow : -2 ^ 63 ≤ a + b) (hhigh : a + b < 2 ^ 63) :
    goAdd a b = a + b := by
  unfold goAdd
  rw [Int.bmod_eq_of_le] <;> omega

variable {a m : ℤ}

theorem tmod_eq_emod_of_index (h : 0 ≤ a ∨ m ∣ a) : a.tmod m = a % m := by
  rcases h with h | h
  · exact Int.tmod_eq_emod_of_nonneg h
  · rw [Int.tmod_eq_zero_of_dvd h, Int.emod_eq_zero_of_dvd h]

theorem tmod_nonneg_iff (hm : 0 < m) : 0 ≤ a.tmod m ↔ 0 ≤ a ∨ m ∣ a := by
  constructor
  · intro h
    by_contra hneg
    rw [not_or, not_le] at hneg
    -- the remainder of a negative number is not positive, so it is zero
    have hle : 0 ≤ (-a).tmod m := Int.tmod_nonneg m (neg_nonneg.2 hneg.1.le)
    rw [Int.neg_tmod] at hle
    exact hneg.2 (Int.dvd_of_tmod_eq_zero (le_antisymm (neg_nonneg.1 hle) h))
  · intro h
    rw [tmod_eq_emod_of_index h]
    exact Int.emod_nonneg a hm.ne'

end Benzene
