import Mathlib

/-!
# Decimals

The `numeric` package of Harmony is not part of the repository.  Its decimals have 18 digits after
the point; the package is a structure of operations with what `Compute` and `NewInstance` rely on:

* sums and differences are exact, products and quotients are rounded to units of `10^-18`, and by
  at most half a unit up and by less than a unit down where the operands are not negative;
* an operation panics when the result is too long, and `Quo` when the divisor is zero.

How ties are rounded and where the limit lies exactly is left open.
-/

namespace Benzene

/-- `numeric.Dec`: a number of units of `10^-18`. -/
structure Dec where
  raw : ℤ
deriving DecidableEq

namespace Dec

/-- The panics of the operations. -/
inductive Panic
  | overflow
  | divisionByZero
deriving DecidableEq

/-- The units of one: `10^18`. -/
def one : ℤ := 1000000000000000000

/-- `ZeroDec`. -/
def zeroDec : Dec := ⟨0⟩

/-- `OneDec`. -/
def oneDec : Dec := ⟨one⟩

/-- `NewDec`: a whole number. -/
def newDec (n : ℤ) : Dec := ⟨n * one⟩

theorem one_pos : 0 < one := by decide

/-- A result that is checked for its length. -/
def checked (limit : ℕ) (n : ℤ) : Except Panic Dec :=
  if n.natAbs < limit then .ok ⟨n⟩ else .error .overflow

end Dec

/-- The operations of `numeric`. -/
structure Numeric where
  add : Dec → Dec → Except Dec.Panic Dec
  sub : Dec → Dec → Except Dec.Panic Dec
  mul : Dec → Dec → Except Dec.Panic Dec
  quo : Dec → Dec → Except Dec.Panic Dec
  /-- The first number of units that is too long. -/
  limit : ℕ
  /-- The units of a product. -/
  mulRaw : ℤ → ℤ → ℤ
  /-- The units of a quotient. -/
  quoRaw : ℤ → ℤ → ℤ
  add_eq : ∀ d e, add d e = Dec.checked limit (d.raw + e.raw)
  sub_eq : ∀ d e, sub d e = Dec.checked limit (d.raw - e.raw)
  mul_eq : ∀ d e, mul d e = Dec.checked limit (mulRaw d.raw e.raw)
  quo_eq : ∀ d e, e.raw ≠ 0 → quo d e = Dec.checked limit (quoRaw d.raw e.raw)
  quo_zero : ∀ d e, e.raw = 0 → quo d e = .error .divisionByZero
  /-- One for each slot of a committee, and one more, is a decimal. -/
  limit_large : 2 ^ 63 * Dec.one + Dec.one < limit
  mulRaw_le_half : ∀ a b, 0 ≤ a → 0 ≤ b → 2 * mulRaw a b * Dec.one ≤ 2 * (a * b) + Dec.one
  lt_mulRaw_succ : ∀ a b, 0 ≤ a → 0 ≤ b → a * b < (mulRaw a b + 1) * Dec.one
  quoRaw_le_half : ∀ a b, 0 ≤ a → 0 < b → 2 * quoRaw a b * b ≤ 2 * (a * Dec.one) + b
  lt_quoRaw_succ : ∀ a b, 0 ≤ a → 0 < b → a * Dec.one < (quoRaw a b + 1) * b

namespace Numeric

/-- The number of units is not too long. -/
def Fits (N : Numeric) (n : ℤ) : Prop := n.natAbs < N.limit

variable {N : Numeric} {a b m n : ℤ} {d e r : Dec}

theorem Fits.of_le (hn : 0 ≤ n) (hle : n ≤ m) (h : N.Fits m) : N.Fits n := by
  unfold Fits at h ⊢
  omega

theorem fits_of_bound (hlo : -(2 ^ 63 * Dec.one + Dec.one) ≤ n)
    (hhi : n ≤ 2 ^ 63 * Dec.one + Dec.one) : N.Fits n := by
  have hlarge := N.limit_large
  unfold Fits
  omega

theorem fits_of_unit (h : 0 ≤ n ∧ n ≤ Dec.one) : N.Fits n := by
  have hone := Dec.one_pos
  exact fits_of_bound (by omega) (by omega)

theorem checked_of_fits (h : N.Fits n) : Dec.checked N.limit n = .ok ⟨n⟩ := if_pos h

theorem checked_of_not_fits (h : ¬ N.Fits n) : Dec.checked N.limit n = .error .overflow := if_neg h

theorem raw_of_checked (h : Dec.checked N.limit n = .ok r) : r.raw = n := by
  unfold Dec.checked at h
  split_ifs at h
  exact congrArg Dec.raw (Except.ok.inj h).symm

theorem add_of_fits (h : N.Fits (d.raw + e.raw)) : N.add d e = .ok ⟨d.raw + e.raw⟩ :=
  (N.add_eq d e).trans (checked_of_fits h)

/-- Sums are exact. -/
theorem raw_of_add (h : N.add d e = .ok r) : r.raw = d.raw + e.raw :=
  raw_of_checked ((N.add_eq d e).symm.trans h)

theorem raw_of_sub (h : N.sub d e = .ok r) : r.raw = d.raw - e.raw :=
  raw_of_checked ((N.sub_eq d e).symm.trans h)

theorem raw_of_mul (h : N.mul d e = .ok r) : r.raw = N.mulRaw d.raw e.raw :=
  raw_of_checked ((N.mul_eq d e).symm.trans h)

theorem raw_of_quo (h : N.quo d e = .ok r) : r.raw = N.quoRaw d.raw e.raw := by
  by_cases hzero : e.raw = 0
  · rw [N.quo_zero d e hzero] at h
    cases h
  · exact raw_of_checked ((N.quo_eq d e hzero).symm.trans h)

section

variable (ha : 0 ≤ a)

include ha

theorem mulRaw_nonneg (hb : 0 ≤ b) : 0 ≤ N.mulRaw a b := by
  have hlt := N.lt_mulRaw_succ a b ha hb
  have hpos := pos_of_mul_pos_left ((mul_nonneg ha hb).trans_lt hlt) Dec.one_pos.le
  omega

/-- Rounding keeps a bound that is a whole number of units. -/
theorem mulRaw_le (hb : 0 ≤ b) (h : a * b ≤ m * Dec.one) : N.mulRaw a b ≤ m := by
  have hhalf := N.mulRaw_le_half a b ha hb
  have hlt : 2 * N.mulRaw a b * Dec.one < (2 * m + 2) * Dec.one := by
    have hone := Dec.one_pos
    linarith
  have := lt_of_mul_lt_mul_right hlt Dec.one_pos.le
  omega

theorem quoRaw_nonneg (hb : 0 < b) : 0 ≤ N.quoRaw a b := by
  have hlt := N.lt_quoRaw_succ a b ha hb
  have hpos := pos_of_mul_pos_left ((mul_nonneg ha Dec.one_pos.le).trans_lt hlt) hb.le
  omega

theorem quoRaw_le (hb : 0 < b) (h : a * Dec.one ≤ m * b) : N.quoRaw a b ≤ m := by
  have hhalf := N.quoRaw_le_half a b ha hb
  have hlt : 2 * N.quoRaw a b * b < (2 * m + 2) * b := by linarith
  have := lt_of_mul_lt_mul_right hlt hb.le
  omega

end

end Numeric

end Benzene
