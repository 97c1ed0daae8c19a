import Mathlib

/-!
# Numbers in consecutive spans

The natural numbers are cut into spans: `span b` is the span of `b`, and `stop e` is the first
number after the span `e`.  The two determine each other (`Numbering.le_iff`), so a number is the
last of its span exactly when its successor is a `stop`.
-/

namespace Benzene

/-- `span` numbers the spans that end at `stop`. -/
structure Numbering (span stop : ℕ → ℕ) : Prop where
  le_iff : ∀ b e, span b ≤ e ↔ b < stop e
  strictMono : StrictMono stop

namespace Numbering

variable {span stop : ℕ → ℕ} (h : Numbering span stop) {b n e : ℕ}

include h

theorem lt_stop (b : ℕ) : b < stop (span b) := (h.le_iff b _).1 le_rfl

theorem mono (hbn : b ≤ n) : span b ≤ span n := (h.le_iff b _).2 (hbn.trans_lt (h.lt_stop n))

theorem span_of_stop (hb : b + 1 = stop e) : span b = e := by
  refine le_antisymm ((h.le_iff b e).2 (hb ▸ Nat.lt_succ_self b)) ?_
  rw [← h.strictMono.le_iff_le, ← hb]
  exact h.lt_stop b

theorem span_succ (b : ℕ) : span (b + 1) = span b + if b + 1 = stop (span b) then 1 else 0 := by
  have hle := h.mono (Nat.le_add_right b 1)
  have hlt := h.lt_stop b
  split_ifs with hb
  · have hgt : ¬ span (b + 1) ≤ span b := by
      rw [h.le_iff, ← hb]
      exact lt_irrefl _
    have hnext : span (b + 1) ≤ span b + 1 := by
      rw [h.le_iff, hb]
      exact h.strictMono (Nat.lt_succ_self _)
    omega
  · have hsame : span (b + 1) ≤ span b := (h.le_iff _ _).2 (by omega)
    omega

/-- The end of the span of `b` is the next end from `b` on. -/
theorem stop_le (hbn : b ≤ n) (hn : n + 1 = stop (span n)) : stop (span b) ≤ n + 1 := by
  rw [hn]
  exact h.strictMono.monotone (h.mono hbn)

end Numbering

end Benzene
