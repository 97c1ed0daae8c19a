import Mathlib

/-!
# Runs of consecutive numbers

A set of numbers that has to be a run `start, start + 1, …`, with the first missing number kept
beside it.

* `Gapless start S`: everything is at or above `start`, and nothing is missing in between.
* `IsNext start S next`: `next` is the first missing number, or it is at most `start`.
* `below`: the part of a set below a number, which is what is left when the number is taken out
  together with everything above it (`Gapless.below`, `IsNext.below`).
* `Gapless.append`, `IsNext.append`: a run that starts at `next` is added.
-/

namespace Benzene

variable {S : Set ℕ} {start next n k : ℕ}

/-- Everything is at or above `start`, and nothing is missing in between. -/
def Gapless (start : ℕ) (S : Set ℕ) : Prop :=
  ∀ k ∈ S, start ≤ k ∧ ∀ j, start ≤ j → j ≤ k → j ∈ S

/-- The first missing number, or a number that is at most `start`. -/
def IsNext (start : ℕ) (S : Set ℕ) (next : ℕ) : Prop :=
  next ≤ start ∨ (next ∉ S ∧ ∀ j, start ≤ j → j < next → j ∈ S)

/-- The part of a set below a number. -/
def below (S : Set ℕ) (n : ℕ) : Set ℕ := {k | k ∈ S ∧ k < n}

theorem Gapless.start_mem (h : Gapless start S) (hk : k ∈ S) : start ∈ S :=
  (h k hk).2 start le_rfl (h k hk).1

theorem Gapless.below (h : Gapless start S) : Gapless start (below S n) := by
  rintro k ⟨hk, hkn⟩
  exact ⟨(h k hk).1, fun j hj hjk => ⟨(h k hk).2 j hj hjk, lt_of_le_of_lt hjk hkn⟩⟩

/-- Everything is below a missing number. -/
theorem Gapless.lt_of_notMem (h : Gapless start S) (hn : n ∉ S) (hs : start ≤ n) (hk : k ∈ S) :
    k < n := by
  by_contra hge
  exact hn ((h k hk).2 n hs (not_lt.1 hge))

theorem IsNext.below (h : IsNext start S next) (hg : Gapless start S) (hn : n ∈ S) :
    IsNext start (below S n) (min next n) := by
  rcases h with hle | ⟨hnot, hall⟩
  · exact Or.inl ((min_le_left _ _).trans hle)
  · by_cases hs : next ≤ start
    · exact Or.inl ((min_le_left _ _).trans hs)
    · have hlt : n < next := hg.lt_of_notMem hnot (by omega) hn
      rw [min_eq_right hlt.le]
      refine Or.inr ⟨fun hmem => absurd hmem.2 (lt_irrefl n), fun j hj hjn => ⟨?_, hjn⟩⟩
      exact hall j hj (hjn.trans hlt)

/-- A missing number that is not above `next` is `next`. -/
theorem IsNext.eq_of_notMem (h : IsNext start S next) (hn : n ∉ S) (hs : start ≤ n)
    (hle : n ≤ next) : n = next ∧ ∀ j, start ≤ j → j < n → j ∈ S := by
  rcases h with hnext | ⟨-, hall⟩
  · exact ⟨by omega, fun j hj hjn => by omega⟩
  · have heq : n = next := by
      by_contra hne
      exact hn (hall n hs (by omega))
    exact ⟨heq, fun j hj hjn => hall j hj (heq ▸ hjn)⟩

theorem Gapless.append (h : Gapless start S) (hs : start ≤ n)
    (hbelow : ∀ j, start ≤ j → j < n → j ∈ S) : Gapless start (S ∪ Set.Ico n (n + k)) := by
  rintro x (hx | hx)
  · exact ⟨(h x hx).1, fun j hj hjx => Or.inl ((h x hx).2 j hj hjx)⟩
  · refine ⟨hs.trans hx.1, fun j hj hjx => ?_⟩
    by_cases hjn : j < n
    · exact Or.inl (hbelow j hj hjn)
    · exact Or.inr ⟨not_lt.1 hjn, lt_of_le_of_lt hjx hx.2⟩

theorem IsNext.append (h : Gapless start S) (hs : start ≤ n) (hn : n ∉ S)
    (hbelow : ∀ j, start ≤ j → j < n → j ∈ S) :
    IsNext start (S ∪ Set.Ico n (n + k)) (n + k) := by
  refine Or.inr ⟨?_, ?_⟩
  · rintro (hx | hx)
    · have := h.lt_of_notMem hn hs hx
      omega
    · exact absurd hx.2 (lt_irrefl _)
  · intro j hj hjk
    by_cases hjn : j < n
    · exact Or.inl (hbelow j hj hjn)
    · exact Or.inr ⟨not_lt.1 hjn, hjk⟩

theorem ordConnected_below (h : S.OrdConnected) (n : ℕ) : (below S n).OrdConnected := by
  refine ⟨fun x hx y hy z hz => ⟨h.out hx.1 hy.1 hz, ?_⟩⟩
  exact lt_of_le_of_lt hz.2 hy.2

end Benzene
