import Mathlib

/-!
# Threshold quorums

A committee of `n` members tolerates `faultBound n = ⌊(n - 1) / 3⌋` faulty ones
and takes `twoThirds n = ⌊2n / 3⌋ + 1` of them for a quorum.

* `faultBound_lt_card_inter`: two quorums share more than `faultBound n` members.
* `exists_mem_inter_notMem`: hence a member outside any set of at most
  `faultBound n` faulty ones.
* `eq_of_quorums`: hence two values that both have the votes of a quorum are equal, when no
  correct member votes for two.
* `twoThirds_le_sub_faultBound`: the members that are not faulty are a quorum.
-/

namespace Benzene.Threshold

/-- The number of members that make a quorum. -/
def twoThirds (n : ℕ) : ℕ := n * 2 / 3 + 1

/-- The number of faulty members tolerated. -/
def faultBound (n : ℕ) : ℕ := (n - 1) / 3

theorem add_faultBound_lt_two_quorums (n : ℕ) :
    n + faultBound n < twoThirds n + twoThirds n := by
  unfold twoThirds faultBound
  omega

theorem twoThirds_le_sub_faultBound {n : ℕ} (hn : 1 ≤ n) : twoThirds n ≤ n - faultBound n := by
  unfold twoThirds faultBound
  omega

variable {α : Type*} [DecidableEq α] {U A B : Finset α}

theorem faultBound_lt_card_inter (hA : A ⊆ U) (hB : B ⊆ U) (hqA : twoThirds U.card ≤ A.card)
    (hqB : twoThirds U.card ≤ B.card) : faultBound U.card < (A ∩ B).card := by
  have hunion : (A ∪ B).card ≤ U.card := Finset.card_le_card (Finset.union_subset hA hB)
  have hsplit := Finset.card_union_add_card_inter A B
  have hsum := add_faultBound_lt_two_quorums U.card
  omega

theorem exists_mem_inter_notMem {F : Finset α} (hA : A ⊆ U) (hB : B ⊆ U)
    (hqA : twoThirds U.card ≤ A.card) (hqB : twoThirds U.card ≤ B.card)
    (hF : F.card ≤ faultBound U.card) : ∃ x, x ∈ A ∧ x ∈ B ∧ x ∉ F := by
  have hlt : F.card < (A ∩ B).card := lt_of_le_of_lt hF (faultBound_lt_card_inter hA hB hqA hqB)
  obtain ⟨x, hx, hxF⟩ := Finset.exists_mem_notMem_of_card_lt_card hlt
  rw [Finset.mem_inter] at hx
  exact ⟨x, hx.1, hx.2, hxF⟩

theorem eq_of_quorums {β : Type*} (voted : α → β → Prop) {F : Finset α}
    (hvoted : ∀ x, x ∉ F → ∀ b b', voted x b → voted x b' → b = b')
    (hF : F.card ≤ faultBound U.card) {b b' : β} (hA : A ⊆ U) (hqA : twoThirds U.card ≤ A.card)
    (hbA : ∀ x ∈ A, x ∉ F → voted x b) (hB : B ⊆ U) (hqB : twoThirds U.card ≤ B.card)
    (hbB : ∀ x ∈ B, x ∉ F → voted x b') : b = b' := by
  obtain ⟨x, hxA, hxB, hxF⟩ := exists_mem_inter_notMem hA hB hqA hqB hF
  exact hvoted x hxF b b' (hbA x hxA hxF) (hbB x hxB hxF)

end Benzene.Threshold
