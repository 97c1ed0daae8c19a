import Mathlib.Data.List.Nodup

/-!
# Shedding an overflow

Lists in a row give up `drop` elements together, each from its end: the first ones all they have,
until the overflow is gone.  `length_flatten_shed` counts what is left, and `exists_split_of_shed`
says which lists are touched.
-/

namespace Benzene

variable {α ι : Type}

/-- The lists after they have given up `drop` elements. -/
def shed : ℕ → List (List α) → List (List α)
  | _, [] => []
  | drop, l :: ls => l.take (l.length - drop) :: shed (drop - l.length) ls

@[simp] theorem shed_zero (ls : List (List α)) : shed 0 ls = ls := by
  induction ls with
  | nil => rfl
  | cons l ls ih => simp [shed, ih]

/-- A list gives up its last elements. -/
theorem filter_notMem_reverse_take [DecidableEq α] {l : List α} (h : l.Nodup) {n : ℕ} :
    (l.filter fun x => decide (x ∉ l.reverse.take n)) = l.take (l.length - n) := by
  rw [List.take_reverse]
  have hsplit := List.take_append_drop (l.length - n) l
  have hdisjoint := List.disjoint_take_drop h (Nat.le_refl (l.length - n))
  generalize l.take (l.length - n) = front at hsplit hdisjoint ⊢
  generalize l.drop (l.length - n) = back at hsplit hdisjoint ⊢
  rw [← hsplit, List.filter_append]
  have hfront : (front.filter fun x => decide (x ∉ back.reverse)) = front := by
    rw [List.filter_eq_self]
    intro x hx
    simpa using hdisjoint hx
  have hback : (back.filter fun x => decide (x ∉ back.reverse)) = [] := by
    rw [List.filter_eq_nil_iff]
    intro x hx
    simpa using hx
  rw [hfront, hback, List.append_nil]

/-- As many elements as the overflow leave, or all. -/
theorem length_flatten_shed (drop : ℕ) (ls : List (List α)) :
    (shed drop ls).flatten.length = ls.flatten.length - drop := by
  induction ls generalizing drop with
  | nil => simp [shed]
  | cons l ls ih =>
    simp only [shed, List.flatten_cons, List.length_append, List.length_take, ih]
    omega

/-- The first lists are emptied, then at most one keeps a part from its beginning, and the others
    keep everything. -/
theorem exists_split_of_shed {f g : ι → List α} {ks : List ι} {drop : ℕ}
    (h : ks.map g = shed drop (ks.map f)) :
    ∃ whole cut rest, ks = whole ++ cut ++ rest ∧ cut.length ≤ 1 ∧ (∀ k ∈ whole, g k = []) ∧
      (∀ k ∈ cut, ∃ n, 0 < n ∧ n < (f k).length ∧ g k = (f k).take n) ∧
      ∀ k ∈ rest, g k = f k := by
  induction ks generalizing drop with
  | nil => exact ⟨[], [], [], by simp⟩
  | cons k ks ih =>
    simp only [List.map_cons, shed, List.cons.injEq] at h
    obtain ⟨hk, hks⟩ := h
    by_cases hle : (f k).length ≤ drop
    · obtain ⟨whole, cut, rest, rfl, hcut, hwhole, hpart, hrest⟩ := ih hks
      refine ⟨k :: whole, cut, rest, rfl, hcut, ?_, hpart, hrest⟩
      intro x hx
      rcases List.mem_cons.1 hx with rfl | hx
      · rw [hk, Nat.sub_eq_zero_of_le hle, List.take_zero]
      · exact hwhole x hx
    · -- the overflow ends here
      rw [Nat.sub_eq_zero_of_le (Nat.le_of_not_le hle), shed_zero, List.map_inj_left] at hks
      rcases Nat.eq_zero_or_pos drop with rfl | hpos
      · refine ⟨[], [], k :: ks, rfl, by simp, by simp, by simp, ?_⟩
        intro x hx
        rcases List.mem_cons.1 hx with rfl | hx
        · rw [hk, Nat.sub_zero, List.take_length]
        · exact hks x hx
      · refine ⟨[], [k], ks, rfl, by simp, by simp, ?_, hks⟩
        intro x hx
        obtain rfl := List.mem_singleton.1 hx
        exact ⟨(f x).length - drop, by omega, by omega, hk⟩

end Benzene
