import Mathlib

/-!
# Two shelves and an index

Items stand on two shelves, each in its own place, and an index finds them by key.  While items
are being moved some of them are on neither shelf but still in the index: they are held.
`Shelved` is the invariant, with one rule for each move:

* `take`: items leave the left shelf and are held;
* `put`: a held item goes to its place on the left shelf;
* `forget`: a held item leaves the index;
* `hold`: an item that is in no place and not in the index enters the index and is held;
* `replace`: an item that is not in the index takes the place of another on the left shelf;
* `swap`: the shelves are alike, so that every rule also holds for the right shelf.
-/

namespace Benzene

variable {ι κ α : Type*}

/-- Every item is in its own place, on one of the shelves or held, and the index has exactly
    these items. -/
structure Shelved (place : α → ι) (key : α → κ) (left right : ι → Option α)
    (index : κ → Option α) (held : List α) : Prop where
  left_place : ∀ {i x}, left i = some x → place x = i
  right_place : ∀ {i x}, right i = some x → place x = i
  disjoint : ∀ {i x}, left i = some x → right i = none
  index_iff : ∀ k x, index k = some x ↔
    key x = k ∧ (left (place x) = some x ∨ right (place x) = some x ∨ x ∈ held)
  held_free : ∀ x ∈ held, left (place x) = none ∧ right (place x) = none
  held_nodup : (held.map place).Nodup

namespace Shelved

variable {place : α → ι} {key : α → κ} {left right left' right' : ι → Option α}
  {index index' : κ → Option α} {held removed : List α} {x : α}

section

variable (h : Shelved place key left right index held)

include h

theorem swap :
    Shelved place key right left index held where
  left_place := h.right_place
  right_place := h.left_place
  disjoint := by
    intro i x hx
    cases hl : left i with
    | none => rfl
    | some y => exact absurd (h.disjoint hl) (by simp [hx])
  index_iff k x := by rw [h.index_iff, or_left_comm]
  held_free x hx := (h.held_free x hx).symm
  held_nodup := h.held_nodup

theorem index_of_held (hx : x ∈ held) : index (key x) = some x :=
  (h.index_iff _ _).2 ⟨rfl, Or.inr (Or.inr hx)⟩

theorem index_of_left {i : ι} (hx : left i = some x) : index (key x) = some x :=
  (h.index_iff _ _).2 ⟨rfl, Or.inl (by rwa [h.left_place hx])⟩

/-- Two items in the index with one key are one item. -/
theorem eq_of_key {k : κ} {y : α} (hx : index k = some x) (hy : index (key y) = some y)
    (hkey : key x = key y) : x = y := by
  have hk : key x = k := ((h.index_iff k x).1 hx).1
  rw [← hkey, hk, hx] at hy
  exact Option.some.inj hy

theorem take (hleft : ∀ i x, left' i = some x ↔ left i = some x ∧ x ∉ removed)
    (hmem : ∀ x ∈ removed, left (place x) = some x) (hnd : removed.Nodup) :
    Shelved place key left' right index (removed ++ held) where
  left_place hx := h.left_place ((hleft _ _).1 hx).1
  right_place := h.right_place
  disjoint hx := h.disjoint ((hleft _ _).1 hx).1
  index_iff k x := by
    rw [h.index_iff, hleft, List.mem_append]
    apply and_congr_right
    intro _
    by_cases hr : x ∈ removed
    · simp [hr, hmem x hr]
    · simp [hr]
  held_free x hx := by
    have hnone : ∀ i, left i = none → left' i = none := by
      intro i hi
      cases hl : left' i with
      | none => rfl
      | some y => exact absurd ((hleft i y).1 hl).1 (by simp [hi])
    rcases List.mem_append.1 hx with hx | hx
    · have hl := hmem x hx
      refine ⟨?_, h.disjoint hl⟩
      cases hl' : left' (place x) with
      | none => rfl
      | some y =>
        obtain ⟨hy, hny⟩ := (hleft _ y).1 hl'
        rw [hl] at hy
        exact absurd (Option.some.inj hy ▸ hx) hny
    · exact ⟨hnone _ (h.held_free x hx).1, (h.held_free x hx).2⟩
  held_nodup := by
    rw [List.map_append, List.nodup_append]
    refine ⟨?_, h.held_nodup, ?_⟩
    · apply List.Nodup.map_on _ hnd
      intro x hx y hy hxy
      have hl := hmem x hx
      rw [hxy, hmem y hy] at hl
      exact (Option.some.inj hl).symm
    · intro i hi j hj hij
      obtain ⟨x, hx, rfl⟩ := List.mem_map.1 hi
      obtain ⟨y, hy, rfl⟩ := List.mem_map.1 hj
      have hl := hmem x hx
      rw [hij, (h.held_free y hy).1] at hl
      cases hl

end

section

variable (h : Shelved place key left right index (x :: held))

include h

theorem not_mem_of_cons : x ∉ held := by
  intro hx
  exact (List.nodup_cons.1 h.held_nodup).1 (List.mem_map_of_mem hx)

theorem forget [DecidableEq κ] (hindex : ∀ k, index' k = if k = key x then none else index k) :
    Shelved place key left right index' held where
  left_place := h.left_place
  right_place := h.right_place
  disjoint := h.disjoint
  index_iff k y := by
    have hx := h.index_of_held List.mem_cons_self
    have hfree := h.held_free x List.mem_cons_self
    rw [hindex]
    by_cases hk : k = key x
    · subst hk
      simp only [if_true, false_iff, reduceCtorEq, not_and]
      rintro hkey (hy | hy | hy)
      · have heq := h.eq_of_key (h.index_of_left hy) hx hkey
        rw [heq, hfree.1] at hy
        cases hy
      · have heq := h.eq_of_key (h.swap.index_of_left hy) hx hkey
        rw [heq, hfree.2] at hy
        cases hy
      · have heq := h.eq_of_key (h.index_of_held (List.mem_cons_of_mem _ hy)) hx hkey
        exact h.not_mem_of_cons (heq ▸ hy)
    · rw [if_neg hk, h.index_iff, List.mem_cons]
      apply and_congr_right
      rintro rfl
      have hne : y ≠ x := by
        rintro rfl
        exact hk rfl
      simp [hne]
  held_free y hy := h.held_free y (List.mem_cons_of_mem _ hy)
  held_nodup := (List.nodup_cons.1 h.held_nodup).2

theorem put [DecidableEq ι] (hleft : ∀ i, left' i = if i = place x then some x else left i) :
    Shelved place key left' right index held where
  left_place := by
    intro i y hy
    rw [hleft] at hy
    split_ifs at hy with hi
    · rw [← Option.some.inj hy, hi]
    · exact h.left_place hy
  right_place := h.right_place
  disjoint := by
    intro i y hy
    rw [hleft] at hy
    split_ifs at hy with hi
    · rw [hi]
      exact (h.held_free x List.mem_cons_self).2
    · exact h.disjoint hy
  index_iff k y := by
    rw [h.index_iff, hleft, List.mem_cons]
    apply and_congr_right
    intro _
    by_cases hy : place y = place x
    · have hfree := h.held_free x List.mem_cons_self
      rw [if_pos hy, hy, hfree.1, hfree.2]
      have hnot : y ∉ held := fun hmem =>
        (List.nodup_cons.1 h.held_nodup).1 (hy ▸ List.mem_map_of_mem hmem)
      simp [hnot, eq_comm]
    · have hne : y ≠ x := fun heq => hy (by rw [heq])
      rw [if_neg hy]
      simp [hne]
  held_free y hy := by
    have hfree := h.held_free y (List.mem_cons_of_mem _ hy)
    rw [hleft, if_neg]
    · exact hfree
    · intro heq
      exact (List.nodup_cons.1 h.held_nodup).1 (heq ▸ List.mem_map_of_mem hy)
  held_nodup := (List.nodup_cons.1 h.held_nodup).2

end

theorem hold [DecidableEq κ] (h : Shelved place key left right index held)
    (hkey : index (key x) = none) (hl : left (place x) = none) (hr : right (place x) = none)
    (hheld : place x ∉ held.map place)
    (hindex : ∀ k, index' k = if k = key x then some x else index k) :
    Shelved place key left right index' (x :: held) where
  left_place := h.left_place
  right_place := h.right_place
  disjoint := h.disjoint
  index_iff k y := by
    have hx : x ∉ held := fun hmem => hheld (List.mem_map_of_mem hmem)
    rw [hindex, List.mem_cons]
    by_cases hk : k = key x
    · subst hk
      rw [if_pos rfl, Option.some.injEq]
      constructor
      · rintro rfl
        exact ⟨rfl, Or.inr (Or.inr (Or.inl rfl))⟩
      · rintro ⟨hy, hin⟩
        by_contra hne
        have hin' : left (place y) = some y ∨ right (place y) = some y ∨ y ∈ held := by
          rcases hin with hin | hin | rfl | hin
          · exact Or.inl hin
          · exact Or.inr (Or.inl hin)
          · exact absurd rfl hne
          · exact Or.inr (Or.inr hin)
        exact absurd ((h.index_iff _ y).2 ⟨hy, hin'⟩) (by simp [hkey])
    · rw [if_neg hk, h.index_iff]
      apply and_congr_right
      rintro rfl
      have hne : y ≠ x := by
        rintro rfl
        exact hk rfl
      simp [hne]
  held_free y hy := by
    rcases List.mem_cons.1 hy with rfl | hy
    · exact ⟨hl, hr⟩
    · exact h.held_free y hy
  held_nodup := List.nodup_cons.2 ⟨hheld, h.held_nodup⟩

theorem replace [DecidableEq ι] [DecidableEq κ] (h : Shelved place key left right index held)
    {old : α} (hold : left (place x) = some old) (hkey : index (key x) = none)
    (hleft : ∀ i, left' i = if i = place x then some x else left i)
    (hindex : ∀ k, index' k = if k = key x then some x
      else if k = key old then none else index k) :
    Shelved place key left' right index' held := by
  have hplace : place old = place x := h.left_place hold
  -- the old item is taken and forgotten, then the new one is held and put in its place
  have htake : Shelved place key (fun i => if i = place x then none else left i) right index
      ([old] ++ held) := h.take ?_ ?_ (List.nodup_singleton old)
  · have hforget : Shelved place key (fun i => if i = place x then none else left i) right
        (fun k => if k = key old then none else index k) held := htake.forget fun _ => rfl
    have hfree := htake.held_free old List.mem_cons_self
    have hnd := List.nodup_cons.1 htake.held_nodup
    rw [hplace] at hfree hnd
    have hhold := hforget.hold (x := x) ?_ (if_pos rfl) hfree.2 hnd.1 hindex
    · refine hhold.put fun i => ?_
      rw [hleft]
      split_ifs <;> rfl
    · simp only [hkey, ite_self]
  · intro i y
    by_cases hi : i = place x
    · subst hi
      simp only [if_true, reduceCtorEq, List.mem_singleton, hold, Option.some.injEq, false_iff,
        not_and, not_not]
      exact Eq.symm
    · simp only [hi, if_false, List.mem_singleton]
      constructor
      · intro hy
        refine ⟨hy, ?_⟩
        rintro rfl
        exact hi ((h.left_place hy).symm.trans hplace)
      · exact And.left
  · intro y hy
    rw [List.mem_singleton.1 hy, hplace, hold]

end Shelved

end Benzene
