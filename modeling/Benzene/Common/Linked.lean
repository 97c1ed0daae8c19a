import Mathlib.Data.List.Basic

/-!
# Linked paths

Elements that carry a hash, the hash of a predecessor and a number.  A list of them is linked if
its elements are numbered from zero and each one names the hash of the one before it, as the
headers of a chain are from its genesis block on.

A linked path grows by an element that names its last one (`Linked.concat`) and is cut at any
number (`Linked.take`).  Where the hashes of elements tell them apart, an element with the hash of
a member is that member (`HashesApart`).
-/

namespace Benzene

variable {α κ : Type*} (hash parent : α → κ) (number : α → ℕ)

/-- The path is numbered from zero and linked by hashes. -/
structure Linked (path : List α) : Prop where
  number_eq : ∀ {i x}, path[i]? = some x → number x = i
  parent_eq : ∀ {i x y}, path[i]? = some x → path[i + 1]? = some y → parent y = hash x

/-- Elements with the property are told apart by their hashes. -/
def HashesApart (known : α → Prop) : Prop :=
  ∀ x y, known x → known y → hash x = hash y → x = y

variable {hash parent number} {path : List α} {x y : α} {i n : ℕ}

namespace Linked

theorem singleton (h : number x = 0) : Linked hash parent number [x] where
  number_eq := by
    intro i y hy
    cases i with
    | zero =>
      obtain rfl := Option.some.inj hy
      exact h
    | succ i => cases hy
  parent_eq := by
    intro i y z _ hz
    cases hz

/-- The place of a member is its number. -/
theorem getElem?_number (hl : Linked hash parent number path) (hx : x ∈ path) :
    path[number x]? = some x := by
  obtain ⟨i, hi⟩ := List.mem_iff_getElem?.1 hx
  rw [hl.number_eq hi]
  exact hi

theorem number_lt (hl : Linked hash parent number path) (hx : x ∈ path) :
    number x < path.length :=
  (List.getElem?_eq_some_iff.1 (hl.getElem?_number hx)).1

theorem getElem?_of_take (hx : (path.take n)[i]? = some x) : path[i]? = some x := by
  obtain ⟨hi, -⟩ := List.getElem?_eq_some_iff.1 hx
  rw [List.length_take] at hi
  rwa [List.getElem?_take_of_lt (by omega)] at hx

theorem take (hl : Linked hash parent number path) (n : ℕ) :
    Linked hash parent number (path.take n) :=
  ⟨fun hx => hl.number_eq (getElem?_of_take hx),
    fun hx hy => hl.parent_eq (getElem?_of_take hx) (getElem?_of_take hy)⟩

/-- The number of the last element is one less than the length. -/
theorem number_getLast (hl : Linked hash parent number path) (hx : path.getLast? = some x) :
    number x + 1 = path.length := by
  have hne : path ≠ [] := by
    rintro rfl
    cases hx
  rw [List.getLast?_eq_getElem?] at hx
  have hpos := List.length_pos_iff.2 hne
  rw [hl.number_eq hx]
  omega

theorem getElem?_concat_cases (hx : (path ++ [y])[i]? = some x) :
    path[i]? = some x ∨ i = path.length ∧ x = y := by
  have hi : i < (path ++ [y]).length := (List.getElem?_eq_some_iff.1 hx).1
  rw [List.length_append, List.length_singleton] at hi
  rcases Nat.lt_or_ge i path.length with hlt | hge
  · rw [List.getElem?_append_left hlt] at hx
    exact Or.inl hx
  · obtain rfl : i = path.length := by omega
    rw [List.getElem?_concat_length] at hx
    exact Or.inr ⟨rfl, (Option.some.inj hx).symm⟩

/-- An element that names the last one, and has the next number, extends the path. -/
theorem concat (hl : Linked hash parent number path) (hx : path.getLast? = some x)
    (hparent : parent y = hash x) (hnumber : number y = number x + 1) :
    Linked hash parent number (path ++ [y]) := by
  have hlen := hl.number_getLast hx
  refine ⟨fun {i z} hz => ?_, fun {i z w} hz hw => ?_⟩
  · rcases getElem?_concat_cases hz with hz | ⟨rfl, rfl⟩
    · exact hl.number_eq hz
    · omega
  · rcases getElem?_concat_cases hz with hz' | ⟨rfl, rfl⟩
    · rcases getElem?_concat_cases hw with hw' | ⟨hi, rfl⟩
      · exact hl.parent_eq hz' hw'
      · -- the new element after the last one
        rw [List.getLast?_eq_getElem?, ← hi, Nat.add_sub_cancel] at hx
        obtain rfl := Option.some.inj (hz'.symm.trans hx)
        exact hparent
    · have hlt : path.length + 1 < (path ++ [z]).length := (List.getElem?_eq_some_iff.1 hw).1
      rw [List.length_append, List.length_singleton] at hlt
      omega

end Linked

end Benzene
