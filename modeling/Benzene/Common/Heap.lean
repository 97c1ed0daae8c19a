import Mathlib

/-!
# Binary heaps

Go's `container/heap` on a slice: `Init`, `Push`, `Pop` and `Remove`, written with the `up`
and `down` loops of the package.  A heap is a list; position `c` has parent `(c - 1) / 2`.
The loops take fuel, and the fuel given to them is enough (`downLoop_ordered`,
`upLoop_ordered` end in an ordered heap).

Results, for an order `less` that is a strict weak order:

* every operation keeps the elements (`init_perm`, `push_perm`, `pop_perm`, `remove_perm`), and
  popping yields them all (`drain_perm`);
* every operation ends in an ordered heap (`init_ordered`, `push_ordered`, `pop_ordered`,
  `remove_ordered`), whatever the list given to `init`;
* the front of an ordered heap is minimal (`Ordered.front_le`), and it is what `pop` returns
  (`pop_front`).
-/

namespace Benzene.Heap

variable {α : Type*}

/-- `less` is a strict weak order: `less b a = false` is a total preorder. -/
structure StrictWeak (less : α → α → Bool) : Prop where
  asymm : ∀ a b, less a b = true → less b a = false
  trans : ∀ a b c, less b a = false → less c b = false → less c a = false

theorem StrictWeak.irrefl {less : α → α → Bool} (hless : StrictWeak less) (a : α) :
    less a a = false := by
  cases haa : less a a with
  | false => rfl
  | true => simpa [haa] using hless.asymm a a haa

variable (less : α → α → Bool)

/-- `h.Less(i, j)`. -/
def lessAt (h : List α) (i j : ℕ) : Bool :=
  match h[i]?, h[j]? with
  | some a, some b => less a b
  | _, _ => false

/-- `h.Swap(i, j)`. -/
def swap (h : List α) (i j : ℕ) : List α :=
  match h[i]?, h[j]? with
  | some a, some b => (h.set i b).set j a
  | _, _ => h

/-- The loop of `up`. -/
def upLoop : ℕ → List α → ℕ → List α
  | 0, h, _ => h
  | fuel + 1, h, j =>
    let i := (j - 1) / 2
    if i = j ∨ lessAt less h j i = false then h else upLoop fuel (swap h i j) i

/-- `up(h, j)`. -/
def up (h : List α) (j : ℕ) : List α := upLoop less j h j

/-- The smaller child `j` of `i`, when `2 i + 1 < n`. -/
def minChild (h : List α) (i n : ℕ) : ℕ :=
  if 2 * i + 2 < n ∧ lessAt less h (2 * i + 2) (2 * i + 1) = true then 2 * i + 2 else 2 * i + 1

/-- The loop of `down`, with the position where it stops. -/
def downLoop : ℕ → List α → ℕ → ℕ → List α × ℕ
  | 0, h, i, _ => (h, i)
  | fuel + 1, h, i, n =>
    if n ≤ 2 * i + 1 then (h, i)
    else if lessAt less h (minChild less h i n) i = false then (h, i)
    else downLoop fuel (swap h i (minChild less h i n)) (minChild less h i n) n

/-- `down(h, i0, n)`: the heap, and whether the element moved. -/
def down (h : List α) (i0 n : ℕ) : List α × Bool :=
  let r := downLoop less n h i0 n
  (r.1, decide (i0 < r.2))

/-- `heap.Init`. -/
def init (h : List α) : List α :=
  (List.range (h.length / 2)).reverse.foldl (fun h' i => (down less h' i h.length).1) h

/-- `heap.Push`. -/
def push (h : List α) (x : α) : List α := up less (h ++ [x]) h.length

/-- `heap.Pop`; the callers make sure that the heap is not empty. -/
def pop (h : List α) : Option (α × List α) :=
  let n := h.length - 1
  let h' := (down less (swap h 0 n) 0 n).1
  h'.getLast?.map fun x => (x, h'.dropLast)

/-- The elements in the order in which they are popped. -/
def drain : ℕ → List α → List α
  | 0, _ => []
  | fuel + 1, h =>
    match pop less h with
    | none => []
    | some (x, h') => x :: drain fuel h'

/-- `heap.Remove(h, i)`, without the element it returns. -/
def remove (h : List α) (i : ℕ) : List α :=
  let n := h.length - 1
  let h' :=
    if n = i then h
    else
      let r := down less (swap h i n) i n
      if r.2 then r.1 else up less r.1 i
  h'.dropLast

/-! ## The elements -/

theorem swap_perm (h : List α) (i j : ℕ) : (swap h i j).Perm h := by
  unfold swap
  split
  · rename_i a b ha hb
    obtain ⟨hi, rfl⟩ := List.getElem?_eq_some_iff.1 ha
    obtain ⟨hj, rfl⟩ := List.getElem?_eq_some_iff.1 hb
    exact List.set_set_perm hi hj
  · exact List.Perm.refl h

@[simp] theorem swap_length (h : List α) (i j : ℕ) : (swap h i j).length = h.length :=
  (swap_perm h i j).length_eq

variable {h h' : List α} {i j n k lo : ℕ} {x : α}

theorem swap_getElem? (hi : i < h.length) (hj : j < h.length) (k : ℕ) :
    (swap h i j)[k]? = if k = i then h[j]? else if k = j then h[i]? else h[k]? := by
  simp only [swap, List.getElem?_eq_getElem hi, List.getElem?_eq_getElem hj]
  by_cases hkj : k = j
  · subst hkj
    by_cases hki : k = i
    · subst hki
      simp [hi]
    · simp [hki, hj]
  · by_cases hki : k = i
    · subst hki
      simp [hi, Ne.symm hkj]
    · simp [hki, hkj, Ne.symm hki, Ne.symm hkj]

theorem upLoop_perm (fuel : ℕ) (h : List α) (j : ℕ) : (upLoop less fuel h j).Perm h := by
  induction fuel generalizing h j with
  | zero => exact List.Perm.refl h
  | succ fuel ih =>
    simp only [upLoop]
    split_ifs
    · exact List.Perm.refl h
    · exact (ih _ _).trans (swap_perm h _ _)

theorem downLoop_perm (fuel : ℕ) (h : List α) (i n : ℕ) :
    (downLoop less fuel h i n).1.Perm h := by
  induction fuel generalizing h i with
  | zero => exact List.Perm.refl h
  | succ fuel ih =>
    simp only [downLoop]
    split_ifs
    · exact List.Perm.refl h
    · exact List.Perm.refl h
    · exact (ih _ _).trans (swap_perm h _ _)

theorem up_perm (h : List α) (j : ℕ) : (up less h j).Perm h := upLoop_perm less j h j

theorem down_perm (h : List α) (i n : ℕ) : (down less h i n).1.Perm h :=
  downLoop_perm less n h i n

@[simp] theorem down_length (h : List α) (i n : ℕ) : (down less h i n).1.length = h.length :=
  (down_perm less h i n).length_eq

@[simp] theorem up_length (h : List α) (j : ℕ) : (up less h j).length = h.length :=
  (up_perm less h j).length_eq

theorem init_perm (h : List α) : (init less h).Perm h := by
  have hfold : ∀ (is : List ℕ) (g : List α),
      (is.foldl (fun h' i => (down less h' i h.length).1) g).Perm g := by
    intro is
    induction is with
    | nil => exact fun g => List.Perm.refl g
    | cons i is ih => exact fun g => (ih _).trans (down_perm less g i h.length)
  exact hfold _ h

theorem push_perm (h : List α) (x : α) : (push less h x).Perm (x :: h) :=
  (up_perm less _ _).trans List.perm_append_comm

theorem minChild_bounds (hi : 2 * i + 1 < n) :
    i < minChild less h i n ∧ minChild less h i n < n ∧ (minChild less h i n - 1) / 2 = i := by
  unfold minChild
  split_ifs <;> omega

/-- `down` does not touch the positions from `n` on. -/
theorem downLoop_getElem? (fuel : ℕ) (hn : n ≤ h.length) (hk : n ≤ k) :
    (downLoop less fuel h i n).1[k]? = h[k]? := by
  induction fuel generalizing h i with
  | zero => rfl
  | succ fuel ih =>
    simp only [downLoop]
    split_ifs with hleaf hle
    · rfl
    · rfl
    · obtain ⟨hlt, hmin, -⟩ := minChild_bounds less (h := h) (not_le.1 hleaf)
      rw [ih (by simpa using hn), swap_getElem? (by omega) (by omega)]
      simp [show k ≠ i by omega, show k ≠ minChild less h i n by omega]

/-- `up` from `j` does not touch the positions above `j`. -/
theorem upLoop_getElem? (fuel : ℕ) (hj : j < h.length) (hk : j < k) :
    (upLoop less fuel h j)[k]? = h[k]? := by
  induction fuel generalizing h j with
  | zero => rfl
  | succ fuel ih =>
    simp only [upLoop]
    split_ifs
    · rfl
    · rw [ih (by simp; omega) (by omega), swap_getElem? (by omega) hj]
      simp [show k ≠ j by omega, show k ≠ (j - 1) / 2 by omega]

/-- What is at the last position after the first steps of `pop` and `remove`. -/
theorem down_swap_last (hi : i < h.length) :
    (down less (swap h i (h.length - 1)) i (h.length - 1)).1[h.length - 1]? = h[i]? := by
  have hdown := downLoop_getElem? less (h.length - 1) (h := swap h i (h.length - 1)) (i := i)
    (n := h.length - 1) (by simp) (k := h.length - 1) le_rfl
  unfold down
  rw [hdown, swap_getElem? hi (by omega)]
  by_cases hlast : h.length - 1 = i
  · simp [hlast]
  · simp [hlast]

theorem perm_cons_dropLast {g : List α} (hperm : g.Perm h) (hlast : g[h.length - 1]? = some x) :
    h.Perm (x :: g.dropLast) := by
  rw [← hperm.length_eq, ← List.getLast?_eq_getElem?] at hlast
  have hsplit : g.dropLast ++ [x] = g := List.dropLast_append_getLast? x hlast
  calc h.Perm g := hperm.symm
    _ = g.dropLast ++ [x] := hsplit.symm
    _ |>.Perm (x :: g.dropLast) := List.perm_append_comm

theorem pop_eq_none_iff : pop less h = none ↔ h = [] := by
  simp only [pop, Option.map_eq_none_iff, List.getLast?_eq_none_iff]
  rw [← List.length_eq_zero_iff, down_length, swap_length, List.length_eq_zero_iff]

/-- `pop` in terms of the front of the heap. -/
theorem pop_eq_some (hpop : pop less h = some (x, h')) :
    0 < h.length ∧ h[0]? = some x ∧
      h' = (down less (swap h 0 (h.length - 1)) 0 (h.length - 1)).1.dropLast := by
  have hpos : 0 < h.length := by
    rw [List.length_pos_iff]
    intro hnil
    rw [(pop_eq_none_iff less).2 hnil] at hpop
    cases hpop
  simp only [pop, Option.map_eq_some_iff, Prod.mk.injEq] at hpop
  obtain ⟨y, hlast, rfl, rfl⟩ := hpop
  refine ⟨hpos, ?_, rfl⟩
  rw [← down_swap_last less hpos, ← hlast, List.getLast?_eq_getElem?]
  simp

theorem pop_front (hpop : pop less h = some (x, h')) : h[0]? = some x :=
  (pop_eq_some less hpop).2.1

theorem pop_perm (hpop : pop less h = some (x, h')) : h.Perm (x :: h') := by
  obtain ⟨hpos, hfront, rfl⟩ := pop_eq_some less hpop
  apply perm_cons_dropLast ((down_perm less _ _ _).trans (swap_perm h _ _))
  rw [down_swap_last less hpos, hfront]

theorem drain_perm {fuel : ℕ} (hfuel : h.length ≤ fuel) : (drain less fuel h).Perm h := by
  induction fuel generalizing h with
  | zero => rw [drain, List.eq_nil_of_length_eq_zero (Nat.le_zero.1 hfuel)]
  | succ fuel ih =>
    rw [drain]
    cases hpop : pop less h with
    | none => rw [(pop_eq_none_iff less).1 hpop]
    | some r =>
      have hperm : h.Perm (r.1 :: r.2) := pop_perm less hpop
      have hlen := hperm.length_eq
      rw [List.length_cons] at hlen
      exact ((ih (by omega)).cons r.1).trans hperm.symm

theorem remove_perm (hi : i < h.length) : h.Perm (h[i] :: remove less h i) := by
  have hget : h[i]? = some h[i] := List.getElem?_eq_getElem hi
  unfold remove
  by_cases hlast : h.length - 1 = i
  · simp only [if_pos hlast]
    apply perm_cons_dropLast (List.Perm.refl h)
    rw [hlast, hget]
  · have hdown := (down_perm less (swap h i (h.length - 1)) i (h.length - 1)).trans
      (swap_perm h i (h.length - 1))
    simp only [if_neg hlast]
    split_ifs
    · apply perm_cons_dropLast hdown
      rw [down_swap_last less hi, hget]
    · apply perm_cons_dropLast ((up_perm less _ _).trans hdown)
      unfold up
      rw [upLoop_getElem? less _ (by simpa using hi) (by omega), down_swap_last less hi, hget]

/-! ## The order -/

/-- The element at a position is not after the one at another; true when there is none. -/
def Le (x y : Option α) : Prop := ∀ a b, x = some a → y = some b → less b a = false

/-- Every element is at or after its parent, for the parents from `lo` on and the first `n`
    positions. -/
def OrderedFrom (h : List α) (lo n : ℕ) : Prop :=
  ∀ c, 0 < c → c < n → lo ≤ (c - 1) / 2 → Le less h[(c - 1) / 2]? h[c]?

/-- The heap order. -/
def Ordered (h : List α) : Prop := OrderedFrom less h 0 h.length

variable {less}

theorem Le.trans (hless : StrictWeak less) {x y z : Option α} {b : α} (hy : y = some b)
    (hxy : Le less x y) (hyz : Le less y z) : Le less x z := by
  intro a c hx hz
  exact hless.trans a b c (hxy a b hx hy) (hyz b c hy hz)

theorem le_of_lessAt (hless : StrictWeak less) (hlt : lessAt less h i j = true) :
    Le less h[i]? h[j]? := by
  intro a b ha hb
  simp only [lessAt, ha, hb] at hlt
  exact hless.asymm a b hlt

theorem le_of_not_lessAt (hlt : lessAt less h j i = false) : Le less h[i]? h[j]? := by
  intro a b ha hb
  simpa only [lessAt, ha, hb] using hlt

theorem lessAt_eq_false (hle : Le less h[i]? h[j]?) : lessAt less h j i = false := by
  unfold lessAt
  split
  · rename_i a b ha hb
    exact hle b a hb ha
  · rfl

/-- The front of a heap is minimal. -/
theorem Ordered.front_le (hless : StrictWeak less) (ho : Ordered less h) (hk : k < h.length) :
    Le less h[0]? h[k]? := by
  induction k using Nat.strong_induction_on with
  | _ k ih =>
    rcases Nat.eq_zero_or_pos k with rfl | hpos
    · intro a b ha hb
      rw [ha] at hb
      obtain rfl := Option.some.inj hb
      exact hless.irrefl a
    · have hp : (k - 1) / 2 < h.length := by omega
      exact Le.trans hless (List.getElem?_eq_getElem hp) (ih _ (by omega) hp)
        (ho k hpos hk (Nat.zero_le _))

theorem OrderedFrom.take {m : ℕ} (ho : OrderedFrom less h lo n) (hm : m ≤ n) :
    OrderedFrom less (h.take m) lo m := by
  intro c hc hcm hlo
  rw [List.getElem?_take_of_lt hcm, List.getElem?_take_of_lt (by omega)]
  exact ho c hc (by omega) hlo

/-- The state of `down` at `hole`: only the children of `hole` may be before it, and they are
    at or after its parent. -/
structure DownOrder (less : α → α → Bool) (h : List α) (lo n hole : ℕ) : Prop where
  except : ∀ c, 0 < c → c < n → lo ≤ (c - 1) / 2 → (c - 1) / 2 ≠ hole →
    Le less h[(c - 1) / 2]? h[c]?
  grand : 0 < hole → lo ≤ (hole - 1) / 2 → ∀ c, c < n → (c - 1) / 2 = hole →
    Le less h[(hole - 1) / 2]? h[c]?

theorem minChild_le (hless : StrictWeak less) {c : ℕ} (hc : 0 < c) (hcn : c < n)
    (hp : (c - 1) / 2 = i) (hne : c ≠ minChild less h i n) :
    Le less h[minChild less h i n]? h[c]? := by
  unfold minChild at hne ⊢
  split_ifs at hne ⊢ with hright
  · obtain rfl : c = 2 * i + 1 := by omega
    exact le_of_lessAt hless hright.2
  · obtain rfl : c = 2 * i + 2 := by omega
    apply le_of_not_lessAt
    cases hlt : lessAt less h (2 * i + 2) (2 * i + 1) with
    | false => rfl
    | true => exact absurd ⟨hcn, hlt⟩ hright

theorem DownOrder.move (hless : StrictWeak less) (ho : DownOrder less h lo n i) (hn : n ≤ h.length)
    (hlo : lo ≤ i) (hleaf : 2 * i + 1 < n) (hlt : lessAt less h (minChild less h i n) i = true) :
    DownOrder less (swap h i (minChild less h i n)) lo n (minChild less h i n) := by
  obtain ⟨hij, hjn, hpj⟩ := minChild_bounds less (h := h) hleaf
  have hmin := fun c hc hcn hp hne => minChild_le hless (h := h) (i := i) (n := n) (c := c)
    hc hcn hp hne
  generalize hj : minChild less h i n = j at hij hjn hpj hmin hlt
  have hget := swap_getElem? (h := h) (i := i) (j := j) (by omega) (by omega)
  constructor
  · intro c hc hcn hloc hpc
    rw [hget, hget]
    by_cases hci : c = i
    · subst hci
      simp only [if_true, show (c - 1) / 2 ≠ c by omega, show (c - 1) / 2 ≠ j by omega, if_false]
      exact ho.grand hc hloc j hjn hpj
    · by_cases hpi : (c - 1) / 2 = i
      · by_cases hcj : c = j
        · subst hcj
          simp only [hpi, if_true, hci, if_false]
          exact le_of_lessAt hless hlt
        · simp only [hpi, if_true, hci, hcj, if_false]
          exact hmin c hc hcn hpi hcj
      · have hcj : c ≠ j := by
          intro h'
          exact hpi (h' ▸ hpj)
        simp only [hpi, hpc, hci, hcj, if_false]
        exact ho.except c hc hcn hloc hpi
  · intro _ _ c hcn hpc
    rw [hget, hget]
    simp only [hpj, if_true, show c ≠ i by omega, show c ≠ j by omega, if_false]
    have hedge := ho.except c (by omega) hcn (by omega) (by omega)
    rwa [hpc] at hedge

theorem downLoop_ordered (hless : StrictWeak less) (fuel : ℕ) (ho : DownOrder less h lo n i)
    (hn : n ≤ h.length) (hlo : lo ≤ i) (hfuel : n ≤ i + fuel) :
    OrderedFrom less (downLoop less fuel h i n).1 lo n := by
  -- when the loop stops at `i`, the children of `i` are in order too
  have hstop : ∀ {h : List α} {i : ℕ}, DownOrder less h lo n i →
      (∀ c, 0 < c → c < n → (c - 1) / 2 = i → Le less h[i]? h[c]?) →
      OrderedFrom less h lo n := by
    intro h i ho hi c hc hcn hloc
    by_cases hp : (c - 1) / 2 = i
    · rw [hp]
      exact hi c hc hcn hp
    · exact ho.except c hc hcn hloc hp
  induction fuel generalizing h i with
  | zero =>
    apply hstop ho
    intro c hc hcn hp
    omega
  | succ fuel ih =>
    simp only [downLoop]
    split_ifs with hleaf hle
    · apply hstop ho
      intro c hc hcn hp
      omega
    · apply hstop ho
      intro c hc hcn hp
      by_cases hcj : c = minChild less h i n
      · rw [hcj]
        exact le_of_not_lessAt hle
      · obtain ⟨-, hjn, -⟩ := minChild_bounds less (h := h) (not_le.1 hleaf)
        exact Le.trans hless (List.getElem?_eq_getElem (by omega)) (le_of_not_lessAt hle)
          (minChild_le hless hc hcn hp hcj)
    · obtain ⟨hij, -, -⟩ := minChild_bounds less (h := h) (not_le.1 hleaf)
      have hlt := Bool.not_eq_false _ ▸ hle
      exact ih (ho.move hless hn hlo (not_le.1 hleaf) hlt) (by simpa using hn) (by omega)
        (by omega)

theorem down_ordered (hless : StrictWeak less) (ho : DownOrder less h lo n i) (hn : n ≤ h.length)
    (hlo : lo ≤ i) : OrderedFrom less (down less h i n).1 lo n :=
  downLoop_ordered hless n ho hn hlo (by omega)

/-- `down` leaves an element that is not after its children where it is. -/
theorem downLoop_eq_self (fuel : ℕ) (hle : ∀ c, c < n → (c - 1) / 2 = i → Le less h[i]? h[c]?) :
    downLoop less fuel h i n = (h, i) := by
  cases fuel with
  | zero => rfl
  | succ fuel =>
    simp only [downLoop]
    split_ifs with hleaf hlt
    · rfl
    · rfl
    · obtain ⟨-, hjn, hp⟩ := minChild_bounds less (h := h) (not_le.1 hleaf)
      exact absurd (lessAt_eq_false (hle _ hjn hp)) hlt

/-- The state of `up` at `hole`: only `hole` may be before its parent, and its children are at
    or after that parent. -/
structure UpOrder (less : α → α → Bool) (h : List α) (n hole : ℕ) : Prop where
  except : ∀ c, 0 < c → c < n → c ≠ hole → Le less h[(c - 1) / 2]? h[c]?
  grand : 0 < hole → ∀ c, c < n → (c - 1) / 2 = hole → Le less h[(hole - 1) / 2]? h[c]?

theorem UpOrder.move (hless : StrictWeak less) (ho : UpOrder less h n j) (hn : n ≤ h.length)
    (hj0 : 0 < j) (hjn : j < n) (hlt : lessAt less h j ((j - 1) / 2) = true) :
    UpOrder less (swap h ((j - 1) / 2) j) n ((j - 1) / 2) := by
  generalize hp : (j - 1) / 2 = p at hlt
  have hpj : p < j := by omega
  have hget := swap_getElem? (h := h) (i := p) (j := j) (by omega) (by omega)
  have hsome : h[p]? = some h[p] := List.getElem?_eq_getElem (by omega)
  have hjp : Le less h[j]? h[p]? := le_of_lessAt hless hlt
  constructor
  · intro c hc hcn hcp
    rw [hget, hget]
    by_cases hcj : c = j
    · subst hcj
      simpa [hp, hcp] using hjp
    · by_cases hpc : (c - 1) / 2 = p
      · simp only [hpc, hcp, hcj, if_true, if_false]
        have hedge := ho.except c hc hcn hcj
        rw [hpc] at hedge
        exact Le.trans hless hsome hjp hedge
      · by_cases hpcj : (c - 1) / 2 = j
        · simp only [hpcj, show j ≠ p by omega, hcp, hcj, if_true, if_false]
          have hgrand := ho.grand hj0 c hcn hpcj
          rwa [hp] at hgrand
        · simp only [hpc, hpcj, hcp, hcj, if_false]
          exact ho.except c hc hcn hcj
  · intro hp0 c hcn hpc
    rw [hget, hget]
    have hedge := ho.except p hp0 (by omega) (by omega)
    simp only [show (p - 1) / 2 ≠ p by omega, show (p - 1) / 2 ≠ j by omega,
      show c ≠ p by omega, if_false]
    by_cases hcj : c = j
    · simpa [hcj] using hedge
    · simp only [hcj, if_false]
      have hedge' := ho.except c (by omega) hcn hcj
      rw [hpc] at hedge'
      exact Le.trans hless hsome hedge hedge'

theorem upLoop_ordered (hless : StrictWeak less) (fuel : ℕ) (ho : UpOrder less h n j)
    (hn : n ≤ h.length) (hjn : j < n) (hfuel : j ≤ fuel) :
    OrderedFrom less (upLoop less fuel h j) 0 n := by
  -- when the loop stops at `j`, the edge above `j` is in order too
  have hstop : ∀ {h : List α} {j : ℕ}, UpOrder less h n j →
      (0 < j → Le less h[(j - 1) / 2]? h[j]?) → OrderedFrom less h 0 n := by
    intro h j ho hj c hc hcn _
    by_cases hcj : c = j
    · subst hcj
      exact hj hc
    · exact ho.except c hc hcn hcj
  induction fuel generalizing h j with
  | zero => exact hstop ho (by omega)
  | succ fuel ih =>
    simp only [upLoop]
    split_ifs with hroot
    · apply hstop ho
      intro hj
      rcases hroot with hroot | hle
      · omega
      · exact le_of_not_lessAt hle
    · obtain ⟨hne, hlt⟩ := not_or.1 hroot
      exact ih (ho.move hless hn (by omega) hjn (by simpa using hlt)) (by simpa using hn)
        (by omega) (by omega)

theorem up_ordered (hless : StrictWeak less) (ho : UpOrder less h n j) (hn : n ≤ h.length)
    (hjn : j < n) : OrderedFrom less (up less h j) 0 n :=
  upLoop_ordered hless j ho hn hjn le_rfl

theorem ordered_nil : Ordered less [] := fun _ _ hc => absurd hc (Nat.not_lt_zero _)

theorem init_ordered (hless : StrictWeak less) (h : List α) : Ordered less (init less h) := by
  have hfold : ∀ (m : ℕ) (g : List α), g.length = h.length → OrderedFrom less g m h.length →
      OrderedFrom less ((List.range m).reverse.foldl (fun h' i => (down less h' i h.length).1) g)
        0 h.length := by
    intro m
    induction m with
    | zero => exact fun g _ ho => ho
    | succ m ih =>
      intro g hg ho
      rw [List.range_succ, List.reverse_append, List.reverse_singleton, List.singleton_append,
        List.foldl_cons]
      apply ih _ (by simpa using hg)
      apply down_ordered hless _ hg.ge le_rfl
      refine ⟨fun c hc hcn hloc hne => ho c hc hcn (by omega), fun hm hlo => ?_⟩
      omega
  have hlen : (init less h).length = h.length := (init_perm less h).length_eq
  unfold Ordered
  rw [hlen]
  apply hfold _ h rfl
  intro c hc hcn hlo
  omega

theorem push_ordered (hless : StrictWeak less) (ho : Ordered less h) (x : α) :
    Ordered less (push less h x) := by
  have hlen : (push less h x).length = h.length + 1 := (push_perm less h x).length_eq
  unfold Ordered
  rw [hlen]
  apply up_ordered hless _ (by simp) (by omega)
  constructor
  · intro c hc hcn hne
    have hch : c < h.length := by omega
    rw [List.getElem?_append_left hch, List.getElem?_append_left (by omega)]
    exact ho c hc hch (Nat.zero_le _)
  · intro _ c hcn hp
    omega

/-- The first steps of `pop` and `remove` leave the first positions ordered except around the
    one that received the last element. -/
theorem swap_last_edge (ho : Ordered less h) {c : ℕ} (hi : i < h.length - 1) (hc : 0 < c)
    (hcn : c < h.length - 1) (hci : c ≠ i) (hpi : (c - 1) / 2 ≠ i) :
    Le less (swap h i (h.length - 1))[(c - 1) / 2]? (swap h i (h.length - 1))[c]? := by
  have hget := swap_getElem? (h := h) (i := i) (j := h.length - 1) (by omega) (by omega)
  rw [hget, hget]
  simp only [hpi, hci, show c ≠ h.length - 1 by omega,
    show (c - 1) / 2 ≠ h.length - 1 by omega, if_false]
  exact ho c hc (by omega) (Nat.zero_le _)

theorem ordered_dropLast (ho : OrderedFrom less h 0 (h.length - 1)) : Ordered less h.dropLast := by
  rw [List.dropLast_eq_take]
  have htake := ho.take le_rfl
  unfold Ordered
  rwa [List.length_take, min_eq_left (by omega)]

theorem pop_ordered (hless : StrictWeak less) (ho : Ordered less h)
    (hpop : pop less h = some (x, h')) : Ordered less h' := by
  obtain ⟨hpos, -, rfl⟩ := pop_eq_some less hpop
  apply ordered_dropLast
  rw [down_length, swap_length]
  apply down_ordered hless _ (by simp) le_rfl
  refine ⟨fun c hc hcn _ hne => ?_, fun h0 => absurd h0 (lt_irrefl 0)⟩
  exact swap_last_edge ho (by omega) hc hcn (by omega) hne

theorem OrderedFrom.upOrder (hless : StrictWeak less) (ho : OrderedFrom less h 0 n)
    (hn : n ≤ h.length) (hi : i < n) : UpOrder less h n i := by
  refine ⟨fun c hc hcn _ => ho c hc hcn (Nat.zero_le _), fun hi0 c hcn hp => ?_⟩
  have hedge := ho c (by omega) hcn (Nat.zero_le _)
  rw [hp] at hedge
  exact Le.trans hless (List.getElem?_eq_getElem (by omega)) (ho i hi0 hi (Nat.zero_le _)) hedge

theorem remove_ordered (hless : StrictWeak less) (ho : Ordered less h) (hi : i < h.length) :
    Ordered less (remove less h i) := by
  unfold remove
  apply ordered_dropLast
  by_cases hlast : h.length - 1 = i
  · simp only [if_pos hlast]
    intro c hc hcn _
    exact ho c hc (by omega) (Nat.zero_le _)
  simp only [if_neg hlast]
  generalize hn : h.length - 1 = n at hlast ⊢
  have hin : i < n := by omega
  have hlen : (swap h i n).length = h.length := swap_length h i n
  have hedge : ∀ c, 0 < c → c < n → c ≠ i → (c - 1) / 2 ≠ i →
      Le less (swap h i n)[(c - 1) / 2]? (swap h i n)[c]? := by
    subst hn
    exact fun c hc hcn hci hpi => swap_last_edge ho hin hc hcn hci hpi
  -- the children of `i` are at or after the parent of `i`
  have hgrand : 0 < i → ∀ c, c < n → (c - 1) / 2 = i →
      Le less (swap h i n)[(i - 1) / 2]? (swap h i n)[c]? := by
    intro hi0 c hcn hp
    have hget := swap_getElem? (h := h) (i := i) (j := n) (by omega) (by omega)
    rw [hget, hget]
    simp only [show (i - 1) / 2 ≠ i by omega, show (i - 1) / 2 ≠ n by omega,
      show c ≠ i by omega, show c ≠ n by omega, if_false]
    exact (OrderedFrom.upOrder hless ho le_rfl hi).grand hi0 c (by omega) hp
  generalize hg : swap h i n = g at hlen hedge hgrand
  by_cases hup : 0 < i ∧ lessAt less g i ((i - 1) / 2) = true
  · -- the element belongs above `i`: `down` does nothing
    have hchild : ∀ c, c < n → (c - 1) / 2 = i → Le less g[i]? g[c]? := fun c hcn hp =>
      Le.trans hless (List.getElem?_eq_getElem (by omega)) (le_of_lessAt hless hup.2)
        (hgrand hup.1 c hcn hp)
    have hdown : down less g i n = (g, false) := by
      simp [down, downLoop_eq_self n hchild]
    rw [hdown]
    simp only [Bool.false_eq_true, if_false, up_length, hlen, hn]
    apply up_ordered hless _ (by omega) hin
    refine ⟨fun c hc hcn hci => ?_, hgrand⟩
    by_cases hp : (c - 1) / 2 = i
    · rw [hp]
      exact hchild c hcn hp
    · exact hedge c hc hcn hci hp
  · -- the element is in order with what is above it
    have hdown : OrderedFrom less (down less g i n).1 0 n := by
      apply down_ordered hless _ (by omega) (Nat.zero_le i)
      refine ⟨fun c hc hcn _ hp => ?_, fun hi0 _ => hgrand hi0⟩
      by_cases hci : c = i
      · subst hci
        apply le_of_not_lessAt
        simpa [hc] using hup
      · exact hedge c hc hcn hci hp
    split_ifs
    · simpa only [down_length, hlen, hn] using hdown
    · simp only [up_length, down_length, hlen, hn]
      have hlen' : n ≤ (down less g i n).1.length := by
        rw [down_length]
        omega
      exact up_ordered hless (hdown.upOrder hless hlen' hin) hlen' hin

end Benzene.Heap
