import Benzene.Common.Run

/-!
# Catching up on numbered items

Items `0, 1, …, k - 1` arrive as a body and a stamp each, and are consumed in order.  A stamp
is checked against its body: one that comes first waits, and is looked at again only when
its body arrives while its item is the next to be consumed.

* `mex`: the next item, the least one that is not stamped.
* `height_run_eq_iff`: all items are consumed exactly when the halves arrive `InOrder`: each
  body comes before its stamp, or after both halves of all earlier items.
-/

namespace Benzene.CatchUp

open Run

/-- The halves of the items. -/
inductive Half
  | body (j : ℕ)
  | stamp (j : ℕ)
deriving DecidableEq

/-- The least number outside a finite set. -/
def mex (V : Finset ℕ) : ℕ := Nat.find (Infinite.exists_notMem_finset V)

theorem mex_notMem (V : Finset ℕ) : mex V ∉ V := Nat.find_spec (Infinite.exists_notMem_finset V)

variable {V : Finset ℕ} {j k : ℕ} {pre post : List Half}

theorem mem_of_lt_mex {i : ℕ} (h : i < mex V) : i ∈ V :=
  not_not.1 (Nat.find_min (Infinite.exists_notMem_finset V) h)

theorem mex_le_of_notMem {i : ℕ} (h : i ∉ V) : mex V ≤ i :=
  Nat.find_min' (Infinite.exists_notMem_finset V) h

theorem mex_eq_of_forall_mem (h : ∀ i < j, i ∈ V) (hj : j ∉ V) : mex V = j := by
  refine le_antisymm (mex_le_of_notMem hj) (not_lt.1 fun hlt => ?_)
  exact mex_notMem V (h _ hlt)

theorem mex_mono {V' : Finset ℕ} (h : V ⊆ V') : mex V ≤ mex V' :=
  not_lt.1 fun hlt => mex_notMem V' (h (mem_of_lt_mex hlt))

/-- The item of a half. -/
def Half.item : Half → ℕ
  | .body j => j
  | .stamp j => j

/-- The halves that have arrived, and the items that are stamped. -/
structure State where
  arrived : Finset Half
  stamped : Finset ℕ

namespace State

/-- The next item. -/
def height (a : State) : ℕ := mex a.stamped

/-- Nothing has arrived. -/
def empty : State := ⟨∅, ∅⟩

/-- The half stamps its item: a stamp whose body is there, or the body of the next item when its
stamp waits. -/
def Stamps (a : State) : Half → Prop
  | .body j => .stamp j ∈ a.arrived ∧ a.height = j
  | .stamp j => .body j ∈ a.arrived

instance (a : State) : DecidablePred a.Stamps
  | .body _ => inferInstanceAs (Decidable (_ ∧ _))
  | .stamp _ => inferInstanceAs (Decidable (_ ∈ _))

/-- A half arrives. -/
def step (a : State) (x : Half) : State :=
  ⟨insert x a.arrived, if a.Stamps x then insert x.item a.stamped else a.stamped⟩

theorem mem_step_stamped {a : State} {x : Half} :
    j ∈ (a.step x).stamped ↔ a.Stamps x ∧ j = x.item ∨ j ∈ a.stamped := by
  unfold step
  split_ifs with hx <;> simp [hx]

theorem mem_arrived {l : List Half} {x : Half} : x ∈ (run step empty l).arrived ↔ x ∈ l := by
  induction l using List.reverseRecOn with
  | nil => simp [run, empty]
  | append_singleton l y ih => simp [run_concat, step, ih, or_comm]

/-- Both halves of a stamped item have arrived. -/
theorem arrived_of_stamped {l : List Half} (h : j ∈ (run step empty l).stamped) :
    .body j ∈ l ∧ .stamp j ∈ l := by
  induction l using List.reverseRecOn with
  | nil => cases h
  | append_singleton l x ih =>
    simp only [List.mem_append, List.mem_singleton]
    rw [run_concat, mem_step_stamped] at h
    rcases h with ⟨hx, rfl⟩ | h
    · cases x with
      | body j => exact ⟨Or.inr rfl, Or.inl (mem_arrived.1 hx.1)⟩
      | stamp j => exact ⟨Or.inl (mem_arrived.1 hx), Or.inr rfl⟩
    · exact ⟨Or.inl (ih h).1, Or.inl (ih h).2⟩

end State

/-! ## Orders of arrival -/

/-- All halves of `k` items. -/
def all (k : ℕ) : List Half := (List.range k).map .body ++ (List.range k).map .stamp

theorem body_mem_all : .body j ∈ all k ↔ j < k := by simp [all]

theorem stamp_mem_all : .stamp j ∈ all k ↔ j < k := by simp [all]

theorem nodup_all (k : ℕ) : (all k).Nodup := by
  rw [all, List.nodup_append]
  refine ⟨List.nodup_range.map fun i j h => by injection h,
    List.nodup_range.map fun i j h => by injection h, ?_⟩
  simp

/-- The body of the item comes before its stamp, or after both halves of all earlier items. -/
def Timely (l : List Half) (j : ℕ) : Prop :=
  l.idxOf (.body j) < l.idxOf (.stamp j) ∨
    ∀ i < j, l.idxOf (.body i) < l.idxOf (.body j) ∧ l.idxOf (.stamp i) < l.idxOf (.body j)

/-- Every item is timely. -/
def InOrder (k : ℕ) (l : List Half) : Prop := ∀ j < k, Timely l j

instance (l : List Half) (j : ℕ) : Decidable (Timely l j) :=
  inferInstanceAs (Decidable (_ ∨ _))

instance (k : ℕ) (l : List Half) : Decidable (InOrder k l) :=
  inferInstanceAs (Decidable (∀ j < k, Timely l j))

theorem mem_iff_idxOf_lt {l : List Half} {x y : Half} (hl : l = pre ++ x :: post) (hnd : l.Nodup) :
    y ∈ pre ↔ l.idxOf y < l.idxOf x := by
  subst hl
  have hx : x ∉ pre := fun hx =>
    (List.nodup_append.1 hnd).2.2 x hx x List.mem_cons_self rfl
  rw [List.idxOf_append_of_notMem hx, List.idxOf_cons_self, Nat.add_zero]
  constructor
  · intro hy
    rw [List.idxOf_append_of_mem hy]
    exact List.idxOf_lt_length_of_mem hy
  · intro hlt
    by_contra hy
    rw [List.idxOf_append_of_notMem hy] at hlt
    omega

variable {l : List Half}

/-- Where all items are timely, an item is stamped as soon as both halves have arrived. -/
theorem mem_stamped_of_timely (hnd : l.Nodup) (hin : ∀ j, .body j ∈ l → Timely l j)
    (hl : l = pre ++ post) (hbody : .body j ∈ pre) (hstamp : .stamp j ∈ pre) :
    j ∈ (run State.step .empty pre).stamped := by
  induction pre using List.reverseRecOn generalizing post j with
  | nil => cases hbody
  | append_singleton pre x ih =>
    have hl' : l = pre ++ x :: post := by simpa using hl
    have hbefore : ∀ y, y ∈ pre ↔ l.idxOf y < l.idxOf x := fun y => mem_iff_idxOf_lt hl' hnd
    rw [List.mem_append, List.mem_singleton] at hbody hstamp
    rw [run_concat, State.mem_step_stamped]
    rcases hbody with hbody | rfl
    · rcases hstamp with hstamp | rfl
      · exact Or.inr (ih hl' hbody hstamp)
      · exact Or.inl ⟨State.mem_arrived.2 hbody, rfl⟩
    · -- the stamp waits, and everything before item `j` is stamped
      have hstamp' := hstamp.resolve_right (by simp)
      have hearlier := (hin j (by simp [hl'])).resolve_left
        (not_lt.2 (le_of_lt ((hbefore _).1 hstamp')))
      have hall : ∀ i < j, i ∈ (run State.step .empty pre).stamped := fun i hi =>
        ih hl' ((hbefore _).2 (hearlier i hi).1) ((hbefore _).2 (hearlier i hi).2)
      have hnot : j ∉ (run State.step .empty pre).stamped := fun hj =>
        lt_irrefl _ ((hbefore _).1 (State.arrived_of_stamped hj).1)
      exact Or.inl ⟨⟨State.mem_arrived.2 hstamp', mex_eq_of_forall_mem hall hnot⟩, rfl⟩

/-- An item that is not timely is never stamped. -/
theorem notMem_stamped_of_not_timely (hnd : l.Nodup) (hj : ¬ Timely l j) (hl : l = pre ++ post) :
    j ∉ (run State.step .empty pre).stamped := by
  induction pre using List.reverseRecOn generalizing post with
  | nil => exact Finset.notMem_empty j
  | append_singleton pre x ih =>
    have hl' : l = pre ++ x :: post := by simpa using hl
    have hbefore : ∀ y, y ∈ pre ↔ l.idxOf y < l.idxOf x := fun y => mem_iff_idxOf_lt hl' hnd
    rw [run_concat, State.mem_step_stamped]
    rintro (⟨hx, rfl⟩ | hmem)
    · refine hj ?_
      cases x with
      | body j =>
        refine Or.inr fun i hi => ?_
        have hboth := State.arrived_of_stamped (mem_of_lt_mex (lt_of_lt_of_eq hi hx.2.symm))
        exact ⟨(hbefore _).1 hboth.1, (hbefore _).1 hboth.2⟩
      | stamp j => exact Or.inl ((hbefore _).1 (State.mem_arrived.1 hx))
    · exact ih hl' hmem

/-- All `k` items are consumed exactly when the halves arrive in order. -/
theorem height_run_eq_iff (hl : l.Perm (all k)) :
    (run State.step .empty l).height = k ↔ InOrder k l := by
  have hnd : l.Nodup := hl.nodup_iff.2 (nodup_all k)
  constructor
  · intro hheight j hj
    by_contra hlate
    have hle : (run State.step .empty l).height ≤ j :=
      mex_le_of_notMem (notMem_stamped_of_not_timely hnd hlate (List.append_nil l).symm)
    omega
  · intro hin
    refine mex_eq_of_forall_mem (fun j hj => ?_) fun hk => ?_
    · exact mem_stamped_of_timely hnd (fun i hi => hin i (body_mem_all.1 (hl.mem_iff.1 hi)))
        (List.append_nil l).symm (hl.mem_iff.2 (body_mem_all.2 hj))
        (hl.mem_iff.2 (stamp_mem_all.2 hj))
    · exact lt_irrefl k (body_mem_all.1 (hl.mem_iff.1 (State.arrived_of_stamped hk).1))

end Benzene.CatchUp
