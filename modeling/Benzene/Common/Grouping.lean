import Benzene.Common.GoMap

/-!
# Grouping a list by a key

`m[k] = append(m[k], v)` sorts the elements of a list into groups.  Read back key by key the
groups have every element under one of the keys exactly once (`flatMap_filter_perm`), in an order
that need not be that of the list.
-/

namespace Benzene

namespace GoMap

variable {K V : Type} [DecidableEq K]

/-- `m[k]`, where a missing group is the nil slice. -/
def group (m : GoMap K (List V)) (k : K) : List V := (m.lookup k).getD []

/-- `m[k] = append(m[k], v)`. -/
def appendTo (m : GoMap K (List V)) (k : K) (v : V) : GoMap K (List V) :=
  m.insert k (group m k ++ [v])

theorem group_empty (k : K) : group (∅ : GoMap K (List V)) k = [] := by
  simp [group]

theorem group_appendTo (m : GoMap K (List V)) (k k' : K) (v : V) :
    group (appendTo m k v) k' = group m k' ++ if k = k' then [v] else [] := by
  simp only [group, appendTo, lookup_insert_eq]
  by_cases h : k' = k
  · subst h
    simp
  · simp [h, Ne.symm h]

end GoMap

variable {α β K : Type}

theorem flatMap_filter_perm [DecidableEq K] (key : α → K) {ks : List K} (hks : ks.Nodup)
    (l : List α) :
    (ks.flatMap fun k => l.filter fun x => decide (key x = k)).Perm
      (l.filter fun x => decide (key x ∈ ks)) := by
  induction ks with
  | nil => simp
  | cons k ks ih =>
    obtain ⟨hk, hks⟩ := List.nodup_cons.1 hks
    -- the elements under `k`, and those under one of the other keys
    have hhead : (l.filter fun x => decide (key x ∈ k :: ks)).filter (fun x => decide (key x = k)) =
        l.filter fun x => decide (key x = k) := by
      rw [List.filter_filter]
      refine List.filter_congr fun x _ => ?_
      by_cases hx : key x = k <;> simp [hx]
    have htail : (l.filter fun x => decide (key x ∈ k :: ks)).filter
        (fun x => !decide (key x = k)) = l.filter fun x => decide (key x ∈ ks) := by
      rw [List.filter_filter]
      refine List.filter_congr fun x _ => ?_
      by_cases hx : key x = k
      · simp [hx, hk]
      · simp [hx]
    have hsplit := List.filter_append_perm (fun x => decide (key x = k))
      (l.filter fun x => decide (key x ∈ k :: ks))
    rw [hhead, htail] at hsplit
    rw [List.flatMap_cons]
    exact ((ih hks).append_left _).trans hsplit

/-- Groups that correspond, one after the other. -/
theorem forall₂_flatMap {R : α → β → Prop} {f : K → List α} {g : K → List β} {ks : List K}
    (h : ∀ k ∈ ks, List.Forall₂ R (f k) (g k)) :
    List.Forall₂ R (ks.flatMap f) (ks.flatMap g) := by
  induction ks with
  | nil => exact .nil
  | cons k ks ih =>
    rw [List.flatMap_cons, List.flatMap_cons]
    exact List.rel_append (h k List.mem_cons_self)
      (ih fun k' hk' => h k' (List.mem_cons_of_mem _ hk'))

/-- Where only one key has a group, that group is all there is. -/
theorem flatMap_eq_of_unique {f : K → List β} {ks : List K} {k : K} (hks : ks.Nodup) (hk : k ∈ ks)
    (hf : ∀ k' ∈ ks, k' ≠ k → f k' = []) : ks.flatMap f = f k := by
  induction ks with
  | nil => exact absurd hk (by simp)
  | cons a ks ih =>
    obtain ⟨ha, hks⟩ := List.nodup_cons.1 hks
    rw [List.flatMap_cons]
    rcases List.mem_cons.1 hk with rfl | hmem
    · have hrest : ks.flatMap f = [] := by
        refine List.flatMap_eq_nil_iff.2 fun k' hk' => hf k' (List.mem_cons_of_mem _ hk') ?_
        rintro rfl
        exact ha hk'
      rw [hrest, List.append_nil]
    · have hne : a ≠ k := by
        rintro rfl
        exact ha hmem
      rw [hf a List.mem_cons_self hne, List.nil_append]
      exact ih hks hmem fun k' hk' => hf k' (List.mem_cons_of_mem _ hk')

end Benzene
