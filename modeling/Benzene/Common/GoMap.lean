import Mathlib

/-!
# Finite maps

A Go `map[K]V` is an association list without duplicate keys (Mathlib's
`AList`).  Go leaves the order in which `range` visits a map unspecified; a
caller that depends on it takes a permutation of `values m`, or a `RangeOrder`
when it visits several maps.

Added to the `AList` operations: `values`, `GoMap.filter` (the `delete` calls of a
loop over the map) and `insertAll` (one value stored under several keys), each
with the rule for `lookup`.
-/

namespace Benzene

/-- Go `map[K]V`. -/
abbrev GoMap (K V : Type) := AList fun _ : K => V

namespace GoMap

variable {K V : Type}

/-- The values, in the order of the representation. -/
def values (m : GoMap K V) : List V := m.entries.map Sigma.snd

/-- The entries that satisfy `p`. -/
def filter (p : K → V → Bool) (m : GoMap K V) : GoMap K V :=
  ⟨m.entries.filter fun e => p e.1 e.2, m.nodupKeys.sublist List.filter_sublist⟩

/-- `len(m)`. -/
def size (m : GoMap K V) : ℕ := m.entries.length

@[simp] theorem size_empty : size (∅ : GoMap K V) = 0 := rfl

theorem size_eq_length_values (m : GoMap K V) : size m = (values m).length := by
  simp [size, values]

variable [DecidableEq K]

/-- `m[k] = v` for every `k` of a list. -/
def insertAll (m : GoMap K V) (ks : List K) (v : V) : GoMap K V :=
  ks.foldl (fun m k => m.insert k v) m

/-- `delete(m, k)` for every `k` of a list. -/
def eraseAll (m : GoMap K V) (ks : List K) : GoMap K V := ks.foldl (fun m k => m.erase k) m

/-! ## Lookup -/

variable {k k' : K} {v w : V} {m' m : GoMap K V}

theorem lookup_eq_some_iff :
    m.lookup k = some v ↔ (⟨k, v⟩ : Σ _ : K, V) ∈ m.entries :=
  AList.mem_lookup_iff

theorem mem_values_iff : v ∈ values m ↔ ∃ k, m.lookup k = some v := by
  simp only [values, List.mem_map, lookup_eq_some_iff]
  constructor
  · rintro ⟨⟨k, w⟩, hmem, rfl⟩
    exact ⟨k, hmem⟩
  · rintro ⟨k, hmem⟩
    exact ⟨_, hmem, rfl⟩

theorem mem_values_of_lookup (h : m.lookup k = some v) : v ∈ values m :=
  mem_values_iff.2 ⟨k, h⟩

theorem lookup_insert_eq (m : GoMap K V) (k k' : K) (v : V) :
    (m.insert k v).lookup k' = if k' = k then some v else m.lookup k' := by
  split_ifs with h
  · subst h
    exact AList.lookup_insert m
  · exact AList.lookup_insert_ne h

theorem lookup_insert_cases (h : (m.insert k v).lookup k' = some w) :
    (k' = k ∧ w = v) ∨ (k' ≠ k ∧ m.lookup k' = some w) := by
  rw [lookup_insert_eq] at h
  split_ifs at h with hk
  · exact Or.inl ⟨hk, (Option.some.inj h).symm⟩
  · exact Or.inr ⟨hk, h⟩

/-- What holds of every entry still does after one with it is written. -/
theorem forall_insert {P : K → V → Prop} (hm : ∀ {k v}, m.lookup k = some v → P k v) (hv : P k v)
    (h : (m.insert k v).lookup k' = some w) : P k' w := by
  rcases lookup_insert_cases h with ⟨rfl, rfl⟩ | ⟨-, h⟩
  · exact hv
  · exact hm h

theorem mem_values_insert (h : w ∈ values (m.insert k v)) :
    w = v ∨ w ∈ values m := by
  obtain ⟨k', hk'⟩ := mem_values_iff.1 h
  rcases lookup_insert_cases hk' with ⟨-, hw⟩ | ⟨-, hk'⟩
  · exact Or.inl hw
  · exact Or.inr (mem_values_of_lookup hk')

variable {p : K → V → Bool}

theorem lookup_filter_eq_some :
    (filter p m).lookup k = some v ↔ m.lookup k = some v ∧ p k v = true := by
  simp only [lookup_eq_some_iff, filter, List.mem_filter]

theorem mem_values_filter (h : v ∈ values (filter p m)) :
    v ∈ values m := by
  obtain ⟨k, hk⟩ := mem_values_iff.1 h
  exact mem_values_of_lookup (lookup_filter_eq_some.1 hk).1

theorem lookup_insertAll (m : GoMap K V) (ks : List K) (v : V) (k : K) :
    (insertAll m ks v).lookup k = if k ∈ ks then some v else m.lookup k := by
  induction ks generalizing m with
  | nil => simp [insertAll]
  | cons k' ks ih =>
    have hcons : insertAll m (k' :: ks) v = insertAll (m.insert k' v) ks v := rfl
    rw [hcons, ih, lookup_insert_eq]
    by_cases hks : k ∈ ks <;> by_cases hk : k = k' <;> simp [hks, hk]

theorem lookup_erase_eq (m : GoMap K V) (k k' : K) :
    (m.erase k).lookup k' = if k' = k then none else m.lookup k' := by
  split_ifs with h
  · subst h
    exact AList.lookup_erase k' m
  · exact AList.lookup_erase_ne h

theorem of_lookup_erase (h : (m.erase k).lookup k' = some v) :
    k' ≠ k ∧ m.lookup k' = some v := by
  rw [lookup_erase_eq] at h
  split_ifs at h with hk
  exact ⟨hk, h⟩

theorem lookup_eraseAll (m : GoMap K V) (ks : List K) (k : K) :
    (eraseAll m ks).lookup k = if k ∈ ks then none else m.lookup k := by
  induction ks generalizing m with
  | nil => simp [eraseAll]
  | cons k' ks ih =>
    have hcons : eraseAll m (k' :: ks) = eraseAll (m.erase k') ks := rfl
    rw [hcons, ih, lookup_erase_eq]
    by_cases hks : k ∈ ks <;> by_cases hk : k = k' <;> simp [hks, hk]

theorem mem_keys_iff : k ∈ m.keys ↔ ∃ v, m.lookup k = some v := by
  rw [← Option.isSome_iff_exists]
  exact AList.mem_keys.symm.trans AList.lookup_isSome.symm

theorem lookup_eq_none : m.lookup k = none ↔ k ∉ m.keys := by
  rw [mem_keys_iff]
  cases m.lookup k <;> simp

/-! ## Values -/

section Keyed

variable {key : V → K} {m : GoMap K V} (h : ∀ {k v}, m.lookup k = some v → key v = k)

include h

/-- The keys of the values, if a value tells its key. -/
theorem map_values : (values m).map key = m.keys := by
  unfold values AList.keys List.keys
  rw [List.map_map]
  apply List.map_congr_left
  rintro ⟨k, v⟩ hmem
  exact h (lookup_eq_some_iff.2 hmem)

theorem nodup_map_values : ((values m).map key).Nodup := by
  rw [map_values h]
  exact m.keys_nodup

theorem nodup_values : (values m).Nodup := .of_map key (nodup_map_values h)

end Keyed

theorem values_insert (m : GoMap K V) (k : K) (v : V) :
    values (m.insert k v) = v :: values (m.erase k) :=
  rfl

theorem erase_of_lookup_eq_none (h : m.lookup k = none) : m.erase k = m :=
  AList.ext (List.kerase_of_notMem_keys (lookup_eq_none.1 h))

theorem values_perm_of_lookup (h : m.lookup k = some v) :
    (values m).Perm (v :: values (m.erase k)) := by
  obtain ⟨w, l₁, l₂, -, hsplit, herase⟩ := List.exists_of_kerase (mem_keys_iff.2 ⟨v, h⟩)
  have hw : w = v := by
    have hmem : (⟨k, w⟩ : Σ _ : K, V) ∈ m.entries := by simp [hsplit]
    exact Option.some.inj ((lookup_eq_some_iff.2 hmem).symm.trans h)
  have hvalues : values (m.erase k) = (l₁ ++ l₂).map Sigma.snd := congrArg _ herase
  rw [hvalues, values, hsplit, hw, List.map_append, List.map_append, List.map_cons]
  exact List.perm_middle

/-- Taking out an entry that a filter drops does not change what it keeps. -/
theorem filter_values_erase {p : V → Bool} (h : ∀ v, m.lookup k = some v → p v = false) :
    (values (m.erase k)).filter p = (values m).filter p := by
  cases hk : m.lookup k with
  | none => rw [erase_of_lookup_eq_none hk]
  | some v =>
    obtain ⟨w, l₁, l₂, -, hsplit, herase⟩ := List.exists_of_kerase (mem_keys_iff.2 ⟨v, hk⟩)
    have hw : p w = false := h w (lookup_eq_some_iff.2 (by simp [hsplit]))
    have hvalues : values (m.erase k) = (l₁ ++ l₂).map Sigma.snd := congrArg _ herase
    rw [hvalues, values, hsplit]
    simp [hw]

theorem values_perm_split (m : GoMap K V) (k : K) :
    (values m).Perm ((m.lookup k).toList ++ values (m.erase k)) := by
  cases h : m.lookup k with
  | none => rw [erase_of_lookup_eq_none h, Option.toList_none, List.nil_append]
  | some v => exact values_perm_of_lookup h

theorem values_perm_of_lookup_eq (h : ∀ k, m.lookup k = m'.lookup k) :
    (values m).Perm (values m') := by
  refine List.Perm.map _ ?_
  rw [List.perm_ext_iff_of_nodup m.nodupKeys.nodup m'.nodupKeys.nodup]
  rintro ⟨k, v⟩
  rw [← lookup_eq_some_iff, ← lookup_eq_some_iff, h]

/-- Two maps that differ at one key. -/
theorem sum_values_le {f : V → ℕ} {d : ℕ} (hne : ∀ k', k' ≠ k → m'.lookup k' = m.lookup k')
    (hk : (m'.lookup k).elim 0 f ≤ (m.lookup k).elim 0 f + d) :
    ((values m').map f).sum ≤ ((values m).map f).sum + d := by
  have hrest : ((values (m'.erase k)).map f).sum = ((values (m.erase k)).map f).sum := by
    refine ((values_perm_of_lookup_eq fun k' => ?_).map f).sum_eq
    rw [lookup_erase_eq, lookup_erase_eq]
    split_ifs with hk'
    · rfl
    · exact hne k' hk'
  have hsplit : ∀ m : GoMap K V, ((values m).map f).sum =
      (m.lookup k).elim 0 f + ((values (m.erase k)).map f).sum := by
    intro m
    rw [((values_perm_split m k).map f).sum_eq, List.map_append, List.sum_append]
    cases m.lookup k <;> simp
  rw [hsplit m, hsplit m', hrest]
  omega

/-! ## Size -/

theorem size_insert_of_none (h : m.lookup k = none) (v : V) :
    size (m.insert k v) = size m + 1 := by
  simp [size_eq_length_values, values_insert, erase_of_lookup_eq_none h]

theorem size_insert_of_some {w : V} (h : m.lookup k = some w) (v : V) :
    size (m.insert k v) = size m := by
  rw [size_eq_length_values, size_eq_length_values, values_insert,
    (values_perm_of_lookup h).length_eq, List.length_cons, List.length_cons]

theorem size_eq_card_keys (m : GoMap K V) : size m = m.keys.toFinset.card := by
  rw [List.toFinset_card_of_nodup m.keys_nodup]
  simp [size, AList.keys, List.keys]

section

variable (h : ∀ {k v}, m'.lookup k = some v → m.lookup k = some v)

include h

theorem keys_subset_of_lookup : m'.keys.toFinset ⊆ m.keys.toFinset := by
  intro k hk
  rw [List.mem_toFinset, mem_keys_iff] at hk ⊢
  obtain ⟨v, hv⟩ := hk
  exact ⟨v, h hv⟩

theorem size_le_of_lookup : size m' ≤ size m := by
  rw [size_eq_card_keys, size_eq_card_keys]
  exact Finset.card_le_card (keys_subset_of_lookup h)

theorem size_lt_of_lookup (hk : (m.lookup k).isSome) (hk' : m'.lookup k = none) :
    size m' < size m := by
  rw [size_eq_card_keys, size_eq_card_keys]
  refine Finset.card_lt_card ⟨keys_subset_of_lookup h, fun hsub => ?_⟩
  obtain ⟨v, hv⟩ := Option.isSome_iff_exists.1 hk
  have hmem := hsub (List.mem_toFinset.2 (mem_keys_iff.2 ⟨v, hv⟩))
  exact lookup_eq_none.1 hk' (List.mem_toFinset.1 hmem)

end

end GoMap

/-! ## Iteration -/

/-- The order in which the `range` loops of an operation visit their maps. -/
structure RangeOrder where
  order : {α : Type} → List α → List α
  perm : ∀ {α : Type} (l : List α), (order l).Perm l

@[simp] theorem RangeOrder.mem_order (ord : RangeOrder) {α : Type} {l : List α} {x : α} :
    x ∈ ord.order l ↔ x ∈ l :=
  (ord.perm l).mem_iff

end Benzene
