import Benzene.Common.GoMap
import Benzene.Common.Heap

/-!
# Heaps with lazy deletion

A heap of the elements of a table, from which elements are deleted lazily: an element that leaves
the table stays in the heap as a stale entry, and a counter is told.  Stale entries are dropped
when they are popped, or all at once when the heap is rebuilt.  An element that comes back while
its old entry is still there has two entries.

* `Sweep`, `Pop`: a loop that pops entries, where stale ones are dropped and counted, and the others
  are saved or taken out; `Swept` is what such a loop leaves (`Pop.swept`).
* `Covers`: the heap has an entry for every element of the table, and at most as many more as the
  counter says.  Elements that have left while the counter has not been told yet are the `slack`.
  The counter is exact as long as no key has come twice.
* `Covers.forget`, `Covers.told`, `Covers.rebuilt`, `Covers.push`, `Covers.sweep`: the operations.
-/

namespace Benzene.LazyHeap

variable {α κ : Type} [DecidableEq κ] {less : α → α → Bool} {key : α → κ} {table table' : GoMap κ α}
  {keep : α → Bool} {items items' : List α} {stales stales' : ℤ} {drop : List α}

/-- No element of the table has the key of the entry. -/
def isStale (key : α → κ) (table : GoMap κ α) (x : α) : Bool := (table.lookup (key x)).isNone

theorem isStale_eq_false {x : α} :
    isStale key table x = false ↔ ∃ y, table.lookup (key x) = some y := by
  rw [isStale, Option.isNone_eq_false_iff, Option.isSome_iff_exists]

/-! ## Sweeps -/

/-- The state of a loop that pops entries: the heap, and what has been taken out and saved. -/
structure Sweep (α : Type) where
  items : List α
  stales : ℤ
  drop : List α
  save : List α

/-- One entry is popped.  Entries to keep are not taken out. -/
inductive Pop (less : α → α → Bool) (key : α → κ) (table : GoMap κ α) (keep : α → Bool) :
    Sweep α → Sweep α → Prop
  | stale {s : Sweep α} {x : α} {items : List α} (hpop : Heap.pop less s.items = some (x, items))
      (hx : isStale key table x = true) :
      Pop less key table keep s { s with items := items, stales := s.stales - 1 }
  | save {s : Sweep α} {x : α} {items : List α} (hpop : Heap.pop less s.items = some (x, items)) :
      Pop less key table keep s { s with items := items, save := s.save ++ [x] }
  | drop {s : Sweep α} {x : α} {items : List α} (hpop : Heap.pop less s.items = some (x, items))
      (hx : isStale key table x = false) (hkeep : keep x = false) :
      Pop less key table keep s { s with items := items, drop := s.drop ++ [x] }

/-- The entries are those of another heap without some stale ones and those taken out. -/
structure Swept (key : α → κ) (table : GoMap κ α) (keep : α → Bool) (items : List α) (stales : ℤ)
    (items' : List α) (stales' : ℤ) (drop : List α) : Prop where
  split : ∃ gone : Multiset α, gone + (↑drop + ↑items') = (↑items : Multiset α) ∧
    (∀ x ∈ gone, isStale key table x = true) ∧ stales' = stales - gone.card
  live : ∀ x ∈ drop, isStale key table x = false
  taken : ∀ x ∈ drop, keep x = false

theorem Swept.refl (keep : α → Bool) (items : List α) (stales : ℤ) :
    Swept key table keep items stales items stales [] :=
  ⟨⟨0, by simp, by simp, by simp⟩, by simp, by simp⟩

theorem Swept.perm {items'' : List α} (h : Swept key table keep items stales items' stales' drop)
    (hperm : items''.Perm items') :
    Swept key table keep items stales items'' stales' drop := by
  obtain ⟨gone, hgone, hstale, hcount⟩ := h.split
  exact ⟨⟨gone, by rw [Multiset.coe_eq_coe.2 hperm, hgone], hstale, hcount⟩, h.live, h.taken⟩

theorem Swept.length_le (h : Swept key table keep items stales items' stales' drop) :
    items'.length ≤ items.length := by
  obtain ⟨gone, hgone, -⟩ := h.split
  have hcard := congrArg Multiset.card hgone
  simp only [Multiset.card_add, Multiset.coe_card] at hcard
  omega

variable {s s' : Sweep α}

theorem Pop.swept_step (h : Pop less key table keep s s')
    (hs : Swept key table keep items stales (s.save ++ s.items) s.stales s.drop) :
    Swept key table keep items stales (s'.save ++ s'.items) s'.stales s'.drop := by
  obtain ⟨gone, hgone, hstale, hcount⟩ := hs.split
  have hpop_coe : ∀ {x : α} {rest : List α}, Heap.pop less s.items = some (x, rest) →
      (↑s.items : Multiset α) = {x} + ↑rest := fun hpop =>
    Multiset.coe_eq_coe.2 (Heap.pop_perm less hpop)
  cases h with
  | @stale x rest hpop hx =>
    refine ⟨⟨x ::ₘ gone, ?_, ?_, ?_⟩, hs.live, hs.taken⟩
    · rw [← hgone, ← Multiset.coe_add, ← Multiset.coe_add, hpop_coe hpop,
        ← Multiset.singleton_add]
      abel
    · intro y hy
      rcases Multiset.mem_cons.1 hy with rfl | hy
      · exact hx
      · exact hstale y hy
    · rw [Multiset.card_cons]
      push_cast
      omega
  | @save x rest hpop =>
    refine ⟨⟨gone, ?_, hstale, hcount⟩, hs.live, hs.taken⟩
    rw [← hgone, ← Multiset.coe_add, ← Multiset.coe_add, ← Multiset.coe_add, hpop_coe hpop,
      Multiset.coe_singleton]
    abel
  | @drop x rest hpop hx hkeep =>
    have hmem : ∀ y ∈ s.drop ++ [x], y ∈ s.drop ∨ y = x := fun y hy =>
      (List.mem_append.1 hy).imp_right List.mem_singleton.1
    refine ⟨⟨gone, ?_, hstale, hcount⟩, fun y hy => ?_, fun y hy => ?_⟩
    · rw [← hgone, ← Multiset.coe_add, ← Multiset.coe_add, ← Multiset.coe_add, hpop_coe hpop,
        Multiset.coe_singleton]
      abel
    · rcases hmem y hy with hy | rfl
      · exact hs.live y hy
      · exact hx
    · rcases hmem y hy with hy | rfl
      · exact hs.taken y hy
      · exact hkeep

/-- What a loop of pops leaves. -/
theorem Pop.swept (h : Relation.ReflTransGen (Pop less key table keep) s s') (hsave : s.save = [])
    (hdrop : s.drop = []) :
    Swept key table keep s.items s.stales (s'.save ++ s'.items) s'.stales s'.drop := by
  induction h with
  | refl =>
    rw [hsave, hdrop]
    exact Swept.refl _ _ _
  | tail _ hpop ih => exact hpop.swept_step ih

theorem Pop.ordered (hless : Heap.StrictWeak less)
    (h : Relation.ReflTransGen (Pop less key table keep) s s') (ho : Heap.Ordered less s.items) :
    Heap.Ordered less s'.items := by
  induction h with
  | refl => exact ho
  | tail _ hpop ih =>
    cases hpop with
    | stale hpop | save hpop | drop hpop => exact Heap.pop_ordered hless ih hpop

/-! ## Accounting -/

/-- The heap has an entry for every element of the table, and at most as many more as the counter
    and the slack say; exactly as many as long as no key has come twice. -/
structure Covers (less : α → α → Bool) (key : α → κ) (table : GoMap κ α) (seen : List α)
    (slack : ℕ) (items : List α) (stales : ℤ) : Prop where
  keyed : ∀ {k x}, table.lookup k = some x → key x = k
  complete : ∀ {k x}, table.lookup k = some x → x ∈ items
  ordered : Heap.Ordered less items
  entries : ∀ {x}, x ∈ items → x ∈ seen
  counted : (items.length : ℤ) ≤ GoMap.size table + stales + slack
  exact : (seen.map key).Nodup → (items.map key).Nodup ∧
    (items.length : ℤ) = GoMap.size table + stales + slack

section Covers

variable {seen : List α} {slack : ℕ}

theorem Covers.empty (less : α → α → Bool) (key : α → κ) :
    Covers less key (∅ : GoMap κ α) [] 0 [] 0 where
  keyed h := by simp at h
  complete h := by simp at h
  ordered := Heap.ordered_nil
  entries h := by simp at h
  counted := by simp
  exact _ := by simp

theorem Covers.size_le (h : Covers less key table seen slack items stales) :
    GoMap.size table ≤ items.length := by
  rw [GoMap.size_eq_length_values]
  refine List.Subperm.length_le (List.subperm_of_subset ?_ ?_)
  · exact GoMap.nodup_values h.keyed
  · intro x hx
    obtain ⟨k, hk⟩ := GoMap.mem_values_iff.1 hx
    exact h.complete hk

/-- The counter is not negative once it has been told. -/
theorem Covers.stales_nonneg (h : Covers less key table seen 0 items stales) : 0 ≤ stales := by
  have hle := h.size_le
  have hcount := h.counted
  push_cast at hcount
  omega

/-- An element leaves the table. -/
theorem Covers.forget (h : Covers less key table seen slack items stales) {k : κ} {x : α}
    (hk : table.lookup k = some x) :
    Covers less key (table.erase k) seen (slack + 1) items stales := by
  have hsub : ∀ {k' y}, (table.erase k).lookup k' = some y → table.lookup k' = some y := by
    intro k' y hy
    rw [GoMap.lookup_erase_eq] at hy
    split_ifs at hy
    exact hy
  have hsize : GoMap.size table = GoMap.size (table.erase k) + 1 := by
    rw [GoMap.size_eq_length_values, GoMap.size_eq_length_values,
      (GoMap.values_perm_of_lookup hk).length_eq, List.length_cons]
  refine ⟨fun hy => h.keyed (hsub hy), fun hy => h.complete (hsub hy), h.ordered, h.entries, ?_,
    fun hnd => ⟨(h.exact hnd).1, ?_⟩⟩
  · have hcount := h.counted
    rw [hsize] at hcount
    push_cast at hcount ⊢
    omega
  · have hcount := (h.exact hnd).2
    rw [hsize] at hcount
    push_cast at hcount ⊢
    omega

/-- The counter is told how many have left. -/
theorem Covers.told (h : Covers less key table seen slack items stales) :
    Covers less key table seen 0 items (stales + slack) where
  keyed := h.keyed
  complete := h.complete
  ordered := h.ordered
  entries := h.entries
  counted := by
    have hcount := h.counted
    push_cast
    omega
  exact hnd := by
    have hcount := (h.exact hnd).2
    refine ⟨(h.exact hnd).1, ?_⟩
    push_cast
    omega

/-- The heap is built again from the table. -/
theorem Covers.rebuilt (hless : Heap.StrictWeak less)
    (h : Covers less key table seen slack items stales) {values : List α}
    (hperm : values.Perm (GoMap.values table)) :
    Covers less key table seen 0 (Heap.init less values) 0 := by
  have hinit := (Heap.init_perm less values).trans hperm
  have hlen : (Heap.init less values).length = GoMap.size table := by
    rw [hinit.length_eq, GoMap.size_eq_length_values]
  refine ⟨h.keyed, fun hk => hinit.mem_iff.2 (GoMap.mem_values_of_lookup hk),
    Heap.init_ordered hless values, fun hx => ?_, by rw [hlen]; simp, fun _ => ⟨?_, by
      rw [hlen]; simp⟩⟩
  · obtain ⟨k, hk⟩ := GoMap.mem_values_iff.1 (hinit.mem_iff.1 hx)
    exact h.entries (h.complete hk)
  · exact ((hinit.map key).nodup_iff).2 (GoMap.nodup_map_values h.keyed)

/-- A new element enters the table and the heap. -/
theorem Covers.push (hless : Heap.StrictWeak less)
    (h : Covers less key table seen slack items stales) {x : α}
    (hx : table.lookup (key x) = none) :
    Covers less key (table.insert (key x) x) (seen ++ [x]) slack (Heap.push less items x)
      stales := by
  have hperm := Heap.push_perm less items x
  have hsize := GoMap.size_insert_of_none hx x
  have hlen : (Heap.push less items x).length = items.length + 1 := by
    rw [hperm.length_eq, List.length_cons]
  refine ⟨fun {k y} hk => ?_, fun {k y} hk => ?_, Heap.push_ordered hless h.ordered x,
    fun {y} hy => ?_, ?_, fun hnd => ?_⟩
  · rw [GoMap.lookup_insert_eq] at hk
    split_ifs at hk with hkx
    · rw [hkx, Option.some.inj hk]
    · exact h.keyed hk
  · rw [GoMap.lookup_insert_eq] at hk
    rw [hperm.mem_iff, List.mem_cons]
    split_ifs at hk
    · exact Or.inl (Option.some.inj hk).symm
    · exact Or.inr (h.complete hk)
  · rw [hperm.mem_iff, List.mem_cons] at hy
    rcases hy with rfl | hy
    · exact List.mem_append_right _ List.mem_cons_self
    · exact List.mem_append_left _ (h.entries hy)
  · have hcount := h.counted
    rw [hlen, hsize]
    push_cast
    omega
  · rw [List.map_append, List.map_singleton, List.nodup_append] at hnd
    obtain ⟨hseen, -, hnew⟩ := hnd
    obtain ⟨hitems, hcount⟩ := h.exact hseen
    refine ⟨((hperm.map key).nodup_iff).2 ?_, ?_⟩
    · rw [List.map_cons, List.nodup_cons]
      refine ⟨fun hmem => ?_, hitems⟩
      obtain ⟨y, hy, hkey⟩ := List.mem_map.1 hmem
      exact hnew _ (List.mem_map_of_mem (h.entries hy)) _ List.mem_cons_self hkey
    · rw [hlen, hsize]
      push_cast
      omega

/-- Stale entries are dropped, and some elements leave the heap and the table together. -/
theorem Covers.sweep (h : Covers less key table seen slack items stales)
    (hs : Swept key table keep items stales items' stales' drop)
    (ho : Heap.Ordered less items')
    (htable : ∀ k, table'.lookup k = if k ∈ drop.map key then none else table.lookup k) :
    Covers less key table' seen slack items' stales' := by
  obtain ⟨gone, hgone, hstale, hcount⟩ := hs.split
  have hsub : ∀ {k x}, table'.lookup k = some x →
      table.lookup k = some x ∧ k ∉ drop.map key := by
    intro k x hk
    rw [htable] at hk
    split_ifs at hk with hmem
    exact ⟨hk, hmem⟩
  have hmem : ∀ {x}, x ∈ items' → x ∈ items := by
    intro x hx
    rw [← Multiset.mem_coe, ← hgone]
    exact Multiset.mem_add.2 (Or.inr (Multiset.mem_add.2 (Or.inr hx)))
  have hlen : items.length = gone.card + (drop.length + items'.length) := by
    have hcard := congrArg Multiset.card hgone
    simpa using hcard.symm
  -- the keys of the table, and those of what has left it
  have hkeys : table'.keys.toFinset = table.keys.toFinset \ (drop.map key).toFinset := by
    ext k
    simp only [Finset.mem_sdiff, List.mem_toFinset, GoMap.mem_keys_iff, htable]
    by_cases hk : k ∈ drop.map key <;> simp [hk]
  refine ⟨fun hk => h.keyed (hsub hk).1, fun {k x} hk => ?_, ho, fun hx => h.entries (hmem hx),
    ?_, fun hnd => ?_⟩
  · obtain ⟨hk, hnot⟩ := hsub hk
    have hx : x ∈ gone + (↑drop + ↑items') := by
      rw [hgone]
      exact h.complete hk
    obtain rfl := h.keyed hk
    rcases Multiset.mem_add.1 hx with hx | hx
    · have hlive := isStale_eq_false.2 ⟨x, hk⟩
      rw [hstale x hx] at hlive
      cases hlive
    · rcases Multiset.mem_add.1 hx with hx | hx
      · exact absurd (List.mem_map_of_mem hx) hnot
      · exact hx
  · have hle : GoMap.size table ≤ GoMap.size table' + drop.length := by
      rw [GoMap.size_eq_card_keys, GoMap.size_eq_card_keys, hkeys]
      have hcard : table.keys.toFinset.card ≤
          (table.keys.toFinset \ (drop.map key).toFinset).card + (drop.map key).toFinset.card :=
        Finset.card_le_card_sdiff_add_card
      have hdrop := List.toFinset_card_le (drop.map key)
      rw [List.length_map] at hdrop
      omega
    have hcounted := h.counted
    omega
  · obtain ⟨hitems, hexact⟩ := h.exact hnd
    have hparts : (gone.map key + (↑(drop.map key) + ↑(items'.map key))).Nodup := by
      rw [← Multiset.map_coe, ← Multiset.map_coe, ← Multiset.map_add, ← Multiset.map_add, hgone]
      exact Multiset.coe_nodup.2 hitems
    obtain ⟨-, hparts, -⟩ := Multiset.nodup_add.1 hparts
    obtain ⟨hdrop, hrest, -⟩ := Multiset.nodup_add.1 hparts
    have hlive : (drop.map key).toFinset ⊆ table.keys.toFinset := by
      intro k hk
      obtain ⟨x, hx, rfl⟩ := List.mem_map.1 (List.mem_toFinset.1 hk)
      exact List.mem_toFinset.2 (GoMap.mem_keys_iff.2 (isStale_eq_false.1 (hs.live x hx)))
    have hsize : GoMap.size table = GoMap.size table' + drop.length := by
      rw [GoMap.size_eq_card_keys, GoMap.size_eq_card_keys, hkeys,
        ← Finset.card_sdiff_add_card_eq_card hlive,
        List.toFinset_card_of_nodup (Multiset.coe_nodup.1 hdrop), List.length_map]
    refine ⟨Multiset.coe_nodup.1 hrest, ?_⟩
    omega

end Covers

end Benzene.LazyHeap
