import Mathlib.Data.List.Basic

/-!
# Bounded caches

`lru.Cache` of hashicorp/golang-lru: the entries of a cache from the most to the least recently
used.  A new entry beyond the size of the cache drops the last one.

`fetch` is the way a cache is used in front of a slower store.  What holds of every entry and of
everything the store returns holds of every entry afterwards (`All.fetch`) and of the value
returned (`fetch_eq_some`).
-/

namespace Benzene

structure Lru (K V : Type) where
  size : ℕ
  entries : List (K × V)

namespace Lru

variable {K V : Type} (c : Lru K V)

/-- `lru.New(size)`. -/
def new (size : ℕ) : Lru K V := ⟨size, []⟩

/-- `Purge`. -/
def purge : Lru K V := { c with entries := [] }

/-- Every entry has the property. -/
def All (P : K → V → Prop) : Prop := ∀ k v, (k, v) ∈ c.entries → P k v

theorem All.purge (c : Lru K V) (P : K → V → Prop) : c.purge.All P := fun _ _ hmem =>
  absurd hmem List.not_mem_nil

theorem All.new (size : ℕ) (P : K → V → Prop) : (Lru.new size).All P := fun _ _ hmem =>
  absurd hmem List.not_mem_nil

variable [DecidableEq K]

/-- `Remove`. -/
def remove (k : K) : Lru K V := { c with entries := c.entries.filter fun e => decide (e.1 ≠ k) }

/-- `Add`. -/
def add (k : K) (v : V) : Lru K V :=
  { c with entries := ((k, v) :: (c.remove k).entries).take c.size }

/-- `Peek`. -/
def peek (k : K) : Option V := (c.entries.find? fun e => decide (e.1 = k)).map Prod.snd

/-- `Contains`. -/
def contains (k : K) : Bool := (c.peek k).isSome

/-- `Get`, and on a miss the value of the store, which is added to the cache. -/
def fetch (k : K) (stored : Option V) : Lru K V × Option V :=
  match c.peek k with
  | some v => (c.add k v, some v)
  | none =>
    match stored with
    | some v => (c.add k v, some v)
    | none => (c, none)

variable {c} {k : K} {v : V} {stored : Option V} {P : K → V → Prop}

theorem mem_of_peek (h : c.peek k = some v) : (k, v) ∈ c.entries := by
  obtain ⟨⟨k', v'⟩, hfind, rfl⟩ := Option.map_eq_some_iff.1 h
  have hk : k' = k := by simpa using List.find?_some hfind
  subst hk
  exact List.mem_of_find?_eq_some hfind

theorem All.remove (h : c.All P) (k : K) : (c.remove k).All P := fun k' v' hmem =>
  h k' v' (List.mem_of_mem_filter hmem)

theorem All.add (h : c.All P) (hP : P k v) : (c.add k v).All P := by
  intro k' v' hmem
  rcases List.mem_cons.1 (List.mem_of_mem_take hmem) with heq | hmem
  · obtain ⟨rfl, rfl⟩ := Prod.mk.inj heq
    exact hP
  · exact h.remove k k' v' hmem

/-- A value comes from the cache or from the store. -/
theorem fetch_eq_some (h : (c.fetch k stored).2 = some v) :
    (k, v) ∈ c.entries ∨ stored = some v := by
  unfold fetch at h
  cases hpeek : c.peek k with
  | some v' =>
    simp only [hpeek] at h
    obtain rfl := Option.some.inj h
    exact Or.inl (mem_of_peek hpeek)
  | none =>
    cases stored with
    | none => simp [hpeek] at h
    | some v' => simpa [hpeek] using Or.inr (a := (k, v) ∈ c.entries) h

/-- What is in the store is found. -/
theorem fetch_isSome (h : stored.isSome) : (c.fetch k stored).2.isSome := by
  unfold fetch
  cases c.peek k with
  | some v => rfl
  | none =>
    obtain ⟨v, rfl⟩ := Option.isSome_iff_exists.1 h
    rfl

theorem All.fetch (h : c.All P) (hstored : ∀ v, stored = some v → P k v) :
    (c.fetch k stored).1.All P := by
  unfold Lru.fetch
  cases hpeek : c.peek k with
  | some v => exact h.add (h k v (mem_of_peek hpeek))
  | none =>
    cases stored with
    | some v => exact h.add (hstored v rfl)
    | none => exact h

end Lru

end Benzene
