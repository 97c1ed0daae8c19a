import Benzene.Common.GoInt
import Benzene.External.Concrete
import Benzene.Quorum.Decider

/-!
# Leader rotation

`NthNext` and `NthNextHmy` (consensus/quorum/quorum.go:212-244) move a number of places on the
ring of the committee.  The comment on them allows a negative step, but the index is computed with
the truncated remainder of Go: a negative sum that the number of nodes does not divide is an index
out of range.  The same happens to a key outside the committee, whose index is -1, already with
step zero.

* `nthNextAmong_eq`: what the two functions return, and when they panic.
* `rotates_iff`: the exact condition under which they are the cyclic shift, and that shifts then
  compose.
-/

namespace Benzene

namespace Decider

variable {B : Bls} (d : Decider B)

/-- The number of nodes to rotate over: the committee, unless `numNodes` is a part of it
    (consensus/quorum/quorum.go:220-223 and 237-241). -/
def rotationSize (numNodes : ℤ) : ℤ :=
  if numNodes ≤ 0 ∨ numNodes > d.publicKeys.length then d.publicKeys.length else numNodes

/-- `&s.publicKeys[idx]`; `none` is an index out of range. -/
def keyAt (idx : ℤ) : Option (PublicKeyWrapper B) :=
  if idx < 0 then none else d.publicKeys[idx.toNat]?

/-- The body of `NthNext` and `NthNextHmy`, with the number of nodes; `none` is a panic. -/
def nthNextAmong (numNodes : ℤ) (pubKey : PublicKeyWrapper B) (next : Int64) :
    Option (Bool × PublicKeyWrapper B) :=
  let idx := d.indexOf pubKey.bytes
  let found := idx != -1
  let numNodes := d.rotationSize numNodes
  if numNodes = 0 then none
  else (d.keyAt ((goAdd idx next.toInt).tmod numNodes)).map fun key => (found, key)

/-- `NthNext` (consensus/quorum/quorum.go:213-227). -/
def nthNext (pubKey : PublicKeyWrapper B) (next : Int64) : Option (Bool × PublicKeyWrapper B) :=
  d.nthNextAmong d.participantsCount pubKey next

/-- `NthNextHmy` (consensus/quorum/quorum.go:230-244), with the number of nodes that the sharding
    instance gives. -/
def nthNextHmy (numHarmonyOperatedNodesPerShard : ℤ) (pubKey : PublicKeyWrapper B) (next : Int64) :
    Option (Bool × PublicKeyWrapper B) :=
  d.nthNextAmong numHarmonyOperatedNodesPerShard pubKey next

variable {d}

/-- A member is found and moved `next` places on a ring of the first `size` keys; another key is
    not found, and some key is returned. -/
structure Rotates (d : Decider B) (size : ℤ) (pubKey : PublicKeyWrapper B) (next : Int64)
    (r : Option (Bool × PublicKeyWrapper B)) : Prop where
  member : ∀ i : ℕ, d.publicKeys[i]? = some pubKey → ∃ key,
    d.publicKeys[((i + next.toInt) % size).toNat]? = some key ∧ r = some (true, key)
  stranger : pubKey ∉ d.publicKeys → ∃ key, r = some (false, key)

/-- The condition on a step: the machine sum of index and step is not negative, or is divisible by
    the number of nodes, and for a member it does not differ from the sum modulo that number. -/
def StepFits (d : Decider B) (size : ℤ) (pubKey : PublicKeyWrapper B) (next : Int64) : Prop :=
  let idx := d.indexOf pubKey.bytes
  (0 ≤ goAdd idx next.toInt ∨ size ∣ goAdd idx next.toInt) ∧
    (pubKey ∈ d.publicKeys → size ∣ idx + next.toInt - goAdd idx next.toInt)

/-! ## The index of a key -/

theorem lookup_foldl_zipIdx {keys : List (PublicKeyWrapper B)} (hnodup : keys.Nodup) (n : ℕ)
    (m : GoMap SerializedPublicKey ℕ) (k : PublicKeyWrapper B) :
    ((keys.zipIdx n).foldl (fun m p => m.insert p.1.bytes p.2) m).lookup k.bytes =
      if k ∈ keys then some (n + keys.idxOf k) else m.lookup k.bytes := by
  induction keys generalizing n m with
  | nil => simp
  | cons key keys ih =>
    obtain ⟨hnot, hnodup⟩ := List.nodup_cons.1 hnodup
    rw [List.zipIdx_cons, List.foldl_cons, ih hnodup, GoMap.lookup_insert_eq]
    by_cases hkey : k = key
    · subst hkey
      simp [hnot]
    · have hbytes : k.bytes ≠ key.bytes := fun h => hkey (PublicKeyWrapper.eq_of_bytes h)
      rw [if_neg hbytes, List.idxOf_cons_ne _ (Ne.symm hkey)]
      have hadd : n + 1 + keys.idxOf k = n + (keys.idxOf k + 1) := by omega
      simp [hkey, hadd]

variable {d : Decider B} {pubKey : PublicKeyWrapper B} {next : Int64} {size : ℤ}

theorem indexOf_eq (hnodup : d.publicKeys.Nodup) (pubKey : PublicKeyWrapper B) :
    d.indexOf pubKey.bytes =
      if pubKey ∈ d.publicKeys then (d.publicKeys.idxOf pubKey : ℤ) else -1 := by
  unfold indexOf keyIndexMap
  rw [lookup_foldl_zipIdx hnodup]
  split_ifs with hmem <;> simp

theorem indexOf_of_getElem? (hnodup : d.publicKeys.Nodup) {i : ℕ}
    (h : d.publicKeys[i]? = some pubKey) : d.indexOf pubKey.bytes = i := by
  obtain ⟨hi, hget⟩ := List.getElem?_eq_some_iff.1 h
  rw [indexOf_eq hnodup, if_pos (hget ▸ List.getElem_mem hi), ← hget, hnodup.idxOf_getElem i hi]

theorem indexOf_of_notMem (hnodup : d.publicKeys.Nodup) (h : pubKey ∉ d.publicKeys) :
    d.indexOf pubKey.bytes = -1 := by
  rw [indexOf_eq hnodup, if_neg h]

/-! ## The ring -/

theorem rotationSize_pos (hne : d.publicKeys ≠ []) (numNodes : ℤ) :
    0 < d.rotationSize numNodes ∧ d.rotationSize numNodes ≤ d.publicKeys.length := by
  have hlen : 0 < d.publicKeys.length := List.length_pos_of_ne_nil hne
  unfold rotationSize
  split_ifs <;> omega

theorem rotationSize_participantsCount (d : Decider B) :
    d.rotationSize d.participantsCount = d.publicKeys.length := by
  unfold rotationSize participantsCount
  split_ifs <;> rfl

/-- A position on the ring has a key. -/
theorem exists_key_at (hne : d.publicKeys ≠ []) (numNodes x : ℤ) :
    ∃ key, d.publicKeys[(x % d.rotationSize numNodes).toNat]? = some key := by
  obtain ⟨hpos, hle⟩ := rotationSize_pos hne numNodes
  have hnonneg := Int.emod_nonneg x hpos.ne'
  have hlt := Int.emod_lt_of_pos x hpos
  exact ⟨_, List.getElem?_eq_getElem (by omega)⟩

/-- Both functions return the key at the remainder of the machine sum, and panic when that is
    negative. -/
theorem nthNextAmong_eq (hne : d.publicKeys ≠ []) (numNodes : ℤ) (pubKey : PublicKeyWrapper B)
    (next : Int64) :
    d.nthNextAmong numNodes pubKey next =
      let sum := goAdd (d.indexOf pubKey.bytes) next.toInt
      if 0 ≤ sum ∨ d.rotationSize numNodes ∣ sum then
        d.publicKeys[(sum % d.rotationSize numNodes).toNat]?.map
          fun key => (d.indexOf pubKey.bytes != -1, key)
      else none := by
  have hpos := (rotationSize_pos hne numNodes).1
  unfold nthNextAmong keyAt
  dsimp only
  rw [if_neg hpos.ne']
  by_cases hindex : 0 ≤ goAdd (d.indexOf pubKey.bytes) next.toInt ∨
      d.rotationSize numNodes ∣ goAdd (d.indexOf pubKey.bytes) next.toInt
  · rw [if_pos hindex, if_neg (not_lt.2 ((tmod_nonneg_iff hpos).2 hindex)),
      tmod_eq_emod_of_index hindex]
  · rw [if_neg hindex, if_pos (not_le.1 fun h => hindex ((tmod_nonneg_iff hpos).1 h))]
    rfl

/-- Positions of the ring with one key are equal. -/
theorem toNat_emod_inj (hnodup : d.publicKeys.Nodup) (hne : d.publicKeys ≠ []) {numNodes x y : ℤ}
    (h : d.publicKeys[(x % d.rotationSize numNodes).toNat]? =
      d.publicKeys[(y % d.rotationSize numNodes).toNat]?) :
    x % d.rotationSize numNodes = y % d.rotationSize numNodes := by
  obtain ⟨hpos, hle⟩ := rotationSize_pos hne numNodes
  have hx := Int.emod_nonneg x hpos.ne'
  have hy := Int.emod_nonneg y hpos.ne'
  have hlt := Int.emod_lt_of_pos x hpos
  have heq := (List.getElem?_inj (by omega) hnodup).1 h
  omega

/-- One of the two functions, for the number of nodes it rotates over. -/
theorem rotates_nthNextAmong_iff (hne : d.publicKeys ≠ []) (hnodup : d.publicKeys.Nodup)
    (numNodes : ℤ) (pubKey : PublicKeyWrapper B) (next : Int64) :
    d.Rotates (d.rotationSize numNodes) pubKey next (d.nthNextAmong numNodes pubKey next) ↔
      d.StepFits (d.rotationSize numNodes) pubKey next := by
  rw [nthNextAmong_eq hne]
  unfold StepFits
  dsimp only
  set sum := goAdd (d.indexOf pubKey.bytes) next.toInt with hsum
  constructor
  · intro h
    by_cases hmem : pubKey ∈ d.publicKeys
    · obtain ⟨i, hi⟩ := List.mem_iff_getElem?.1 hmem
      obtain ⟨key, hkey, hr⟩ := h.member i hi
      split_ifs at hr with hindex
      obtain ⟨key', hkey', heq⟩ := Option.map_eq_some_iff.1 hr
      obtain rfl : key' = key := (Prod.ext_iff.1 heq).2
      refine ⟨hindex, fun _ => ?_⟩
      rw [indexOf_of_getElem? hnodup hi]
      exact Int.ModEq.dvd (toNat_emod_inj hnodup hne (hkey'.trans hkey.symm))
    · obtain ⟨key, hr⟩ := h.stranger hmem
      split_ifs at hr with hindex
      exact ⟨hindex, fun h => absurd h hmem⟩
  · rintro ⟨hindex, hdvd⟩
    rw [if_pos hindex]
    constructor
    · intro i hi
      have hmem : pubKey ∈ d.publicKeys := List.mem_of_getElem? hi
      have hidx := indexOf_of_getElem? hnodup hi
      obtain ⟨key, hkey⟩ := exists_key_at hne numNodes (i + next.toInt)
      have hmod : sum % d.rotationSize numNodes = (i + next.toInt) % d.rotationSize numNodes := by
        rw [← hidx]
        exact Int.modEq_iff_dvd.2 (hdvd hmem)
      refine ⟨key, hkey, ?_⟩
      rw [hmod, hkey, hidx]
      simp
    · intro hmem
      obtain ⟨key, hkey⟩ := exists_key_at hne numNodes sum
      refine ⟨key, ?_⟩
      rw [hkey, indexOf_of_notMem hnodup hmem]
      rfl

/-- A step of a member fits when the sum of index and step is an `int` that is not negative. -/
theorem stepFits_of_sum (hnodup : d.publicKeys.Nodup) {i : ℕ} (hi : d.publicKeys[i]? = some pubKey)
    (hlow : 0 ≤ i + next.toInt) (hhigh : i + next.toInt < 2 ^ 63) :
    d.StepFits size pubKey next := by
  unfold StepFits
  dsimp only
  rw [indexOf_of_getElem? hnodup hi, goAdd_of_fits (by omega) hhigh]
  exact ⟨Or.inl hlow, fun _ => by simp⟩

/-- Two shifts one after the other are the shift by the sum. -/
theorem Rotates.compose (hsize : 0 < size) {s t : Int64} {key : PublicKeyWrapper B}
    {r r' : Option (Bool × PublicKeyWrapper B)} (hmem : pubKey ∈ d.publicKeys)
    (hs : d.Rotates size pubKey s (some (true, key))) (ht : d.Rotates size key t r)
    (hst : d.Rotates size pubKey (s + t) r') (hsum : (s + t).toInt = s.toInt + t.toInt) :
    r = r' := by
  obtain ⟨i, hi⟩ := List.mem_iff_getElem?.1 hmem
  obtain ⟨key₁, hkey₁, heq⟩ := hs.member i hi
  obtain rfl : key = key₁ := (Prod.ext_iff.1 (Option.some.inj heq)).2
  obtain ⟨key₂, hkey₂, rfl⟩ := ht.member _ hkey₁
  obtain ⟨key₃, hkey₃, rfl⟩ := hst.member i hi
  have hpos : ((((i + s.toInt) % size).toNat : ℤ) + t.toInt) % size =
      (i + (s + t).toInt) % size := by
    rw [Int.toNat_of_nonneg (Int.emod_nonneg _ hsize.ne'), Int.emod_add_emod, hsum, add_assoc]
  rw [hpos, hkey₃] at hkey₂
  rw [Option.some.inj hkey₂]

/-- **Leader rotation.**  For every non-empty committee of distinct keys, every key, and every
    number of nodes of the sharding instance:

    * with a step `next`, `NthNext` and `NthNextHmy` find a member and return the key `next` places
      on, modulo their number of nodes, and return some key for a stranger, exactly when the step
      fits;
    * a shift of a member by `s` and then by `t` is the shift by `s + t`, when the three steps fit
      and `s + t` does not overflow. -/
theorem rotates_iff (d : Decider B) (hne : d.publicKeys ≠ []) (hnodup : d.publicKeys.Nodup)
    (numNodes : ℤ) (pubKey : PublicKeyWrapper B) :
    let size := d.rotationSize numNodes
    let n : ℤ := d.publicKeys.length
    (∀ next, d.Rotates n pubKey next (d.nthNext pubKey next) ∧
        d.Rotates size pubKey next (d.nthNextHmy numNodes pubKey next) ↔
      d.StepFits n pubKey next ∧ d.StepFits size pubKey next) ∧
    ∀ (s t : Int64) (key : PublicKeyWrapper B), pubKey ∈ d.publicKeys →
      (s + t).toInt = s.toInt + t.toInt →
      (d.StepFits n pubKey s → d.StepFits n key t → d.StepFits n pubKey (s + t) →
        d.nthNext pubKey s = some (true, key) → d.nthNext key t = d.nthNext pubKey (s + t)) ∧
      (d.StepFits size pubKey s → d.StepFits size key t → d.StepFits size pubKey (s + t) →
        d.nthNextHmy numNodes pubKey s = some (true, key) →
        d.nthNextHmy numNodes key t = d.nthNextHmy numNodes pubKey (s + t)) := by
  intro size n
  have hwhole : ∀ (k : PublicKeyWrapper B) (next : Int64),
      d.Rotates n k next (d.nthNext k next) ↔ d.StepFits n k next := by
    intro k next
    have h := rotates_nthNextAmong_iff hne hnodup d.participantsCount k next
    rwa [rotationSize_participantsCount] at h
  have hpart : ∀ (k : PublicKeyWrapper B) (next : Int64),
      d.Rotates size k next (d.nthNextHmy numNodes k next) ↔ d.StepFits size k next :=
    rotates_nthNextAmong_iff hne hnodup numNodes
  refine ⟨fun next => and_congr (hwhole pubKey next) (hpart pubKey next), ?_⟩
  intro s t key hmem hsum
  constructor
  · intro hs ht hst hkey
    have hs := (hwhole pubKey s).2 hs
    rw [hkey] at hs
    have hn : 0 < n := Int.natCast_pos.2 (List.length_pos_of_ne_nil hne)
    exact hs.compose hn hmem ((hwhole key t).2 ht) ((hwhole pubKey _).2 hst) hsum
  · intro hs ht hst hkey
    have hs := (hpart pubKey s).2 hs
    rw [hkey] at hs
    exact hs.compose (rotationSize_pos hne numNodes).1 hmem ((hpart key t).2 ht)
      ((hpart pubKey _).2 hst) hsum

end Decider

namespace Concrete

/-- A committee of four keys. -/
def fourKeys : Decider bls :=
  Decider.newBallotsBackedSignatureReader.updateParticipants ([1, 2, 3, 4].map pub)

/-- One place on from the last key is the first key, on the whole committee and on its first two
    keys. -/
theorem rotation_wraps :
    fourKeys.Rotates 4 (pub 4) 1 (fourKeys.nthNext (pub 4) 1) ∧
      fourKeys.Rotates 2 (pub 4) 1 (fourKeys.nthNextHmy 2 (pub 4) 1) := by
  have hnodup : fourKeys.publicKeys.Nodup := by decide +kernel
  have hfits : ∀ size, fourKeys.StepFits size (pub 4) 1 := fun _ =>
    Decider.stepFits_of_sum (i := 3) hnodup rfl (by decide) (by decide)
  exact ((Decider.rotates_iff fourKeys (by decide +kernel) hnodup 2 (pub 4)).1 1).2
    ⟨hfits 4, hfits 2⟩

/-- One place back from the first key, and no place on from a key outside the committee: both
    functions index the committee at -1. -/
theorem rotation_panics :
    fourKeys.nthNext (pub 1) (-1) = none ∧ fourKeys.nthNextHmy 2 (pub 1) (-1) = none ∧
      fourKeys.nthNext (pub 9) 0 = none ∧ fourKeys.nthNextHmy 2 (pub 9) 0 = none := by
  decide +kernel

end Concrete

end Benzene
