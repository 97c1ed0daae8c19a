import Benzene.Common.Bytes

/-!
# Integers as bytes, and RLP

* `bigEndian` is `big.Int.Bytes` of a natural number (no leading zero), `ofBigEndian` is
  `big.Int.SetBytes`; `leftpad_bigEndian` recovers a byte string of known length from the
  number it stands for.
* `encodeString`, `encodeList`: the RLP encoding of a string and of a list of strings.
* A field of a Go value is given by the string it is written as, or by `none` when it has no
  encoding (a negative `*big.Int`); a list with such a field has none either (`encode`).
-/

namespace Benzene

/-! ## Big integers -/

/-- `big.Int.Bytes` of a natural number. -/
def bigEndian (n : ℕ) : Bytes := ((Nat.digits 256 n).map UInt8.ofNat).reverse

/-- `big.Int.SetBytes`. -/
def ofBigEndian (bs : Bytes) : ℕ := Nat.ofDigits 256 (bs.reverse.map UInt8.toNat)

theorem map_toNat_ofNat_digits (n : ℕ) :
    ((Nat.digits 256 n).map UInt8.ofNat).map UInt8.toNat = Nat.digits 256 n := by
  rw [List.map_map]
  conv_rhs => rw [← List.map_id (Nat.digits 256 n)]
  apply List.map_congr_left
  intro d hd
  have hlt : d < 256 := Nat.digits_lt_base (by norm_num) hd
  simpa using Nat.mod_eq_of_lt hlt

@[simp] theorem ofBigEndian_bigEndian (n : ℕ) : ofBigEndian (bigEndian n) = n := by
  simp only [ofBigEndian, bigEndian, List.reverse_reverse, map_toNat_ofNat_digits]
  exact Nat.ofDigits_digits 256 n

theorem bigEndian_injective : Function.Injective bigEndian :=
  Function.LeftInverse.injective ofBigEndian_bigEndian

theorem ofBigEndian_lt (bs : Bytes) : ofBigEndian bs < 256 ^ bs.length := by
  have hlt := Nat.ofDigits_lt_base_pow_length (b := 256) (l := bs.reverse.map UInt8.toNat)
    (by norm_num) ?_
  · simpa [ofBigEndian] using hlt
  · intro d hd
    obtain ⟨b, -, rfl⟩ := List.mem_map.1 hd
    exact b.toNat_lt

theorem bigEndian_length_le {n k : ℕ} (h : n < 256 ^ k) : (bigEndian n).length ≤ k := by
  simpa [bigEndian] using (Nat.digits_length_le_iff (by norm_num : 1 < 256) n).2 h

theorem ofBigEndian_append (a b : Bytes) :
    ofBigEndian (a ++ b) = ofBigEndian a * 256 ^ b.length + ofBigEndian b := by
  simp only [ofBigEndian, List.reverse_append, List.map_append, Nat.ofDigits_append,
    List.length_map, List.length_reverse]
  ring

@[simp] theorem ofBigEndian_replicate_zero (k : ℕ) : ofBigEndian (List.replicate k 0) = 0 := by
  simp [ofBigEndian, Nat.ofDigits_replicate_zero]

/-- Leading zeros do not change the number. -/
theorem ofBigEndian_leftpad (k : ℕ) (bs : Bytes) :
    ofBigEndian (List.leftpad k 0 bs) = ofBigEndian bs := by
  simp [List.leftpad, ofBigEndian_append]

theorem ofBigEndian_inj {a b : Bytes} (hlen : a.length = b.length)
    (h : ofBigEndian a = ofBigEndian b) : a = b := by
  have hdigits : a.reverse.map UInt8.toNat = b.reverse.map UInt8.toNat := by
    apply Nat.ofDigits_inj_of_len_eq (b := 256) (by norm_num) (by simpa using hlen)
    · intro d hd
      obtain ⟨x, -, rfl⟩ := List.mem_map.1 hd
      exact x.toNat_lt
    · intro d hd
      obtain ⟨x, -, rfl⟩ := List.mem_map.1 hd
      exact x.toNat_lt
    · exact h
  have hinj : Function.Injective UInt8.toNat := fun x y hxy => UInt8.toNat_inj.1 hxy
  exact List.reverse_injective (List.map_injective_iff.2 hinj hdigits)

/-- A byte string is the number it stands for, padded to its length. -/
theorem leftpad_bigEndian (bs : Bytes) :
    List.leftpad bs.length 0 (bigEndian (ofBigEndian bs)) = bs := by
  apply ofBigEndian_inj
  · have hlen := bigEndian_length_le (ofBigEndian_lt bs)
    simp only [List.leftpad, List.length_append, List.length_replicate]
    omega
  · rw [ofBigEndian_leftpad, ofBigEndian_bigEndian]

@[simp] theorem ofBigEndian_cons (x : UInt8) (bs : Bytes) :
    ofBigEndian (x :: bs) = x.toNat * 256 ^ bs.length + ofBigEndian bs := by
  simpa [ofBigEndian] using ofBigEndian_append [x] bs

/-- Byte strings of one length are ordered as the numbers they stand for. -/
theorem lt_of_ofBigEndian_lt {a b : Bytes} (hlen : a.length = b.length)
    (h : ofBigEndian a < ofBigEndian b) : a < b := by
  induction a generalizing b with
  | nil =>
    rw [List.length_nil, eq_comm, List.length_eq_zero_iff] at hlen
    subst hlen
    exact absurd h (lt_irrefl _)
  | cons x a ih =>
    cases b with
    | nil => cases hlen
    | cons y b =>
      have htail : a.length = b.length := Nat.succ.inj hlen
      rw [ofBigEndian_cons, ofBigEndian_cons, htail] at h
      rw [List.cons_lt_cons_iff]
      rcases Nat.lt_trichotomy x.toNat y.toNat with hxy | hxy | hxy
      · exact Or.inl (UInt8.lt_iff_toNat_lt.2 hxy)
      · exact Or.inr ⟨UInt8.toNat_inj.1 hxy, ih htail (by rw [hxy] at h; omega)⟩
      · -- a larger first byte outweighs the rest
        have hb := ofBigEndian_lt b
        have hmul := Nat.mul_le_mul_right (256 ^ b.length) hxy
        rw [Nat.succ_mul] at hmul
        omega

theorem bigEndian_length_mono {m n : ℕ} (h : m ≤ n) :
    (bigEndian m).length ≤ (bigEndian n).length := by
  simpa [bigEndian] using Nat.le_length_digits_le 256 m n h

namespace Rlp

/-! ## Encoding -/

/-- `puthead`: the tag and size in front of a string or a list. -/
def putHead (smallTag largeTag : UInt8) (size : ℕ) : Bytes :=
  if size < 56 then [smallTag + UInt8.ofNat size]
  else (largeTag + UInt8.ofNat (bigEndian size).length) :: bigEndian size

/-- A string: a single byte below `0x80` is its own encoding. -/
def encodeString (b : Bytes) : Bytes :=
  match b with
  | [x] => if x ≤ 0x7f then [x] else putHead 0x80 0xb7 1 ++ [x]
  | _ => putHead 0x80 0xb7 b.length ++ b

/-- A list of strings. -/
def encodeList (bs : List Bytes) : Bytes :=
  let payload := (bs.map encodeString).flatten
  putHead 0xc0 0xf7 payload.length ++ payload

/-- How a `uint64` or a `uint` is written. -/
def uint (x : UInt64) : Option Bytes := some (bigEndian x.toNat)

/-- How a `*big.Int` is written: a negative one is an error. -/
def bigInt (i : ℤ) : Option Bytes := if i < 0 then none else some (bigEndian i.toNat)

/-- How a `[]byte` is written. -/
def bytes (b : Bytes) : Option Bytes := some b

/-- How a pointer to a byte array is written: nil is the empty string. -/
def pointer {n : ℕ} (a : Option (ByteArr n)) : Option Bytes :=
  some ((a.map List.Vector.toList).getD [])

/-- The strings of a list of fields. -/
def strings (fields : List (Option Bytes)) : Option (List Bytes) := fields.mapM id

/-- `rlp.Encode` of a list of fields. -/
def encode (fields : List (Option Bytes)) : Option Bytes := (strings fields).map encodeList

theorem length_putHead_le (smallTag largeTag : UInt8) {n : ℕ} (h : n < 256 ^ 8) :
    (putHead smallTag largeTag n).length ≤ 9 := by
  unfold putHead
  split_ifs
  · simp
  · rw [List.length_cons]
    have hlen := bigEndian_length_le h
    omega

theorem length_encodeString (b : Bytes) (h : b.length < 256 ^ 8) :
    b.length ≤ (encodeString b).length ∧ (encodeString b).length ≤ b.length + 9 := by
  have hhead : (putHead 0x80 0xb7 b.length ++ b).length ≤ b.length + 9 := by
    rw [List.length_append]
    have hlen := length_putHead_le 0x80 0xb7 h
    omega
  unfold encodeString
  split
  · split_ifs
    · simp
    · exact ⟨by simp, hhead⟩
  · exact ⟨by simp, hhead⟩

/-- The encoding of a list of strings is not much longer than the strings. -/
theorem length_encodeList {bs : List Bytes}
    (h : (bs.map List.length).sum + 9 * bs.length < 256 ^ 8) :
    (bs.map List.length).sum ≤ (encodeList bs).length ∧
      (encodeList bs).length ≤ (bs.map List.length).sum + 9 * bs.length + 9 := by
  have hflat : (bs.map List.length).sum ≤ ((bs.map encodeString).flatten).length ∧
      ((bs.map encodeString).flatten).length ≤ (bs.map List.length).sum + 9 * bs.length := by
    induction bs with
    | nil => simp
    | cons b bs ih =>
      simp only [List.map_cons, List.sum_cons, List.length_cons, List.flatten_cons,
        List.length_append] at h ⊢
      obtain ⟨hge, hle⟩ := length_encodeString b (by omega)
      obtain ⟨hge', hle'⟩ := ih (by omega)
      omega
  have hhead := length_putHead_le 0xc0 0xf7 (hflat.2.trans_lt h)
  simp only [encodeList, List.length_append]
  omega

variable {fields : List (Option Bytes)}

theorem strings_eq_some {bs : List Bytes} :
    strings fields = some bs ↔ fields = bs.map some := by
  induction fields generalizing bs with
  | nil => cases bs <;> simp [strings]
  | cons f fields ih =>
    simp only [strings] at ih
    simp only [strings, List.mapM_cons, id_eq, Option.bind_eq_bind, Option.bind_eq_some_iff, ih,
      Option.pure_def, Option.some.injEq]
    constructor
    · rintro ⟨b, rfl, bs', rfl, rfl⟩
      rfl
    · intro h
      cases bs with
      | nil => simp at h
      | cons b bs =>
        simp only [List.map_cons, List.cons.injEq] at h
        exact ⟨b, h.1, bs, h.2, rfl⟩

theorem strings_eq_none :
    strings fields = none ↔ none ∈ fields := by
  constructor
  · intro hnone
    by_contra hmem
    have hsome : fields = (fields.filterMap id).map some := by
      clear hnone
      induction fields with
      | nil => rfl
      | cons f fields ih =>
        simp only [List.mem_cons, not_or] at hmem
        obtain ⟨b, rfl⟩ := Option.ne_none_iff_exists'.1 (Ne.symm hmem.1)
        simpa using ih hmem.2
    rw [strings_eq_some.2 hsome] at hnone
    cases hnone
  · intro hmem
    cases hs : strings fields with
    | none => rfl
    | some bs =>
      rw [strings_eq_some.1 hs] at hmem
      simp at hmem

/-- Field lists with the same strings are equal, unless both have no encoding. -/
theorem strings_inj {fields fields' : List (Option Bytes)} :
    strings fields = strings fields' ↔
      fields = fields' ∨ (none ∈ fields ∧ none ∈ fields') := by
  constructor
  · intro h
    cases hs : strings fields with
    | none => exact Or.inr ⟨strings_eq_none.1 hs, strings_eq_none.1 (h ▸ hs)⟩
    | some bs => exact Or.inl ((strings_eq_some.1 hs).trans (strings_eq_some.1 (h ▸ hs)).symm)
  · rintro (rfl | ⟨h, h'⟩)
    · rfl
    · rw [strings_eq_none.2 h, strings_eq_none.2 h']

theorem uint_injective : Function.Injective uint := by
  intro x y h
  have hnat := bigEndian_injective (Option.some.inj h)
  exact UInt64.toNat_inj.1 hnat

theorem bigInt_eq_none {i : ℤ} : bigInt i = none ↔ i < 0 := by
  unfold bigInt
  split_ifs with h <;> simp [h]

theorem bigInt_inj {i j : ℤ} (hi : 0 ≤ i) (h : bigInt i = bigInt j) : i = j := by
  have hj : ¬ j < 0 := by
    intro hj
    rw [bigInt_eq_none.2 hj, bigInt_eq_none] at h
    omega
  simp only [bigInt, not_lt.2 hi, hj, if_false, Option.some.injEq] at h
  have hnat := bigEndian_injective h
  omega

theorem pointer_injective {n : ℕ} (hn : 0 < n) : Function.Injective (pointer (n := n)) := by
  intro a b h
  cases a with
  | none =>
    cases b with
    | none => rfl
    | some b =>
      have hlen := congrArg List.length (Option.some.inj h)
      simp at hlen
      omega
  | some a =>
    cases b with
    | none =>
      have hlen := congrArg List.length (Option.some.inj h)
      simp at hlen
      omega
    | some b =>
      have hlist : a.toList = b.toList := Option.some.inj h
      rw [List.Vector.toList_injective hlist]

end Rlp

end Benzene
