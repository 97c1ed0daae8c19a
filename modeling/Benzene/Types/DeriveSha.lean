import Benzene.Common.Rlp

/-!
# The hash of a list

`DeriveSha` (core/types/derive_sha.go) gives a hasher one entry for each index of a list. The
key of an entry is the RLP encoding of its index. A stack trie takes its keys in increasing
order only, and `0` is written as `0x80`, after the indices up to `0x7f`: the source therefore
feeds the index `0` between two loops.

`deriveSha_feeds` is the main result: every index is fed once, in strictly increasing order of
the keys.
-/

namespace Benzene.Types

/-! ## Model -/

/-- `DerivableList` (core/types/derive_sha.go:24-27). `Len` is an `int`. -/
structure DerivableList where
  len : ℕ
  getRlp : ℕ → Bytes
  len_lt : len < 2 ^ 63

/-- `Hasher` (core/types/derive_sha.go:30-34), with its state passed along. -/
structure Hasher (σ : Type*) where
  reset : σ → σ
  update : Bytes → Bytes → σ → σ
  hash : σ → Hash

/-- `rlp.AppendUint64(buf[:0], i)`. -/
def indexKey (i : ℕ) : Bytes := Rlp.encodeString (bigEndian i)

variable {σ : Type*}

/-- `hasher.Update(buf, list.GetRlp(i))` with the key of the index in the buffer. -/
def feed (list : DerivableList) (hasher : Hasher σ) (st : σ) (i : ℕ) : σ :=
  hasher.update (indexKey i) (list.getRlp i) st

/-- `DeriveSha` (core/types/derive_sha.go:36-58). -/
def deriveSha (list : DerivableList) (hasher : Hasher σ) (st : σ) : Hash :=
  let st := hasher.reset st
  let st := (List.Ico 1 (min list.len 0x80)).foldl (feed list hasher) st
  let st := if 0 < list.len then feed list hasher st 0 else st
  let st := (List.Ico 0x80 list.len).foldl (feed list hasher) st
  hasher.hash st

/-! ## Keys -/

/-- The first byte of the key of an index. -/
def keyHead (i : ℕ) : ℕ := if i = 0 then 0x80 else if i < 0x80 then i else
  0x80 + (bigEndian i).length

theorem indexKey_eq {i : ℕ} (hi : i < 2 ^ 63) :
    indexKey i = UInt8.ofNat (keyHead i) :: if i < 0x80 then [] else bigEndian i := by
  unfold indexKey keyHead
  split_ifs with hzero hsmall hsmall
  · simp [hzero, bigEndian, Rlp.encodeString, Rlp.putHead]
  · omega
  · have hbytes : bigEndian i = [UInt8.ofNat i] := by
      simp [bigEndian, Nat.digits_of_lt 256 i hzero (by omega)]
    rw [hbytes, Rlp.encodeString, if_pos]
    rw [UInt8.le_iff_toNat_le, UInt8.toNat_ofNat', Nat.mod_eq_of_lt (by omega)]
    exact Nat.le_of_lt_succ hsmall
  · have hlen := bigEndian_length_le (n := i) (k := 8) (by omega)
    unfold Rlp.encodeString
    split
    · -- a single byte, but not below `0x80`
      rename_i x hx
      have hval : x.toNat = i := by
        rw [← ofBigEndian_bigEndian i, hx]
        simp [ofBigEndian]
      rw [if_neg, hx]
      · rfl
      · rw [UInt8.le_iff_toNat_le, hval]
        exact Nat.not_le.2 (Nat.not_lt.1 hsmall)
    · simp [Rlp.putHead, show (bigEndian i).length < 56 by omega]

theorem keyHead_large {i : ℕ} (hi : 0x80 ≤ i) : keyHead i = 0x80 + (bigEndian i).length := by
  rw [keyHead, if_neg (by omega), if_neg (by omega)]

theorem keyHead_small {i : ℕ} (hpos : 0 < i) (hi : i < 0x80) : keyHead i = i := by
  rw [keyHead, if_neg hpos.ne', if_pos hi]

theorem lt_keyHead_large {i : ℕ} (hi : 0x80 ≤ i) : 0x80 < keyHead i := by
  have hmono := bigEndian_length_mono hi
  have hone : (bigEndian 0x80).length = 1 := by simp [bigEndian]
  rw [keyHead_large hi]
  omega

theorem keyHead_lt {i : ℕ} (hi : i < 2 ^ 63) : keyHead i < 256 := by
  have hlen := bigEndian_length_le (n := i) (k := 8) (by omega)
  unfold keyHead
  split_ifs <;> omega

theorem indexKey_lt_of_keyHead {i j : ℕ} (hi : i < 2 ^ 63) (hj : j < 2 ^ 63)
    (h : keyHead i < keyHead j) : indexKey i < indexKey j := by
  rw [indexKey_eq hi, indexKey_eq hj, List.cons_lt_cons_iff, UInt8.lt_iff_toNat_lt,
    UInt8.toNat_ofNat', UInt8.toNat_ofNat', Nat.mod_eq_of_lt (keyHead_lt hi),
    Nat.mod_eq_of_lt (keyHead_lt hj)]
  exact Or.inl h

/-- From `0x80` on the length decides, then the bytes. -/
theorem indexKey_lt_of_large {i j : ℕ} (hi : 0x80 ≤ i) (hij : i < j) (hj : j < 2 ^ 63) :
    indexKey i < indexKey j := by
  have hmono := bigEndian_length_mono hij.le
  rcases hmono.lt_or_eq with hlen | hlen
  · apply indexKey_lt_of_keyHead (hij.trans hj) hj
    rw [keyHead_large hi, keyHead_large (hi.trans hij.le)]
    omega
  · rw [indexKey_eq (hij.trans hj), indexKey_eq hj, keyHead_large hi,
      keyHead_large (hi.trans hij.le), hlen, if_neg (by omega), if_neg (by omega),
      List.cons_lt_cons_iff]
    exact Or.inr ⟨rfl, lt_of_ofBigEndian_lt hlen (by simpa using hij)⟩

/-! ## The order of the entries -/

/-- The indices in the order they are fed in. -/
def feedOrder (n : ℕ) : List ℕ :=
  List.Ico 1 (min n 0x80) ++ ((if 0 < n then [0] else []) ++ List.Ico 0x80 n)

theorem deriveSha_eq (list : DerivableList) (hasher : Hasher σ) (st : σ) :
    deriveSha list hasher st =
      hasher.hash ((feedOrder list.len).foldl (feed list hasher) (hasher.reset st)) := by
  unfold deriveSha feedOrder
  split_ifs <;> simp [List.foldl_append]

theorem feedOrder_pairwise {n : ℕ} (hn : n < 2 ^ 63) :
    (feedOrder n).Pairwise fun i j => indexKey i < indexKey j := by
  have hzero : keyHead 0 = 0x80 := rfl
  have hsmall : (List.Ico 1 (min n 0x80)).Pairwise fun i j => indexKey i < indexKey j := by
    apply (List.Ico.pairwise_lt _ _).imp_of_mem
    intro i j hi hj hij
    rw [List.Ico.mem] at hi hj
    apply indexKey_lt_of_keyHead (by omega) (by omega)
    rwa [keyHead_small hi.1 (by omega), keyHead_small hj.1 (by omega)]
  have hlarge : (List.Ico 0x80 n).Pairwise fun i j => indexKey i < indexKey j := by
    apply (List.Ico.pairwise_lt _ _).imp_of_mem
    intro i j hi hj hij
    rw [List.Ico.mem] at hi hj
    exact indexKey_lt_of_large hi.1 hij (by omega)
  by_cases hpos : 0 < n
  · simp only [feedOrder, if_pos hpos, List.singleton_append, List.pairwise_append,
      List.pairwise_cons, List.mem_cons, List.Ico.mem]
    refine ⟨hsmall, ⟨?_, hlarge⟩, ?_⟩
    · rintro j ⟨hj, hjn⟩
      exact indexKey_lt_of_keyHead (by omega) (by omega) (lt_keyHead_large hj)
    · rintro i ⟨hi, hin⟩ j (rfl | ⟨hj, hjn⟩) <;>
        apply indexKey_lt_of_keyHead (by omega) (by omega) <;>
        rw [keyHead_small hi (by omega)]
      · omega
      · have := lt_keyHead_large hj
        omega
  · obtain rfl : n = 0 := by omega
    exact List.Pairwise.nil

/-- `DeriveSha` feeds the hasher each index of the list once, in strictly increasing order of the
keys, and nothing else. -/
theorem deriveSha_feeds (list : DerivableList) :
    ∃ order : List ℕ, order.Perm (List.range list.len) ∧
      (order.map indexKey).Pairwise (· < ·) ∧
      ∀ {σ : Type*} (hasher : Hasher σ) (st : σ), deriveSha list hasher st =
        hasher.hash (order.foldl (fun st i => hasher.update (indexKey i) (list.getRlp i) st)
          (hasher.reset st)) := by
  have hpairwise := feedOrder_pairwise list.len_lt
  refine ⟨feedOrder list.len, ?_, List.pairwise_map.2 hpairwise, fun hasher st =>
    deriveSha_eq list hasher st⟩
  have hnodup : (feedOrder list.len).Nodup := by
    apply hpairwise.imp
    rintro i _ hlt rfl
    exact List.lt_irrefl _ hlt
  rw [List.perm_ext_iff_of_nodup hnodup List.nodup_range]
  intro i
  simp only [feedOrder, List.mem_append, List.Ico.mem, List.mem_range]
  split_ifs <;> simp <;> omega

end Benzene.Types
