import Benzene.External.Bls

/-!
# A concrete instance of the crypto interface

`Bls` and `MaskLib` are satisfiable, by structures that compute: keys and signatures are
bytes with addition modulo 256, the signature over `m` under `pk` is `pk` times a checksum
of `m`, and a mask keeps its bits as a function.  Runs of the model on concrete
inputs are evaluated over this instance.
-/

namespace Benzene.Concrete

/-- A checksum modulo 256. -/
def checksum (m : Bytes) : BitVec 8 := m.foldl (fun h b => h * 5 + b.toBitVec) 1

/-- The first byte. -/
def firstByte : Bytes → Option (BitVec 8)
  | [] => none
  | b :: _ => some b.toBitVec

/-- The key in the first byte, when all others are zero. -/
def keyOfBytes : Bytes → Option (BitVec 8)
  | [] => none
  | b :: bs => if bs.all (· == 0) then some b.toBitVec else none

theorem keyOfBytes_eq_some {bs : Bytes} {pk : BitVec 8} :
    keyOfBytes bs = some pk ↔ ∃ n, bs = UInt8.ofBitVec pk :: List.replicate n 0 := by
  cases bs with
  | nil => simp [keyOfBytes]
  | cons b bs =>
    have hall : bs.all (· == 0) = true ↔ ∃ n, bs = List.replicate n 0 := by
      simp [List.eq_replicate_iff]
    simp only [keyOfBytes]
    split_ifs with h
    · obtain ⟨n, rfl⟩ := hall.1 h
      constructor
      · intro hb
        obtain rfl := Option.some.inj hb
        exact ⟨n, rfl⟩
      · rintro ⟨n', hn⟩
        rw [List.cons.injEq] at hn
        rw [hn.1]
    · constructor
      · intro hn
        cases hn
      · rintro ⟨n, hn⟩
        rw [List.cons.injEq] at hn
        exact absurd (hall.2 ⟨n, hn.2⟩) h

theorem keyOfBytes_copyBytes (bs : Bytes) (pk : BitVec 8) (h : keyOfBytes bs = some pk) :
    keyOfBytes (copyBytes 48 bs).toList = some pk := by
  obtain ⟨n, rfl⟩ := keyOfBytes_eq_some.1 h
  refine keyOfBytes_eq_some.2 ⟨47, ?_⟩
  show List.take 48 ((UInt8.ofBitVec pk :: List.replicate n 0) ++ List.replicate 48 0) = _
  rw [List.cons_append, ← List.replicate_add, List.take_succ_cons, List.take_replicate,
    show min 47 (n + 48) = 47 by omega]

theorem keyOfBytes_inj (a b : SerializedPublicKey) (pk : BitVec 8)
    (ha : keyOfBytes a.toList = some pk) (hb : keyOfBytes b.toList = some pk) : a = b := by
  obtain ⟨n, hn⟩ := keyOfBytes_eq_some.1 ha
  obtain ⟨n', hn'⟩ := keyOfBytes_eq_some.1 hb
  have hlen := congrArg List.length hn
  have hlen' := congrArg List.length hn'
  simp only [List.Vector.toList_length, List.length_cons, List.length_replicate] at hlen hlen'
  apply List.Vector.toList_injective
  rw [hn, hn', show n = n' by omega]

/-- BLS over bytes. -/
def bls : Bls where
  PublicKey := BitVec 8
  Sign := BitVec 8
  SecretKey := BitVec 8
  getPublicKey sk := sk
  signHash sk m := sk * checksum m
  verifyHash s pk m := decide (s = pk * checksum m)
  serialize s := UInt8.ofBitVec s :: List.replicate 95 0
  deserialize := firstByte
  bytesToBLSPublicKey := keyOfBytes
  sigOf m := AddMonoidHom.mulRight (checksum m)
  verifyHash_iff s pk m := decide_eq_true_iff
  signHash_eq _ _ := rfl
  serialize_length s := by simp
  deserialize_serialize _ := rfl
  bytesToBLSPublicKey_copyBytes := keyOfBytes_copyBytes
  bytesToBLSPublicKey_inj := keyOfBytes_inj

/-- The key pair of a byte. -/
def key (b : UInt8) : PrivateKeyWrapper bls where
  pri := b.toBitVec
  pub := ⟨copyBytes 48 [b], b.toBitVec, rfl⟩
  wf := rfl

/-- The public key of a byte. -/
def pub (b : UInt8) : PublicKeyWrapper bls := (key b).pub

/-! ## Masks -/

variable (B : Bls)

/-- A mask: bit `i` says whether the `i`-th key is enabled. -/
structure BitMask where
  publics : List (PublicKeyWrapper B)
  bits : ℕ → Bool

variable {B}

namespace BitMask

variable (m : BitMask B)

def bitmap : Bytes := packBits m.publics.length m.bits

def setMask (bs : Bytes) : Option (BitMask B) :=
  if bs.length = m.bitmap.length then some { m with bits := testBit bs } else none

def setKey (k : SerializedPublicKey) (enable : Bool) : Option (BitMask B) :=
  if k ∈ m.publics.map (·.bytes) then
    some { m with
      bits := fun i => if (m.publics.map (·.bytes))[i]? = some k then enable else m.bits i }
  else none

def getSignedPubKeysFromBitmap (bs : Bytes) : Option (List (PublicKeyWrapper B)) :=
  if bs.length = m.bitmap.length then
    some ((m.publics.zipIdx.filter fun p => testBit bs p.2).map Prod.fst)
  else none

theorem testBit_bitmap (i : ℕ) : testBit m.bitmap i = (decide (i < m.publics.length) && m.bits i) :=
  testBit_packBits _ _ _

variable {m}

theorem testBit_setKey {m m' : BitMask B} {k : SerializedPublicKey} {enable : Bool}
    (h : m.setKey k enable = some m') (i : ℕ) : testBit m'.bitmap i =
      if (m.publics.map (·.bytes))[i]? = some k then enable else testBit m.bitmap i := by
  unfold setKey at h
  split_ifs at h with hk
  obtain rfl := Option.some.inj h
  rw [testBit_bitmap, testBit_bitmap]
  by_cases hi : i < m.publics.length
  · simp only [hi, decide_true, Bool.true_and]
  · simp [hi]

end BitMask

/-- Masks over bits. -/
def maskLib (B : Bls) : MaskLib B where
  Mask := BitMask B
  publics := BitMask.publics
  bitmap := BitMask.bitmap
  aggregatePublic m :=
    ((m.publics.zipIdx.filter fun p => testBit m.bitmap p.2).map fun p => p.1.object).sum
  newMask ks := ⟨ks, fun _ => false⟩
  clear m := { m with bits := fun _ => false }
  setMask := BitMask.setMask
  setKey := BitMask.setKey
  setKeysAtomic m ks enable := ks.foldlM (fun m k => m.setKey k.bytes enable) m
  countEnabled m := ((List.range m.publics.length).filter m.bits).length
  getSignedPubKeysFromBitmap := BitMask.getSignedPubKeysFromBitmap
  bitmap_length m := packBits_length _ _
  bitmap_padding m i hi := by
    rw [BitMask.testBit_bitmap]
    simp [not_lt.2 hi]
  aggregatePublic_eq _ := rfl
  newMask_publics _ := rfl
  newMask_bit ks i := by simp [BitMask.testBit_bitmap]
  clear_publics _ := rfl
  clear_bit m i := by simp [BitMask.testBit_bitmap]
  setMask_isSome m bs := by
    unfold BitMask.setMask
    split_ifs with h <;> simp [h]
  setMask_publics m bs m' h := by
    unfold BitMask.setMask at h
    split_ifs at h
    exact (Option.some.inj h) ▸ rfl
  setMask_bit m bs m' i h hi := by
    unfold BitMask.setMask at h
    split_ifs at h
    obtain rfl := Option.some.inj h
    rw [BitMask.testBit_bitmap]
    simp [hi]
  setKey_isSome m k enable := by
    unfold BitMask.setKey
    split_ifs with h <;> simp [h]
  setKey_publics m k enable m' h := by
    unfold BitMask.setKey at h
    split_ifs at h
    exact (Option.some.inj h) ▸ rfl
  setKey_bit m k enable m' i _ h := BitMask.testBit_setKey h i
  setKeysAtomic_eq _ _ _ := rfl
  getSignedPubKeysFromBitmap_eq m bs := by
    unfold BitMask.getSignedPubKeysFromBitmap
    rfl

end Benzene.Concrete
