import Benzene.Common.Bytes
import Benzene.Common.GoMap

/-!
# Keys of the database

The key constructors of core/rawdb/schema.go.  Several kinds of keys begin with the same byte:
headers and canonical hashes, bodies and commit signatures, preimages and the shard id.  They are
told apart by their lengths.

`dbKeys_distinct`: keys of different entries are different, and `ReadAllHashes` returns the hashes
of the headers with its number.
-/

namespace Benzene.Rawdb

/-- The bytes of an ASCII text. -/
def ascii (s : String) : Bytes := s.toList.map fun c => UInt8.ofNat c.toNat

/-- `encodeBlockNumber` (core/rawdb/schema.go:122-126). -/
def encodeBlockNumber (number : UInt64) : ByteArr 8 := ⟨(putUint64 number).reverse, by simp⟩

/-- A key: the text it begins with, and its fields. -/
def joinKey (start : String) (fields : List Bytes) : Bytes := ascii start ++ fields.flatten

/-- `headerKeyPrefix` (core/rawdb/schema.go:129-131). -/
def headerKeyPrefix (number : UInt64) : Bytes := joinKey "h" [(encodeBlockNumber number).toList]

/-- `headerKey` (core/rawdb/schema.go:134-136). -/
def headerKey (number : UInt64) (hash : Hash) : Bytes :=
  joinKey "h" [(encodeBlockNumber number).toList, hash.toList]

/-- `headerHashKey` (core/rawdb/schema.go:139-141). -/
def headerHashKey (number : UInt64) : Bytes :=
  joinKey "h" [(encodeBlockNumber number).toList, ascii "n"]

/-- `headerNumberKey` (core/rawdb/schema.go:144-146). -/
def headerNumberKey (hash : Hash) : Bytes := joinKey "H" [hash.toList]

/-- `blockBodyKey` (core/rawdb/schema.go:149-151). -/
def blockBodyKey (number : UInt64) (hash : Hash) : Bytes :=
  joinKey "b" [(encodeBlockNumber number).toList, hash.toList]

/-- `txLookupKey` (core/rawdb/schema.go:154-156). -/
def txLookupKey (hash : Hash) : Bytes := joinKey "l" [hash.toList]

/-- `accountSnapshotKey` (core/rawdb/schema.go:159-161). -/
def accountSnapshotKey (hash : Hash) : Bytes := joinKey "a" [hash.toList]

/-- `storageSnapshotKey` (core/rawdb/schema.go:164-166). -/
def storageSnapshotKey (accountHash storageHash : Hash) : Bytes :=
  joinKey "o" [accountHash.toList, storageHash.toList]

/-- `storageSnapshotsKey` (core/rawdb/schema.go:169-171). -/
def storageSnapshotsKey (accountHash : Hash) : Bytes := joinKey "o" [accountHash.toList]

/-- `preimageKey` (core/rawdb/schema.go:174-176). -/
def preimageKey (hash : Hash) : Bytes := joinKey "secure-key-" [hash.toList]

/-- `codeKey` (core/rawdb/schema.go:179-181). -/
def codeKey (hash : Hash) : Bytes := joinKey "c" [hash.toList]

/-- `configKey` (core/rawdb/schema.go:184-186). -/
def configKey (hash : Hash) : Bytes := joinKey "ethereum-config-" [hash.toList]

/-- `blockCommitSigKey` (core/rawdb/schema.go:188-190). -/
def blockCommitSigKey (number : UInt64) : Bytes :=
  joinKey "block-sig-" [(encodeBlockNumber number).toList]

/-- The keys of single entries (core/rawdb/schema.go:30-57, 76-84). -/
def fixedKeys : List Bytes :=
  ["LastHeader", "LastBlock", "LastFast", "LastPivot", "SnapshotRoot", "SnapshotJournal",
    "SnapshotGenerator", "SnapshotRecovery", "TransactionIndexTail", "FastTransactionLookupLimit",
    "unclean-shutdown", "shardID", "LastCommits"].map ascii

/-- The entries of the database. -/
inductive DbEntry
  | header (number : UInt64) (hash : Hash)
  | headerHash (number : UInt64)
  | headerNumber (hash : Hash)
  | blockBody (number : UInt64) (hash : Hash)
  | txLookup (hash : Hash)
  | accountSnapshot (hash : Hash)
  | storageSnapshot (accountHash storageHash : Hash)
  | storageSnapshots (accountHash : Hash)
  | preimage (hash : Hash)
  | code (hash : Hash)
  | config (hash : Hash)
  | blockCommitSig (number : UInt64)
  | fixed (i : Fin 13)

namespace DbEntry

/-- The key of an entry. -/
def key : DbEntry → Bytes
  | header number hash => headerKey number hash
  | headerHash number => headerHashKey number
  | headerNumber hash => headerNumberKey hash
  | blockBody number hash => blockBodyKey number hash
  | txLookup hash => txLookupKey hash
  | accountSnapshot hash => accountSnapshotKey hash
  | storageSnapshot accountHash storageHash => storageSnapshotKey accountHash storageHash
  | storageSnapshots accountHash => storageSnapshotsKey accountHash
  | preimage hash => preimageKey hash
  | code hash => codeKey hash
  | config hash => configKey hash
  | blockCommitSig number => blockCommitSigKey number
  | fixed i => fixedKeys.get i

/-! ## Kinds -/

theorem encodeBlockNumber_injective : Function.Injective encodeBlockNumber := by
  intro m n h
  exact putUint64_injective (List.reverse_injective (congrArg List.Vector.toList h))

theorem toList_append_inj {n : ℕ} {a b : ByteArr n} {x y : Bytes} :
    a.toList ++ x = b.toList ++ y ↔ a = b ∧ x = y := by
  constructor
  · intro h
    obtain ⟨hab, hxy⟩ := List.append_inj h (by simp)
    exact ⟨List.Vector.toList_injective hab, hxy⟩
  · rintro ⟨rfl, rfl⟩
    rfl

/-- The kind of an entry. -/
def kind : DbEntry → Fin 25
  | header _ _ => 0
  | headerHash _ => 1
  | headerNumber _ => 2
  | blockBody _ _ => 3
  | txLookup _ => 4
  | accountSnapshot _ => 5
  | storageSnapshot _ _ => 6
  | storageSnapshots _ => 7
  | preimage _ => 8
  | code _ => 9
  | config _ => 10
  | blockCommitSig _ => 11
  | fixed i => ⟨12 + i, by omega⟩

/-- How the keys of each kind begin, and their length. -/
def shapes : List (Bytes × ℕ) :=
  [(ascii "h", 41), (ascii "h", 10), (ascii "H", 33), (ascii "b", 41), (ascii "l", 33),
    (ascii "a", 33), (ascii "o", 65), (ascii "o", 33), (ascii "secure-key-", 43), (ascii "c", 33),
    (ascii "ethereum-config-", 48), (ascii "block-sig-", 18)] ++
    fixedKeys.map fun k => (k, k.length)

theorem length_joinKey (start : String) (fields : List Bytes) :
    (joinKey start fields).length = (ascii start).length + (fields.map List.length).sum := by
  simp [joinKey]

theorem key_shape (e : DbEntry) :
    (shapes.get e.kind).1 <+: e.key ∧ e.key.length = (shapes.get e.kind).2 := by
  cases e with
  | fixed i => revert i; decide +kernel
  | _ => exact ⟨List.prefix_append _ _, by
      simp only [key, headerKey, headerHashKey, headerNumberKey, blockBodyKey, txLookupKey,
        accountSnapshotKey, storageSnapshotKey, storageSnapshotsKey, preimageKey, codeKey,
        configKey, blockCommitSigKey, length_joinKey, List.map_cons, List.map_nil,
        List.Vector.toList_length]
      rfl⟩

/-- No two kinds have keys of one length that begin alike. -/
theorem shapes_distinct : ∀ i j : Fin 25, (shapes.get i).2 = (shapes.get j).2 →
    (shapes.get i).1 <+: (shapes.get j).1 ∨ (shapes.get j).1 <+: (shapes.get i).1 → i = j := by
  decide +kernel

theorem kind_eq_of_key_eq {e e' : DbEntry} (h : e.key = e'.key) : e.kind = e'.kind := by
  obtain ⟨hpre, hlen⟩ := key_shape e
  obtain ⟨hpre', hlen'⟩ := key_shape e'
  rw [← h] at hpre' hlen'
  exact shapes_distinct _ _ (hlen.symm.trans hlen') (List.prefix_or_prefix_of_prefix hpre hpre')

theorem key_injective : Function.Injective key := by
  intro e e' h
  have hkind := congrArg Fin.val (kind_eq_of_key_eq h)
  cases e <;> cases e' <;> try exact absurd hkind (by simp only [kind]; omega)
  case fixed.fixed i i' =>
    simp only [kind] at hkind
    exact congrArg fixed (Fin.ext (by omega))
  all_goals simpa [key, headerKey, headerHashKey, headerNumberKey, blockBodyKey, txLookupKey,
    accountSnapshotKey, storageSnapshotKey, storageSnapshotsKey, preimageKey, codeKey, configKey,
    blockCommitSigKey, joinKey, toList_append_inj, encodeBlockNumber_injective.eq_iff,
    List.Vector.toList_injective.eq_iff] using h

end DbEntry

/-! ## The hashes of a number -/

/-- `db.NewIterator(prefix, nil)`: the keys that begin with some bytes, in increasing order. -/
def newIterator (db : GoMap Bytes Bytes) (start : Bytes) : List Bytes :=
  (db.keys.filter fun key => start.isPrefixOf key).mergeSort (· ≤ ·)

/-- `ReadAllHashes` (core/rawdb/accessors_chain.go:54-67). -/
def readAllHashes (db : GoMap Bytes Bytes) (number : UInt64) : List Hash :=
  (newIterator db (headerKeyPrefix number)).filterMap fun key =>
    if key.length = (headerKeyPrefix number).length + 32 then
      some (copyBytes 32 (key.drop (key.length - 32)))
    else none

variable {db : GoMap Bytes Bytes} {number : UInt64} {key : Bytes} {hash : Hash}

theorem mem_newIterator {start : Bytes} :
    key ∈ newIterator db start ↔ (db.lookup key).isSome ∧ start <+: key := by
  simp [newIterator, AList.lookup_isSome, AList.mem_keys]

/-- The loop takes a hash from the key of its header only. -/
theorem eq_headerKey_iff (hpre : headerKeyPrefix number <+: key) :
    (if key.length = (headerKeyPrefix number).length + 32 then
      some (copyBytes 32 (key.drop (key.length - 32))) else none) = some hash ↔
      key = headerKey number hash := by
  have hkey : headerKey number hash = headerKeyPrefix number ++ hash.toList := by
    simp [headerKey, headerKeyPrefix, joinKey]
  obtain ⟨rest, rfl⟩ := hpre
  rw [hkey, List.append_cancel_left_eq]
  constructor
  · intro h
    split_ifs at h with hlen
    rw [List.length_append, Nat.add_right_inj] at hlen
    obtain ⟨v, rfl⟩ : ∃ v : Hash, v.toList = rest := ⟨⟨rest, hlen⟩, rfl⟩
    exact congrArg List.Vector.toList (by simpa using h)
  · rintro rfl
    simp

/-- **Keys never collide.**  Different entries have different keys, and for any content of the
    database `ReadAllHashes` returns exactly the hashes of the headers that are stored with the
    number, each once. -/
theorem dbKeys_distinct :
    Function.Injective DbEntry.key ∧
      ∀ (db : GoMap Bytes Bytes) (number : UInt64),
        (∀ hash, hash ∈ readAllHashes db number ↔ (db.lookup (headerKey number hash)).isSome) ∧
          (readAllHashes db number).Nodup := by
  refine ⟨DbEntry.key_injective, fun db number => ⟨fun hash => ?_, ?_⟩⟩
  · rw [readAllHashes, List.mem_filterMap]
    constructor
    · rintro ⟨key, hkey, hhash⟩
      obtain ⟨hfound, hpre⟩ := mem_newIterator.1 hkey
      rwa [(eq_headerKey_iff hpre).1 hhash] at hfound
    · intro hfound
      have hpre : headerKeyPrefix number <+: headerKey number hash := by
        simp [headerKey, headerKeyPrefix, joinKey]
      exact ⟨_, mem_newIterator.2 ⟨hfound, hpre⟩, (eq_headerKey_iff hpre).2 rfl⟩
  · have hkeys : (newIterator db (headerKeyPrefix number)).Nodup :=
      (List.mergeSort_perm _ _).nodup_iff.2 (db.nodupKeys.filter _)
    refine List.pairwise_filterMap.2 (hkeys.imp_of_mem fun {key key'} hkey hkey' hne => ?_)
    rintro hash hhash _ hhash' rfl
    rw [eq_headerKey_iff (mem_newIterator.1 hkey).2] at hhash
    rw [eq_headerKey_iff (mem_newIterator.1 hkey').2] at hhash'
    exact hne (hhash.trans hhash'.symm)

end Benzene.Rawdb
