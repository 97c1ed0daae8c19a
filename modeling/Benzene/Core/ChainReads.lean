import Benzene.Common.Linked
import Benzene.Core.BlockChain

/-!
# Reading a chain

The caches of a chain are keyed by hash alone, and what they hold outlives the database entries it
came from.  As long as every header in the database and in the caches stands under its own hash
and number (`Sound`), and the hashes tell the headers apart, a read returns what the database
holds under the hash, whatever the number asked for.
-/

namespace Benzene

/-- The header, its body and its number are in the database. -/
structure ChainDb.Held (L : ChainLib) (db : ChainDb) (h : Header) : Prop where
  header : db.headers.lookup (h.numberU64, L.headerHash h) = some h
  body : ∃ txs, db.bodies.lookup (h.numberU64, L.headerHash h) = some txs
  number : db.headerNumbers.lookup (L.headerHash h) = some h.numberU64

theorem ChainDb.Held.readBlock {L : ChainLib} {db : ChainDb} {h : Header} (hheld : db.Held L h) :
    ∃ txs, db.readBlock (L.headerHash h) h.numberU64 = some ⟨h, txs⟩ := by
  obtain ⟨txs, hbody⟩ := hheld.body
  exact ⟨txs, by simp [ChainDb.readBlock, ChainDb.readHeader, ChainDb.readBody, hheld.header,
    hbody]⟩

namespace BlockChain

variable {L : BlockChainLib}

/-- What the database and the caches hold are known headers under their own hashes and numbers. -/
structure Sound (known : Header → Prop) (bc : BlockChain L) : Prop where
  headers : ∀ {n hash h}, bc.db.headers.lookup (n, hash) = some h →
    known h ∧ L.headerHash h = hash ∧ h.numberU64 = n
  headerNumbers : ∀ {n hash}, bc.db.headerNumbers.lookup hash = some n →
    ∃ h, known h ∧ L.headerHash h = hash ∧ h.numberU64 = n
  headerCache : bc.headerCache.All fun hash h => known h ∧ L.headerHash h = hash
  numberCache : bc.numberCache.All fun hash n =>
    ∃ h, known h ∧ L.headerHash h = hash ∧ h.numberU64 = n
  blockCache : bc.blockCache.All fun hash b => known b.header ∧ L.blockHash b = hash

/-- A read: only the caches change, and they keep what they are for. -/
structure Recached (known : Header → Prop) (bc bc' : BlockChain L) : Prop where
  eq : ∃ headerCache numberCache blockCache, bc' =
    { bc with headerCache := headerCache, numberCache := numberCache, blockCache := blockCache }
  sound : Sound known bc → Sound known bc'

variable {known : Header → Prop}

theorem Recached.refl (bc : BlockChain L) : Recached known bc bc :=
  ⟨⟨_, _, _, rfl⟩, id⟩

theorem Recached.trans {bc bc₁ bc₂ : BlockChain L} (h : Recached known bc bc₁)
    (h' : Recached known bc₁ bc₂) : Recached known bc bc₂ := by
  refine ⟨?_, h'.sound ∘ h.sound⟩
  obtain ⟨_, _, _, rfl⟩ := h.eq
  obtain ⟨_, _, _, rfl⟩ := h'.eq
  exact ⟨_, _, _, rfl⟩

variable {known : Header → Prop} {bc : BlockChain L} {h : Header} {b : Block} {hash : Hash}
  {n : UInt64}

theorem Sound.mono {known' : Header → Prop} (hs : Sound known bc) (hk : ∀ h, known h → known' h) :
    Sound known' bc where
  headers hh := ⟨hk _ (hs.headers hh).1, (hs.headers hh).2⟩
  headerNumbers hn :=
    let ⟨h, hh, heq⟩ := hs.headerNumbers hn
    ⟨h, hk h hh, heq⟩
  headerCache _ _ hmem := ⟨hk _ (hs.headerCache _ _ hmem).1, (hs.headerCache _ _ hmem).2⟩
  numberCache _ _ hmem :=
    let ⟨h, hh, heq⟩ := hs.numberCache _ _ hmem
    ⟨h, hk h hh, heq⟩
  blockCache _ _ hmem := ⟨hk _ (hs.blockCache _ _ hmem).1, (hs.blockCache _ _ hmem).2⟩

/-- Only what is read counts. -/
theorem Sound.congr {bc' : BlockChain L} (hs : Sound known bc)
    (h : (bc'.db.headers, bc'.db.headerNumbers, bc'.headerCache, bc'.numberCache, bc'.blockCache) =
      (bc.db.headers, bc.db.headerNumbers, bc.headerCache, bc.numberCache, bc.blockCache)) :
    Sound known bc' := by
  simp only [Prod.mk.injEq] at h
  obtain ⟨h₁, h₂, h₃, h₄, h₅⟩ := h
  exact ⟨h₁ ▸ hs.headers, h₂ ▸ hs.headerNumbers, h₃ ▸ hs.headerCache, h₄ ▸ hs.numberCache,
    h₅ ▸ hs.blockCache⟩

/-! ## Headers -/

theorem getHeader_recached (bc : BlockChain L) (hash : Hash) (n : UInt64) :
    Recached known bc (bc.getHeader hash n).1 :=
  ⟨⟨_, _, _, rfl⟩, fun hs => { hs with
    headerCache := hs.headerCache.fetch fun _ hstored =>
      ⟨(hs.headers hstored).1, (hs.headers hstored).2.1⟩ }⟩

theorem Sound.known_of_getHeader (hs : Sound known bc) (hget : (bc.getHeader hash n).2 = some h) :
    known h ∧ L.headerHash h = hash := by
  rcases Lru.fetch_eq_some hget with hmem | hstored
  · exact hs.headerCache hash h hmem
  · exact ⟨(hs.headers hstored).1, (hs.headers hstored).2.1⟩

/-- A header that is stored is found under its hash and number. -/
theorem Sound.getHeader_stored (hs : Sound known bc) (hapart : HashesApart L.headerHash known)
    (hread : bc.db.readHeader (L.headerHash h) h.numberU64 = some h) :
    (bc.getHeader (L.headerHash h) h.numberU64).2 = some h := by
  have hk : known h := (hs.headers hread).1
  have hstored : (bc.db.readHeader (L.headerHash h) h.numberU64).isSome :=
    Option.isSome_iff_exists.2 ⟨h, hread⟩
  obtain ⟨h', hget⟩ := Option.isSome_iff_exists.1
    (Lru.fetch_isSome (c := bc.headerCache) (k := L.headerHash h) hstored)
  have hget' : (bc.getHeader (L.headerHash h) h.numberU64).2 = some h' := hget
  obtain ⟨hk', hhash⟩ := hs.known_of_getHeader hget'
  rw [hget', hapart h' h hk' hk hhash]

/-! ## Numbers -/

theorem getBlockNumber_recached (bc : BlockChain L) (hash : Hash) :
    Recached known bc (bc.getBlockNumber hash).1 :=
  ⟨⟨_, _, _, rfl⟩, fun hs => { hs with
    numberCache := hs.numberCache.fetch fun _ hstored => hs.headerNumbers hstored }⟩

theorem Sound.getBlockNumber_held (hs : Sound known bc) (hapart : HashesApart L.headerHash known)
    (hk : known h) (hheld : bc.db.Held L.toChainLib h) :
    (bc.getBlockNumber (L.headerHash h)).2 = some h.numberU64 := by
  have hstored : (bc.db.readHeaderNumber (L.headerHash h)).isSome :=
    Option.isSome_iff_exists.2 ⟨_, hheld.number⟩
  obtain ⟨n, hget⟩ := Option.isSome_iff_exists.1
    (Lru.fetch_isSome (c := bc.numberCache) (k := L.headerHash h) hstored)
  have hfound : ∃ h', known h' ∧ L.headerHash h' = L.headerHash h ∧ h'.numberU64 = n := by
    rcases Lru.fetch_eq_some hget with hmem | hread
    · exact hs.numberCache _ _ hmem
    · exact hs.headerNumbers hread
  obtain ⟨h', hk', hhash, rfl⟩ := hfound
  obtain rfl := hapart h' h hk' hk hhash
  exact hget

/-! ## Blocks -/

theorem readBlock_eq_some {db : ChainDb} (hread : db.readBlock hash n = some b) :
    db.headers.lookup (n, hash) = some b.header := by
  obtain ⟨header, hheader, hrest⟩ := Option.bind_eq_some_iff.1 hread
  obtain ⟨body, -, hb⟩ := Option.bind_eq_some_iff.1 hrest
  obtain rfl := Option.some.inj hb
  exact hheader

theorem getBlock_recached (bc : BlockChain L) (hash : Hash) (n : UInt64) :
    Recached known bc (bc.getBlock hash n).1 := by
  unfold BlockChain.getBlock
  cases hpeek : bc.blockCache.peek hash with
  | some b =>
    refine ⟨⟨_, _, _, rfl⟩, fun hs => { hs with blockCache := hs.blockCache.add ?_ }⟩
    exact hs.blockCache hash b (Lru.mem_of_peek hpeek)
  | none =>
    cases hread : bc.db.readBlock hash n with
    | none => exact .refl bc
    | some b =>
      refine ⟨⟨_, _, _, rfl⟩, fun hs => { hs with blockCache := hs.blockCache.add ⟨?_, rfl⟩ }⟩
      exact (hs.headers (readBlock_eq_some hread)).1

theorem Sound.known_of_getBlock (hs : Sound known bc) (hget : (bc.getBlock hash n).2 = some b) :
    known b.header ∧ L.blockHash b = hash := by
  unfold BlockChain.getBlock at hget
  cases hpeek : bc.blockCache.peek hash with
  | some b' =>
    rw [hpeek] at hget
    obtain rfl := Option.some.inj hget
    exact hs.blockCache hash b' (Lru.mem_of_peek hpeek)
  | none =>
    cases hread : bc.db.readBlock hash n with
    | none => simp [hpeek, hread] at hget
    | some b' =>
      obtain ⟨hk, hhash, -⟩ := hs.headers (readBlock_eq_some hread)
      rw [hpeek, hread] at hget
      obtain rfl := Option.some.inj hget
      exact ⟨hk, hhash⟩

/-- The block of a header that is held is found. -/
theorem Sound.getBlock_held (hs : Sound known bc) (hapart : HashesApart L.headerHash known)
    (hk : known h) (hheld : bc.db.Held L.toChainLib h) :
    ∃ b, (bc.getBlock (L.headerHash h) h.numberU64).2 = some b ∧ b.header = h := by
  have hsome : ∃ b, (bc.getBlock (L.headerHash h) h.numberU64).2 = some b := by
    unfold BlockChain.getBlock
    cases bc.blockCache.peek (L.headerHash h) with
    | some b => exact ⟨b, rfl⟩
    | none =>
      obtain ⟨txs, hread⟩ := hheld.readBlock
      rw [hread]
      exact ⟨_, rfl⟩
  obtain ⟨b, hb⟩ := hsome
  obtain ⟨hk', hhash⟩ := hs.known_of_getBlock hb
  exact ⟨b, hb, hapart b.header h hk' hk hhash⟩

/-! ## By hash or number alone -/

theorem getHeaderByHash_recached (bc : BlockChain L) (hash : Hash) :
    Recached known bc (bc.getHeaderByHash hash).1 := by
  have hrec : Recached known bc _ := getBlockNumber_recached bc hash
  rw [getHeaderByHash]
  cases hget : bc.getBlockNumber hash with
  | mk bc₁ n? =>
    rw [hget] at hrec
    cases n? with
    | none => exact hrec
    | some n => exact hrec.trans (getHeader_recached bc₁ hash n)

theorem Sound.known_of_getHeaderByHash (hs : Sound known bc)
    (hget : (bc.getHeaderByHash hash).2 = some h) : known h := by
  have hs₁ := (getBlockNumber_recached bc hash).sound hs
  rw [getHeaderByHash] at hget
  cases heq : bc.getBlockNumber hash with
  | mk bc₁ n? =>
    rw [heq] at hs₁ hget
    cases n? with
    | none => cases hget
    | some n => exact (hs₁.known_of_getHeader hget).1

theorem getBlockByHash_recached (bc : BlockChain L) (hash : Hash) :
    Recached known bc (bc.getBlockByHash hash).1 := by
  have hrec : Recached known bc _ := getBlockNumber_recached bc hash
  rw [getBlockByHash]
  cases hget : bc.getBlockNumber hash with
  | mk bc₁ n? =>
    rw [hget] at hrec
    cases n? with
    | none => exact hrec
    | some n => exact hrec.trans (getBlock_recached bc₁ hash n)

theorem getHeaderByNumber_recached (bc : BlockChain L) (n : UInt64) :
    Recached known bc (bc.getHeaderByNumber n).1 := by
  rw [getHeaderByNumber]
  split_ifs
  · exact .refl bc
  · exact getHeader_recached bc _ n

theorem getBlockByNumber_recached (bc : BlockChain L) (n : UInt64) :
    Recached known bc (bc.getBlockByNumber n).1 := by
  rw [getBlockByNumber]
  split_ifs
  · exact .refl bc
  · exact getBlock_recached bc _ n

end BlockChain

end Benzene
