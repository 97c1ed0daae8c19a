import Benzene.Core.ChainReads
import Benzene.Core.InsertChain

/-!
# The canonical index under imports

`CanonicalChain` is what the index is for: it is defined from zero to the head, and the blocks
behind it are numbered and linked.  `Represents` says so by a path of headers, the abstract chain:
the index lists their hashes, the database holds them with their bodies, and the last one is the
head.

A block that is stored leaves the path as it is (`Indexed.storeBlock`), and one that becomes the
head with the next number extends it (`Represents.adoptBlock`).  From these, an import whose
blocks count up from the head keeps a path (`Represents.insertChain`).
-/

namespace Benzene.BlockChain

variable {L : BlockChainLib} {known : Header → Prop} {bc bc' : BlockChain L} {path : List Header}
  {block : Block} {call : ImportCall}

/-- The canonical index is defined exactly up to the head, the block at an index has its number,
    and its parent hash is the hash of the block at the index before. -/
structure CanonicalChain (bc : BlockChain L) : Prop where
  defined_iff : ∀ n, bc.db.readCanonicalHash n ≠ zeroHash ↔ n ≤ bc.currentBlock.numberU64
  block : ∀ n ≤ bc.currentBlock.numberU64, ∃ b,
    bc.db.readBlock (bc.db.readCanonicalHash n) n = some b ∧
      L.blockHash b = bc.db.readCanonicalHash n ∧ b.header.number = n.toNat ∧
      (0 < n → b.header.parentHash = bc.db.readCanonicalHash (n - 1))
  head : bc.db.readCanonicalHash bc.currentBlock.numberU64 = L.blockHash bc.currentBlock

/-- The index lists the hashes of a linked path of known headers, which are held. -/
structure Indexed (known : Header → Prop) (bc : BlockChain L) (path : List Header) : Prop where
  sound : Sound known bc
  linked : Linked L.headerHash Header.parentHash Header.number path
  length_le : path.length ≤ 2 ^ 64
  known_of_mem : ∀ h ∈ path, known h
  held : ∀ h ∈ path, bc.db.Held L.toChainLib h
  canonical : ∀ n, bc.db.canonical.lookup n = path[n.toNat]?.map L.headerHash

/-- The last header of the path is that of the head. -/
structure Represents (known : Header → Prop) (bc : BlockChain L) (path : List Header) : Prop
    extends Indexed known bc path where
  currentBlock : path.getLast? = some bc.currentBlock.header
  currentHeader : bc.currentHeader = bc.currentBlock.header
  headBlockHash : bc.db.headBlockHash = L.blockHash bc.currentBlock
  headHeaderHash : bc.db.headHeaderHash = L.blockHash bc.currentBlock

/-- The index and what it lists are the same, and the caches keep what they are for. -/
structure SameIndex (known : Header → Prop) (bc bc' : BlockChain L) : Prop where
  db : (bc'.db.headers, bc'.db.bodies, bc'.db.headerNumbers, bc'.db.canonical) =
    (bc.db.headers, bc.db.bodies, bc.db.headerNumbers, bc.db.canonical)
  sound : Sound known bc → Sound known bc'

theorem Indexed.congr (hi : Indexed known bc path) (h : SameIndex known bc bc') :
    Indexed known bc' path := by
  have hdb := h.db
  simp only [Prod.mk.injEq] at hdb
  obtain ⟨h₁, h₂, h₃, h₄⟩ := hdb
  exact ⟨h.sound hi.sound, hi.linked, hi.length_le, hi.known_of_mem, fun x hx =>
    ⟨h₁ ▸ (hi.held x hx).header, h₂ ▸ (hi.held x hx).body, h₃ ▸ (hi.held x hx).number⟩,
    h₄ ▸ hi.canonical⟩

theorem Represents.congr (hr : Represents known bc path) (h : SameIndex known bc bc')
    (hheads : (bc'.currentBlock, bc'.currentHeader, bc'.db.headBlockHash, bc'.db.headHeaderHash) =
      (bc.currentBlock, bc.currentHeader, bc.db.headBlockHash, bc.db.headHeaderHash)) :
    Represents known bc' path := by
  simp only [Prod.mk.injEq] at hheads
  obtain ⟨h₁, h₂, h₃, h₄⟩ := hheads
  exact ⟨hr.toIndexed.congr h, h₁ ▸ hr.currentBlock, h₁ ▸ h₂ ▸ hr.currentHeader,
    h₁ ▸ h₃ ▸ hr.headBlockHash, h₁ ▸ h₄ ▸ hr.headHeaderHash⟩

/-! ## Numbers and hashes along the path -/

namespace Indexed

variable {i : ℕ} {h : Header}

section

variable (hi : Indexed known bc path)

include hi

theorem number_lt (hh : h ∈ path) : h.number < 2 ^ 64 :=
  lt_of_lt_of_le (hi.linked.number_lt hh) hi.length_le

theorem toNat_numberU64 (hh : h ∈ path) : h.numberU64.toNat = h.number :=
  UInt64.toNat_ofNat_of_lt' (hi.number_lt hh)

theorem readCanonicalHash_eq {n : UInt64} (hh : path[n.toNat]? = some h) :
    bc.db.readCanonicalHash n = L.headerHash h := by
  rw [ChainDb.readCanonicalHash, hi.canonical, hh]
  rfl

theorem readCanonicalHash_ne_zero_iff (n : UInt64) :
    bc.db.readCanonicalHash n ≠ zeroHash ↔ n.toNat < path.length := by
  rw [ChainDb.readCanonicalHash, hi.canonical]
  rcases Nat.lt_or_ge n.toNat path.length with hlt | hge
  · rw [List.getElem?_eq_getElem hlt]
    exact iff_of_true (L.headerHash_ne_zero _) hlt
  · rw [List.getElem?_eq_none hge]
    exact iff_of_false (fun hne => hne rfl) (by omega)

end

end Indexed

namespace Represents

section

variable (hr : Represents known bc path)

include hr

theorem currentBlock_mem : bc.currentBlock.header ∈ path :=
  List.mem_of_getLast? hr.currentBlock

/-- The number of the head is one less than the length of the path. -/
theorem number_head : bc.currentBlock.header.number + 1 = path.length :=
  hr.linked.number_getLast hr.currentBlock

theorem toNat_head : bc.currentBlock.numberU64.toNat + 1 = path.length := by
  rw [← hr.number_head]
  exact congrArg (· + 1) (hr.toNat_numberU64 hr.currentBlock_mem)

/-- A chain that is represented by a path is canonical. -/
theorem canonicalChain : CanonicalChain bc := by
  have hhead := hr.toNat_head
  refine ⟨fun n => ?_, fun n hn => ?_, ?_⟩
  · rw [hr.readCanonicalHash_ne_zero_iff, UInt64.le_iff_toNat_le]
    omega
  · rw [UInt64.le_iff_toNat_le] at hn
    obtain ⟨h, hget⟩ : ∃ h, path[n.toNat]? = some h := ⟨_, List.getElem?_eq_getElem (by omega)⟩
    have hmem : h ∈ path := List.mem_of_getElem? hget
    have hnumber : h.number = n.toNat := hr.linked.number_eq hget
    have hn64 : h.numberU64 = n := by
      rw [← UInt64.toNat_inj, hr.toNat_numberU64 hmem, hnumber]
    obtain ⟨txs, hread⟩ := (hr.held h hmem).readBlock
    rw [hr.readCanonicalHash_eq hget]
    rw [hn64] at hread
    refine ⟨_, hread, rfl, hnumber, fun hpos => ?_⟩
    -- the header before is at the index before
    have hpred := toNat_sub_one_add_one (UInt64.lt_iff_toNat_lt.1 hpos)
    obtain ⟨p, hp⟩ : ∃ p, path[(n - 1).toNat]? = some p :=
      ⟨_, List.getElem?_eq_getElem (by omega)⟩
    rw [hr.readCanonicalHash_eq hp]
    exact hr.linked.parent_eq hp (by rwa [hpred])
  · refine hr.readCanonicalHash_eq ?_
    rw [Block.numberU64, hr.toNat_numberU64 hr.currentBlock_mem]
    exact hr.linked.getElem?_number hr.currentBlock_mem

end

end Represents

/-! ## Storing a block -/

variable {h : Header}

theorem held_storeBlock (bc : BlockChain L) (block : Block) :
    (bc.storeBlock block).db.Held L.toChainLib block.header where
  header := AList.lookup_insert _
  body := ⟨_, AList.lookup_insert _⟩
  number := AList.lookup_insert _

/-- What is held stays held, since another header of this hash would be unknown. -/
theorem Held.storeBlock (hapart : HashesApart L.headerHash known) (hk : known h)
    (hblock : known block.header) (hheld : bc.db.Held L.toChainLib h) :
    (bc.storeBlock block).db.Held L.toChainLib h := by
  by_cases heq : h = block.header
  · subst heq
    exact held_storeBlock bc block
  · have hne : L.headerHash h ≠ L.blockHash block := fun hhash =>
      heq (hapart h block.header hk hblock hhash)
    have hkey : (h.numberU64, L.headerHash h) ≠ (block.numberU64, L.blockHash block) :=
      fun hpair => hne (Prod.mk.inj hpair).2
    exact ⟨(AList.lookup_insert_ne hkey).trans hheld.header,
      hheld.body.imp fun _ hbody => (AList.lookup_insert_ne hkey).trans hbody,
      (AList.lookup_insert_ne hne).trans hheld.number⟩

theorem Sound.storeBlock (hs : Sound known bc) (hblock : known block.header) :
    Sound known (bc.storeBlock block) where
  headers := by
    intro n hash h hlookup
    rcases GoMap.lookup_insert_cases hlookup with ⟨hkey, rfl⟩ | ⟨-, hold⟩
    · obtain ⟨rfl, rfl⟩ := Prod.mk.inj hkey
      exact ⟨hblock, rfl, rfl⟩
    · exact hs.headers hold
  headerNumbers := by
    intro n hash hlookup
    rcases GoMap.lookup_insert_cases hlookup with ⟨rfl, rfl⟩ | ⟨-, hold⟩
    · exact ⟨block.header, hblock, rfl, rfl⟩
    · exact hs.headerNumbers hold
  headerCache := hs.headerCache
  numberCache := hs.numberCache
  blockCache := hs.blockCache

theorem Indexed.storeBlock (hi : Indexed known bc path) (hapart : HashesApart L.headerHash known)
    (hblock : known block.header) : Indexed known (bc.storeBlock block) path where
  sound := hi.sound.storeBlock hblock
  linked := hi.linked
  length_le := hi.length_le
  known_of_mem := hi.known_of_mem
  held h hh := Held.storeBlock hapart (hi.known_of_mem h hh) hblock (hi.held h hh)
  canonical := hi.canonical

theorem Represents.storeBlock (hr : Represents known bc path)
    (hapart : HashesApart L.headerHash known) (hblock : known block.header) :
    Represents known (bc.storeBlock block) path :=
  { hr.toIndexed.storeBlock hapart hblock with
    currentBlock := hr.currentBlock
    currentHeader := hr.currentHeader
    headBlockHash := hr.headBlockHash
    headHeaderHash := hr.headHeaderHash }

/-! ## A new head -/

/-- The block names the head as its parent and has the next number. -/
structure Extends (bc : BlockChain L) (block : Block) : Prop where
  parentHash : block.header.parentHash = L.blockHash bc.currentBlock
  number : block.header.number = bc.currentBlock.header.number + 1
  number_lt : block.header.number < 2 ^ 64

theorem Extends.toNat_numberU64 (he : Extends bc block) :
    block.numberU64.toNat = block.header.number :=
  UInt64.toNat_ofNat_of_lt' he.number_lt

/-- A block whose hash is not the canonical one of its number moves all heads. -/
theorem writeHeadBlock_of_ne
    (hne : bc.db.readCanonicalHash block.numberU64 ≠ L.blockHash block) :
    bc.writeHeadBlock block =
      { bc with
        db :=
          { (bc.db.writeCanonicalHash (L.blockHash block)
              block.numberU64).writeTxLookupEntriesByBlock L.toChainLib block with
            headBlockHash := L.blockHash block
            headHeaderHash := L.blockHash block
            headFastBlockHash := L.blockHash block }
        currentHeader := block.header
        currentBlock := block
        currentFastBlock := block } := by
  simp only [writeHeadBlock, hne, ne_eq, not_false_eq_true, decide_true, if_true]
  rfl

theorem Represents.writeHeadBlock (hr : Represents known bc path) (he : Extends bc block)
    (hblock : known block.header) (hheld : bc.db.Held L.toChainLib block.header) :
    Represents known (bc.writeHeadBlock block) (path ++ [block.header]) := by
  have hlen : block.numberU64.toNat = path.length := by
    rw [he.toNat_numberU64, he.number, hr.number_head]
  have hne : bc.db.readCanonicalHash block.numberU64 ≠ L.blockHash block := by
    have hzero : bc.db.readCanonicalHash block.numberU64 = zeroHash := by
      by_contra hne
      have hlt := (hr.readCanonicalHash_ne_zero_iff _).1 hne
      omega
    rw [hzero]
    exact (L.headerHash_ne_zero _).symm
  rw [writeHeadBlock_of_ne hne]
  have hmem : ∀ h ∈ path ++ [block.header], h ∈ path ∨ h = block.header := by
    intro h hh
    simpa using hh
  exact
    { sound := hr.sound.congr rfl
      linked := hr.linked.concat hr.currentBlock he.parentHash he.number
      length_le := by
        have hlt := he.number_lt
        rw [he.number, hr.number_head] at hlt
        rw [List.length_append, List.length_singleton]
        omega
      known_of_mem := fun h hh => (hmem h hh).elim (hr.known_of_mem h) fun heq => heq ▸ hblock
      held := fun h hh => by
        rcases hmem h hh with hh | rfl
        · exact ⟨(hr.held h hh).header, (hr.held h hh).body, (hr.held h hh).number⟩
        · exact ⟨hheld.header, hheld.body, hheld.number⟩
      canonical := fun n => by
        change (bc.db.canonical.insert block.numberU64 (L.blockHash block)).lookup n = _
        rw [GoMap.lookup_insert_eq]
        split_ifs with hn
        · rw [hn, hlen, List.getElem?_concat_length]
          rfl
        · rw [hr.canonical, List.getElem?_append]
          split_ifs with hlt
          · rfl
          · have hne' : n.toNat ≠ path.length := fun heq =>
              hn (UInt64.toNat_inj.1 (heq.trans hlen.symm))
            rw [List.getElem?_eq_none (by omega), List.getElem?_eq_none
              (by rw [List.length_singleton]; omega)]
      currentBlock := List.getLast?_concat
      currentHeader := rfl
      headBlockHash := rfl
      headHeaderHash := rfl }

/-! ## Imports -/

namespace Represents

theorem recached (hr : Represents known bc path) (hrec : Recached known bc bc') :
    Represents known bc' path := by
  have hs := hrec.sound
  obtain ⟨_, _, _, rfl⟩ := hrec.eq
  exact hr.congr ⟨rfl, hs⟩ rfl

/-- A block on top of the head, once stored, becomes the head. -/
theorem adoptBlock (call : ImportCall) (hr : Represents known bc path)
    (hapart : HashesApart L.headerHash known) (he : Extends bc block)
    (hblock : known block.header) (stateDb : L.StateDb) :
    Represents known (BlockChain.adoptBlock call (bc.storeBlock block) block stateDb)
      (path ++ [block.header]) ∧
    (BlockChain.adoptBlock call (bc.storeBlock block) block stateDb).currentBlock = block := by
  have hne : block.numberU64 ≠ bc.currentBlock.numberU64 := fun heq => by
    have htoNat := he.toNat_numberU64
    have hhead : bc.currentBlock.numberU64.toNat = bc.currentBlock.header.number :=
      hr.toNat_numberU64 hr.currentBlock_mem
    rw [heq, hhead, he.number] at htoNat
    omega
  have hstored : Represents known { bc.storeBlock block with stateDb := stateDb } path :=
    (hr.storeBlock hapart hblock).congr ⟨rfl, fun hs => hs.congr rfl⟩ rfl
  have hhead := hstored.writeHeadBlock ⟨he.parentHash, he.number, he.number_lt⟩ hblock
    (held_storeBlock bc block)
  have hadopt : BlockChain.adoptBlock call (bc.storeBlock block) block stateDb =
      let bc := { bc.storeBlock block with stateDb := stateDb }.writeHeadBlock block
      { bc with futureBlocks := bc.futureBlocks.remove (L.blockHash block) } := by
    rw [BlockChain.adoptBlock]
    exact congrArg (fun bc : BlockChain L =>
      { bc with futureBlocks := bc.futureBlocks.remove (L.blockHash block) })
      (if_pos (Or.inl hne))
  rw [hadopt]
  exact ⟨hhead.congr ⟨rfl, fun hs => hs.congr rfl⟩ rfl, rfl⟩

end Represents

variable {previous : Option Header}

theorem parentHeader_recached {r : BlockChain L × Header}
    (h : bc.parentHeader previous block = some r) : Recached known bc r.1 := by
  cases previous with
  | some parent =>
    obtain rfl := Option.some.inj h
    exact .refl bc
  | none =>
    rw [parentHeader_first] at h
    obtain ⟨parent, -, rfl⟩ := Option.map_eq_some_iff.1 h
    exact getHeader_recached bc _ _

/-- The numbers of the blocks count up from `n + 1`, and fit 64 bits. -/
def CountsUp (n : ℕ) (chain : List Block) : Prop :=
  ∀ i b, chain[i]? = some b → b.header.number = n + 1 + i ∧ b.header.number < 2 ^ 64

/-- If the chain names the head as the parent of its first block, its numbers count up from the
    head. -/
def Follows (bc : BlockChain L) (chain : List Block) : Prop :=
  ∀ first ∈ chain.head?, first.header.parentHash = L.blockHash bc.currentBlock →
    CountsUp bc.currentBlock.header.number chain

variable {chain : List Block}

theorem CountsUp.tail {n : ℕ} (h : CountsUp n (block :: chain)) :
    CountsUp block.header.number chain := by
  intro i b hb
  have hfirst := (h 0 block rfl).1
  have hnext := h (i + 1) b hb
  exact ⟨by omega, hnext.2⟩

/-- The import of one block keeps a path; a block that succeeds was a child of the head, and is
    the new one. -/
theorem Represents.importBlock (hr : Represents known bc path)
    (hapart : HashesApart L.headerHash known) (hblock : known block.header)
    (he : block.header.parentHash = L.blockHash bc.currentBlock → Extends bc block)
    {rest : List (Block × Option ImportError)} {err : Option ImportError}
    (h : bc.importBlock call previous block rest = some (bc', err)) :
    (∃ path', Represents known bc' path') ∧ (err = none →
      block.header.parentHash = L.blockHash bc.currentBlock ∧ bc'.currentBlock = block) := by
  obtain ⟨headerCache, parent, hparent, hcases⟩ := importBlock_cases h
  have hr₁ : Represents known { bc with headerCache := headerCache } path :=
    hr.recached (parentHeader_recached hparent)
  rcases hcases with heq | hw
  · obtain ⟨rfl, rfl⟩ := Prod.mk.inj heq
    exact ⟨⟨path, hr₁⟩, fun herr => by cases herr⟩
  · cases hw with
    | mismatch => exact ⟨⟨path, hr₁⟩, fun herr => by cases herr⟩
    | failed => exact ⟨⟨path, hr₁.storeBlock hapart hblock⟩, fun herr => by cases herr⟩
    | adopted hchild stateDb =>
      have he₁ := he hchild
      have hadopt := hr₁.adoptBlock call hapart
        ⟨he₁.parentHash, he₁.number, he₁.number_lt⟩ hblock stateDb
      exact ⟨⟨_, hadopt.1⟩, fun _ => ⟨hchild, hadopt.2⟩⟩

/-- The import loop keeps a path, by induction on the blocks. -/
theorem Represents.importLoop (hr : Represents known bc path)
    (hapart : HashesApart L.headerHash known) (hchain : ∀ b ∈ chain, known b.header)
    (hfollows : Follows bc chain) {i : ℕ} {r : Imported L}
    (h : BlockChain.importLoop call bc i previous (accepted chain) = some r) :
    ∃ path', Represents known r.1 path' := by
  induction chain generalizing bc path i previous with
  | nil =>
    obtain rfl := Option.some.inj h
    exact ⟨path, hr⟩
  | cons block chain ih =>
    rw [importLoop_cons] at h
    split_ifs at h
    · obtain rfl := Option.some.inj h
      exact ⟨path, hr⟩
    · obtain rfl := Option.some.inj h
      exact ⟨path, hr.congr ⟨rfl, fun hs => hs.congr rfl⟩ rfl⟩
    · obtain ⟨⟨bc₁, err⟩, hblock, hloop⟩ := Option.bind_eq_some_iff.1 h
      have hcounts := hfollows block rfl
      obtain ⟨⟨path₁, hr₁⟩, hok⟩ := hr.importBlock hapart (hchain block List.mem_cons_self)
        (fun hparent => ⟨hparent, (hcounts hparent 0 block rfl).1,
          (hcounts hparent 0 block rfl).2⟩) hblock
      cases err with
      | some err =>
        obtain rfl := Option.some.inj hloop
        exact ⟨path₁, hr₁⟩
      | none =>
        obtain ⟨hparent, hhead⟩ := hok rfl
        refine ih hr₁ (fun b hb => hchain b (List.mem_cons_of_mem _ hb)) ?_ hloop
        intro first _ _
        rw [hhead]
        exact (hcounts hparent).tail

/-- An import whose blocks count up from the head keeps a path. -/
theorem Represents.insertChain (hr : Represents known bc path)
    (hapart : HashesApart L.headerHash known) (hchain : ∀ b ∈ chain, known b.header)
    (hfollows : Follows bc chain) {coin : Hash → Bool} {maxTime : UInt64} {r : Imported L}
    (h : bc.insertChain (shippedCall coin maxTime) chain = some r) :
    ∃ path', Represents known r.1 path' := by
  rw [insertChain_shipped] at h
  split_ifs at h
  · obtain rfl := Option.some.inj h
    exact ⟨path, hr⟩
  · obtain rfl := Option.some.inj h
    exact ⟨path, hr⟩
  · exact hr.importLoop hapart hchain hfollows h

end Benzene.BlockChain
