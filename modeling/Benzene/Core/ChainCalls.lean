import Benzene.Core.CanonicalChain

/-!
# What the calls on a chain keep

No import and no rewind, whatever it does to the heads and to the index, makes the cache of commit
signatures, and none brings in a header under another hash than its own (`Keeps`).
-/

namespace Benzene.BlockChain

variable {L : BlockChainLib} {known : Header → Prop} {bc bc' : BlockChain L} {call : ImportCall}
  {block : Block} {chain : List Block} {fuel : ℕ} {hash : Hash}

/-- What every call keeps: the cache of commit signatures, and the headers under their hashes. -/
structure Keeps (known : Header → Prop) (bc bc' : BlockChain L) : Prop where
  lastCommitsCache : bc'.lastCommitsCache = bc.lastCommitsCache
  sound : Sound known bc → Sound known bc'

theorem Keeps.refl (bc : BlockChain L) : Keeps known bc bc := ⟨rfl, id⟩

theorem Keeps.trans {bc'' : BlockChain L} (h : Keeps known bc bc') (h' : Keeps known bc' bc'') :
    Keeps known bc bc'' :=
  ⟨h'.lastCommitsCache.trans h.lastCommitsCache, h'.sound ∘ h.sound⟩

theorem Moved.keeps (hm : Moved known bc bc') : Keeps known bc bc' :=
  ⟨hm.lastCommitsCache, hm.sound⟩

/-! ## Imports -/

theorem adoptBlock_keeps (bc : BlockChain L) (stateDb : L.StateDb) :
    Keeps known bc (adoptBlock call bc block stateDb) := by
  unfold adoptBlock writeHeadBlock
  dsimp only
  split_ifs <;> exact ⟨rfl, fun hs => hs.congr rfl⟩

variable {previous : Option Header}

theorem importBlock_keeps (hblock : known block.header) {rest : List (Block × Option ImportError)}
    {err : Option ImportError} (h : bc.importBlock call previous block rest = some (bc', err)) :
    Keeps known bc bc' := by
  obtain ⟨headerCache, parent, hparent, hcases⟩ := importBlock_cases h
  have hread : Keeps known bc { bc with headerCache := headerCache } :=
    (parentHeader_recached hparent).moved.keeps
  rcases hcases with heq | hw
  · obtain ⟨rfl, -⟩ := Prod.mk.inj heq
    exact hread
  · have hstore : Keeps known bc ({ bc with headerCache := headerCache }.storeBlock block) :=
      hread.trans ⟨rfl, fun hs => hs.storeBlock hblock⟩
    cases hw with
    | mismatch => exact hread
    | failed => exact hstore
    | adopted hchild stateDb => exact hstore.trans (adoptBlock_keeps _ stateDb)

theorem importLoop_keeps (hchain : ∀ b ∈ chain, known b.header) {i : ℕ} {r : Imported L}
    (h : importLoop call bc i previous (accepted chain) = some r) : Keeps known bc r.1 := by
  induction chain generalizing bc i previous with
  | nil =>
    obtain rfl := Option.some.inj h
    exact .refl bc
  | cons block chain ih =>
    rw [importLoop_cons] at h
    split_ifs at h
    · obtain rfl := Option.some.inj h
      exact .refl bc
    · obtain rfl := Option.some.inj h
      exact ⟨rfl, fun hs => hs.congr rfl⟩
    · obtain ⟨⟨bc₁, err⟩, hblock, hloop⟩ := Option.bind_eq_some_iff.1 h
      have hkeep := importBlock_keeps (hchain block List.mem_cons_self) hblock
      cases err with
      | some err =>
        obtain rfl := Option.some.inj hloop
        exact hkeep
      | none => exact hkeep.trans (ih (fun b hb => hchain b (List.mem_cons_of_mem _ hb)) hloop)

theorem insertChain_keeps {coin : Hash → Bool} {maxTime : UInt64}
    (hchain : ∀ b ∈ chain, known b.header) {r : Imported L}
    (h : bc.insertChain (shippedCall coin maxTime) chain = some r) : Keeps known bc r.1 := by
  rw [insertChain_shipped] at h
  split_ifs at h
  · obtain rfl := Option.some.inj h
    exact .refl bc
  · obtain rfl := Option.some.inj h
    exact .refl bc
  · exact importLoop_keeps hchain h

/-! ## Rewinds -/

theorem rewindHeaders_keeps {head : UInt64} {origin : Bool} {batch : List (UInt64 × List Hash)}
    {r : BlockChain L × List (UInt64 × List Hash)}
    (h : rewindHeaders head fuel bc origin batch = some r) : Keeps known bc r.1 := by
  induction fuel generalizing bc origin batch with
  | zero => cases h
  | succ fuel ih =>
    rw [rewindHeaders_succ] at h
    split_ifs at h
    · obtain ⟨⟨bc₁, dels⟩, hpass, hrest⟩ := Option.bind_eq_some_iff.1 h
      obtain ⟨bc₂, hupdate, hpass⟩ := Option.bind_eq_some_iff.1 hpass
      obtain ⟨above, -, hpass⟩ := Option.bind_eq_some_iff.1 hpass
      split_ifs at hpass
      obtain ⟨rfl, -⟩ := Prod.mk.inj (Option.some.inj hpass)
      have hread : Keeps known bc bc₂ :=
        ((getHeader_recached bc _ _).moved.trans (updateFn_moved hupdate)).keeps
      refine hread.trans (Keeps.trans ?_ (ih hrest))
      exact ⟨rfl, fun hs => hs.congr rfl⟩
    · obtain rfl := Option.some.inj h
      exact .refl bc

theorem loadLastState_keeps (h : bc.loadLastState = some bc') : Keeps known bc bc' := by
  rw [loadLastState_eq] at h
  split_ifs at h
  have hblock : Keeps known bc _ := (getBlockByHash_recached bc bc.db.headBlockHash).moved.keeps
  cases hget : bc.getBlockByHash bc.db.headBlockHash with
  | mk bc₁ b? =>
    rw [hget] at hblock h
    cases b? with
    | none => cases h
    | some b =>
      obtain rfl := Option.some.inj h
      have hheader : Keeps known bc₁ (bc₁.loadHeader b) := by
        have hset : Keeps known bc₁ { bc₁ with currentBlock := b } :=
          ⟨rfl, fun hs => hs.congr rfl⟩
        have hread := hset.trans (getHeaderByHash_recached _ bc₁.db.headHeaderHash).moved.keeps
        rw [loadHeader]
        dsimp only
        split_ifs
        · exact ⟨rfl, fun hs => hs.congr rfl⟩
        · exact hread.trans ⟨rfl, fun hs => hs.congr rfl⟩
      have hfast : ∀ bc : BlockChain L, Keeps known bc (bc.loadFastBlock b) := by
        intro bc
        have hset : Keeps known bc { bc with currentFastBlock := b } :=
          ⟨rfl, fun hs => hs.congr rfl⟩
        have hread := hset.trans (getBlockByHash_recached _ bc.db.headFastBlockHash).moved.keeps
        rw [loadFastBlock]
        dsimp only
        split_ifs
        · exact ⟨rfl, fun hs => hs.congr rfl⟩
        · exact hread.trans ⟨rfl, fun hs => hs.congr rfl⟩
      exact (hblock.trans hheader).trans (hfast _)

theorem setHead_keeps {head : UInt64} (h : bc.setHead head = some bc') : Keeps known bc bc' := by
  rw [setHead_eq] at h
  obtain ⟨bc₁, hmove, hload⟩ := Option.bind_eq_some_iff.1 h
  have hkeep : Keeps known bc bc₁ := by
    split_ifs at hmove
    · exact (updateFn_moved hmove).keeps
    · obtain ⟨⟨bc₂, batch⟩, hrewind, heq⟩ := Option.bind_eq_some_iff.1 hmove
      obtain rfl := Option.some.inj heq
      have hp := (deleteBatch_spec (L := L) batch bc₂.db).1
      refine (rewindHeaders_keeps hrewind).trans ⟨rfl, fun hs => ?_⟩
      exact ⟨fun hl => hs.headers (hp.headers hl), fun hl => hs.headerNumbers
        (hp.headerNumbers hl), .purge _ _, .purge _ _, hs.blockCache⟩
  have hpurge : Keeps known bc₁ bc₁.purgeBlocks :=
    ⟨rfl, fun hs => { hs with blockCache := .purge _ _ }⟩
  exact (hkeep.trans hpurge).trans (loadLastState_keeps hload)

theorem chainStep_keeps {e : ChainEvent} (hblocks : ∀ b ∈ e.blocks, known b.header)
    (h : bc.chainStep e = some bc') : Keeps known bc bc' := by
  cases e with
  | insertChain coin maxTime chain =>
    obtain ⟨r, hinsert, rfl⟩ := Option.map_eq_some_iff.1 h
    exact insertChain_keeps hblocks hinsert
  | setHead head => exact setHead_keeps h

/-! ## The first chain -/

theorem dropBadHash_keeps (h : bc.dropBadHash hash = some bc') : Keeps known bc bc' := by
  obtain ⟨bc₁, hrec, rfl | ⟨header, -, hset⟩⟩ := dropBadHash_cases h
  · exact hrec.moved.keeps
  · exact hrec.moved.keeps.trans (setHead_keeps hset)

theorem newBlockChain_keeps {db : ChainDb} {stateDb : L.StateDb} {noPrefetch : Bool}
    (h : newBlockChain db stateDb noPrefetch = some bc) :
    ∃ genesis, Keeps known (unreadChain L db stateDb noPrefetch genesis) bc := by
  rw [newBlockChain_eq] at h
  obtain ⟨genesis, -, h⟩ := Option.bind_eq_some_iff.1 h
  obtain ⟨bc₁, hload, h⟩ := Option.bind_eq_some_iff.1 h
  obtain ⟨bc₂, hrepair, hbad⟩ := Option.bind_eq_some_iff.1 h
  have hreads : Keeps known (unreadChain L db stateDb noPrefetch genesis) _ :=
    (firstReads_recached _).moved.keeps
  have hrepair' : Keeps known bc₁ bc₂ := by
    rw [repairHead] at hrepair
    split_ifs at hrepair
    · obtain rfl := Option.some.inj hrepair
      exact .refl bc₁
    · exact setHead_keeps hrepair
  exact ⟨genesis, Run.runPartial_invariant (fun _ _ => True) (Keeps known _)
    (fun bc hash bc' hkeep _ hdrop => hkeep.trans (dropBadHash_keeps hdrop))
    ((hreads.trans (loadLastState_keeps hload)).trans hrepair')
    (Run.StepsPartial.of_forall fun _ _ _ => trivial) hbad⟩

end Benzene.BlockChain
