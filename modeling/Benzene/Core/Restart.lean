import Benzene.Core.CanonicalChain

/-!
# Restarts

A node that stops keeps its database and the states it has written out, and `NewBlockChain`
(core/blockchain.go:173-348) builds the chain again from them.  In every run of imports, rewinds
and restarts, a restart succeeds and keeps the head and the header of every number
(`restart_of_run`).
-/

namespace Benzene.BlockChain

variable {L : BlockChainLib} {known : Header → Prop} {bc : BlockChain L} {path : List Header}

/-! ## Events -/

inductive LifeEvent (L : BlockChainLib)
  | call (e : ChainEvent)
  | restart (stateDb : L.StateDb)

def lifeStep (bc : BlockChain L) : LifeEvent L → Option (BlockChain L)
  | .call e => bc.chainStep e
  | .restart stateDb => newBlockChain bc.db stateDb bc.noPrefetch

/-- The calls are admissible, and a restart has the state of the head. -/
def LifeAdmissible (bc : BlockChain L) : LifeEvent L → Prop
  | .call e => Admissible bc e
  | .restart stateDb => L.hasState stateDb bc.currentBlock.header.root = true

/-- The headers of a life. -/
def LifeHeader (genesis : Block) (events : List (LifeEvent L)) (h : Header) : Prop :=
  h = genesis.header ∨ ∃ e, .call e ∈ events ∧ ∃ b ∈ e.blocks, b.header = h

/-! ## A restart -/

/-- The head of the path is loaded, and the states stay. -/
theorem Indexed.exists_loadLastState {h : Header} (hi : Indexed known bc path)
    (hapart : HashesApart L.headerHash known) (hlast : path.getLast? = some h)
    (hblockHash : bc.db.headBlockHash = L.headerHash h) :
    ∃ bc', bc.loadLastState = some bc' ∧ bc'.stateDb = bc.stateDb := by
  obtain ⟨bc₁, b, hblock, -, hrec, -⟩ := hi.getBlockByHash hapart (List.mem_of_getLast? hlast)
  have hheader : (bc₁.loadHeader b).stateDb = bc₁.stateDb := by
    rw [BlockChain.loadHeader, apply_ite Prod.fst]
    split_ifs
    · rfl
    · exact (@getHeaderByHash_recached L known _ _).moved.stateDb
  have hfast : ((bc₁.loadHeader b).loadFastBlock b).stateDb = (bc₁.loadHeader b).stateDb := by
    rw [loadFastBlock, apply_ite Prod.fst]
    split_ifs
    · rfl
    · exact (@getBlockByHash_recached L known _ _).moved.stateDb
  refine ⟨_, ?_, (hfast.trans hheader).trans hrec.moved.stateDb⟩
  rw [loadLastState_eq, hblockHash, if_neg (L.headerHash_ne_zero _), hblock]

/-- Hashes that no header has rewind nothing. -/
theorem Represents.dropBadHashes {hashes : List Hash} (hr : Represents known bc path)
    (hgood : ∀ h, known h → L.headerHash h ∉ hashes) :
    ∃ bc', hashes.foldlM BlockChain.dropBadHash bc = some bc' ∧ Represents known bc' path := by
  induction hashes generalizing bc with
  | nil => exact ⟨bc, rfl, hr⟩
  | cons hash hashes ih =>
    have hs : Sound known _ := (getBlockNumber_recached bc hash).sound hr.sound
    have hnone : (bc.getHeaderByHash hash).2 = none := by
      rw [getHeaderByHash]
      cases hnumber : bc.getBlockNumber hash with
      | mk bc₁ n? =>
        rw [hnumber] at hs
        cases n? with
        | none => rfl
        | some n =>
          refine Option.eq_none_iff_forall_ne_some.2 fun h hget => ?_
          obtain ⟨hk, rfl⟩ := hs.known_of_getHeader hget
          exact hgood h hk List.mem_cons_self
    rw [List.foldlM_cons, BlockChain.dropBadHash, ← Prod.eta (bc.getHeaderByHash hash), hnone]
    exact ih (hr.recached (getHeaderByHash_recached bc hash)) fun h hk hmem =>
      hgood h hk (List.mem_cons_of_mem _ hmem)

/-- A restart with the state of the head finds the same path. -/
theorem Represents.restart (hr : Represents known bc path)
    (hapart : HashesApart L.headerHash known)
    (hgood : ∀ h, known h → L.headerHash h ∉ L.badHashes) {stateDb : L.StateDb}
    (hstate : L.hasState stateDb bc.currentBlock.header.root = true) (noPrefetch : Bool) :
    ∃ bc', newBlockChain bc.db stateDb noPrefetch = some bc' ∧ Represents known bc' path := by
  obtain ⟨genesis, hgenesis, -⟩ := hr.canonicalChain.block 0 UInt64.zero_le
  have hrec : Recached known (unreadChain L bc.db stateDb noPrefetch genesis) _ :=
    firstReads_recached _
  have hi : Indexed known (unreadChain L bc.db stateDb noPrefetch genesis) path :=
    hr.toIndexed.congr
      ⟨rfl, fun hs => ⟨hs.headers, hs.headerNumbers, .new _ _, .new _ _, .new _ _⟩⟩
  have hi₀ := hi.moved hrec.moved
  have hdb : (unreadChain L bc.db stateDb noPrefetch genesis).firstReads.db = bc.db := by
    obtain ⟨_, _, _, heq⟩ := hrec.eq
    rw [heq]
    rfl
  have hblockHash := hr.headBlockHash
  have hheaderHash := hr.headHeaderHash
  rw [← hdb] at hblockHash hheaderHash
  obtain ⟨bc₁, hload, hstateDb⟩ := hi₀.exists_loadLastState hapart hr.currentBlock hblockHash
  have hr₁ := hi₀.loadLastState hapart hr.currentBlock hblockHash hheaderHash hload
  have hhead := Option.some.inj (hr₁.currentBlock.symm.trans hr.currentBlock)
  have hrepair : bc₁.repairHead = some bc₁ := by
    rw [BlockChain.repairHead, hhead, hstateDb, hrec.moved.stateDb]
    exact if_pos hstate
  obtain ⟨bc₂, hdrop, hr₂⟩ := hr₁.dropBadHashes hgood
  exact ⟨bc₂, by simp only [newBlockChain_eq, hgenesis, Option.bind_some, hload, hrepair, hdrop],
    hr₂⟩

/-- Whatever the caches hold, a read by number returns the header on the path. -/
theorem Represents.getHeaderByNumber_eq (hr : Represents known bc path)
    (hapart : HashesApart L.headerHash known) (n : UInt64) :
    (bc.getHeaderByNumber n).2 = path[n.toNat]? := by
  rw [getHeaderByNumber]
  cases hget : path[n.toNat]? with
  | none =>
    have hlen := List.getElem?_eq_none_iff.1 hget
    rw [if_pos (not_not.1 fun hne => hlen.not_gt ((hr.readCanonicalHash_ne_zero_iff n).1 hne))]
  | some h =>
    have hstored := hr.sound.getHeader_stored hapart
      (hr.held h (List.mem_of_getElem? hget)).header
    rw [UInt64.toNat_inj.1 (hr.toNat_of_getElem? hget)] at hstored
    rw [hr.readCanonicalHash_eq hget, if_neg (L.headerHash_ne_zero h), hstored]

/-! ## Runs -/

section Run

variable {db : ChainDb} {genesis : Block} {config : ChainConfig} {stateDb : L.StateDb}
  {noPrefetch : Bool} {bc₀ : BlockChain L} {events : List (LifeEvent L)} (hblank : db.Blank)
  (hnumber : genesis.header.number = 0)
  (hnew : newBlockChain (db.commitGenesis L.toChainLib genesis config) stateDb noPrefetch =
    some bc₀)
  (hapart : HashesApart L.headerHash (LifeHeader genesis events))
  (hgood : ∀ h, LifeHeader genesis events h → L.headerHash h ∉ L.badHashes)
  (hok : Run.StepsPartial lifeStep LifeAdmissible bc₀ events)
  (hrun : Run.runPartial lifeStep bc₀ events = some bc)

include hblank hnumber hnew hapart hgood hok hrun

theorem represents_of_life : ∃ path, Represents (LifeHeader genesis events) bc path := by
  obtain ⟨path₀, hr₀⟩ := represents_newBlockChain hblank hnumber hnew
  refine Run.runPartial_invariant (fun bc e => LifeAdmissible bc e ∧ e ∈ events)
    (fun bc => ∃ path, Represents (LifeHeader genesis events) bc path) ?_
    ⟨path₀, hr₀.mono fun h hh => Or.inl hh⟩ (hok.and_forall fun _ he => he) hrun
  rintro bc (e | stateDb) bc' ⟨path, hr⟩ ⟨hadm, he⟩ hstep
  · exact hr.chainStep hapart hadm (fun b hb => Or.inr ⟨e, he, b, hb, rfl⟩) hstep
  · obtain ⟨bc₁, hrestart, hr₁⟩ := hr.restart hapart hgood hadm bc.noPrefetch
    obtain rfl := Option.some.inj (hstep.symm.trans hrestart)
    exact ⟨path, hr₁⟩

/-- **Restarts.** A chain reached by imports, rewinds and restarts is canonical.  With the state of
    its head it is built again, with the same head and the same header at every number. -/
theorem restart_of_run (stateDb' : L.StateDb) (noPrefetch' : Bool)
    (hstate : L.hasState stateDb' bc.currentBlock.header.root = true) :
    CanonicalChain bc ∧ ∃ bc', newBlockChain bc.db stateDb' noPrefetch' = some bc' ∧
      bc'.currentBlock.header = bc.currentBlock.header ∧
      ∀ n, (bc'.getHeaderByNumber n).2 = (bc.getHeaderByNumber n).2 := by
  obtain ⟨path, hr⟩ := represents_of_life hblank hnumber hnew hapart hgood hok hrun
  obtain ⟨bc', hrestart, hr'⟩ := hr.restart hapart hgood hstate noPrefetch'
  refine ⟨hr.canonicalChain, bc', hrestart, ?_, fun n => ?_⟩
  · exact Option.some.inj (hr'.currentBlock.symm.trans hr.currentBlock)
  · rw [hr'.getHeaderByNumber_eq hapart, hr.getHeaderByNumber_eq hapart]

end Run

end Benzene.BlockChain

namespace Benzene.Concrete

open BlockChain

/-- The calls of `regrowth`, and a restart. -/
def reopening : List (LifeEvent blockChainLib) := regrowth.map .call ++ [.restart ()]

def reopenedChain : BlockChain blockChainLib :=
  (Run.runPartial lifeStep (freshChain true) reopening).get (by decide +kernel)

/-- The calls are admissible as before, and the restart has the state of the head. -/
theorem reopening_admissible :
    Run.StepsPartial lifeStep LifeAdmissible (freshChain true) reopening := by
  obtain ⟨himport, hrest⟩ := regrowth_admissible
  refine ⟨himport, fun bc₁ h₁ => ?_⟩
  obtain rfl : bc₁ = grownChain := Option.some.inj (h₁.symm.trans (Option.some_get _).symm)
  obtain ⟨hsetHead, hrest⟩ := hrest _ h₁
  refine ⟨hsetHead, fun bc₂ h₂ => ?_⟩
  obtain rfl : bc₂ = rewoundChain := Option.some.inj (h₂.symm.trans (Option.some_get _).symm)
  refine ⟨(hrest _ h₂).1, fun bc₃ h₃ => ⟨?_, fun _ _ => trivial⟩⟩
  have hstate : (rewoundChain.chainStep (importEvent [secondBlock])).map (fun bc =>
      blockChainLib.hasState () bc.currentBlock.header.root) = some true := by decide +kernel
  rw [show rewoundChain.chainStep (importEvent [secondBlock]) = some bc₃ from h₃] at hstate
  exact Option.some.inj hstate

/-- After two imports, a rewind and a restart the chain can be built again. -/
theorem reopenedChain_restart :
    reopenedChain.currentBlock = secondBlock ∧ CanonicalChain reopenedChain ∧
      ∃ bc' : BlockChain blockChainLib, newBlockChain reopenedChain.db () true = some bc' ∧
        bc'.currentBlock.header = reopenedChain.currentBlock.header ∧
        ∀ n, (bc'.getHeaderByNumber n).2 = (reopenedChain.getHeaderByNumber n).2 := by
  have hheader : ∀ h, LifeHeader ((genesisSpec 0).block genesisLib) reopening h →
      RunHeader ((genesisSpec 0).block genesisLib) regrowth h := by
    rintro h (rfl | ⟨e, he, hb⟩)
    · exact Or.inl rfl
    · exact Or.inr ⟨e, by simpa [reopening] using he, hb⟩
  have hnew : newBlockChain (stateOnlyDb.commitGenesis blockChainLib.toChainLib
      ((genesisSpec 0).block genesisLib) {}) () true = some (freshChain true) :=
    (Option.some_get _).symm
  have hrun : Run.runPartial lifeStep (freshChain true) reopening = some reopenedChain :=
    (Option.some_get _).symm
  have hstate : reopenedChain.currentBlock = secondBlock ∧
      blockChainLib.hasState () reopenedChain.currentBlock.header.root = true := by decide +kernel
  exact ⟨hstate.1, restart_of_run ⟨rfl, rfl, rfl⟩ rfl hnew
    (fun x y hx hy => regrowth_apart x y (hheader x hx) (hheader y hy))
    (fun _ _ => List.not_mem_nil) reopening_admissible hrun () true hstate.2⟩

end Benzene.Concrete
