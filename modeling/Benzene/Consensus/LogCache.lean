import Benzene.Consensus.LogRetention

/-!
# The block cache of the log

`MarkBlockVerified` does not ask whether its block is cached, and `LastMileBlockIter` keeps its
blocks while the log is pruned.  `PruneCacheBeforeBlock` computes `bn - 1`, which wraps at zero.

`cache_sound_iff`: for any interleaving of the calls, the marks belong to cached blocks and pruning
keeps what it should exactly if no block is marked that is not cached, and nothing is pruned before
block zero.
-/

namespace Benzene

variable {E : Env}

/-- The calls that change the cache or an iterator over it, and what the verifier depends on. -/
inductive CacheCall (E : Env)
  | addBlock (block : Block)
  | markBlockVerified (block : Block)
  | addVerifiedMessage (msg : FBFTMessage E)
  | addNotVerifiedMessage (msg : FBFTMessage E)
  | pruneCacheBeforeBlock (bn : UInt64)
  | getLastMileBlockIter (order : MapOrder E) (bnStart : UInt64)
  | next (i : ℕ)
  | setChain (chain : E.Chain)

/-- A node and the iterators over its cache. -/
structure Cache (E : Env) where
  node : Consensus E
  iters : List LastMileBlockIter

namespace Cache

/-- An empty log. -/
def start (s : Consensus E) : Cache E := ⟨{ s with fbftLog := .newFBFTLog }, []⟩

def log (w : Cache E) : FBFTLog E := w.node.fbftLog

def setLog (w : Cache E) (log : FBFTLog E) : Cache E := { w with node.fbftLog := log }

/-- The cache after a call. -/
def call (w : Cache E) : CacheCall E → Cache E
  | .addBlock block => w.setLog (w.log.addBlock block)
  | .markBlockVerified block => w.setLog (w.log.markBlockVerified block)
  | .addVerifiedMessage msg => w.setLog (w.log.addVerifiedMessage msg)
  | .addNotVerifiedMessage msg => w.setLog (w.log.addNotVerifiedMessage msg)
  | .pruneCacheBeforeBlock bn => w.setLog (w.log.pruneCacheBeforeBlock bn)
  | .getLastMileBlockIter order bnStart =>
    { w with iters := w.iters ++ (w.node.getLastMileBlockIter order bnStart).toList }
  | .next i =>
    match w.iters[i]? with
    | none => w
    | some iter => ⟨(w.node.next iter).1, w.iters.set i (w.node.next iter).2⟩
  | .setChain chain => { w with node.blockchain := chain }

end Cache

namespace FBFTLog

/-- The block is cached. -/
def Cached (log : FBFTLog E) (h : Hash) : Prop := (log.getBlockByHash h).isSome

/-- Every verified hash is one of a cached block. -/
def Coherent (log : FBFTLog E) : Prop :=
  ∀ h, (log.verifiedBlocks.lookup h).isSome → log.Cached h

/-- Of the blocks and messages exactly those with a number of at least `bn - 1` are left. -/
def KeptFrom (bn : UInt64) (log log' : FBFTLog E) : Prop :=
  (∀ h b, log'.blocks.lookup h = some b ↔
      log.blocks.lookup h = some b ∧ bn.toNat ≤ b.numberU64.toNat + 1) ∧
    ∀ k m, log'.messages.lookup k = some m ↔
      log.messages.lookup k = some m ∧ bn.toNat ≤ m.blockNum.toNat + 1

/-- All that is cached has the largest number there is. -/
def OnlyLargest (log : FBFTLog E) : Prop :=
  (∀ h b, log.blocks.lookup h = some b → ¬ b.numberU64 < 0 - 1) ∧
    ∀ k m, log.messages.lookup k = some m → ¬ m.blockNum < 0 - 1

variable {log log' : FBFTLog E} {bn : UInt64}

theorem keptFrom_iff (log : FBFTLog E) (bn : UInt64) :
    KeptFrom bn log (log.pruneCacheBeforeBlock bn) ↔ (bn = 0 → log.OnlyLargest) := by
  have hblocks : ∀ h b, (log.pruneCacheBeforeBlock bn).blocks.lookup h = some b ↔
      log.blocks.lookup h = some b ∧ ¬ b.numberU64 < bn - 1 := by
    simp [pruneCacheBeforeBlock, deleteMessagesLessThan, deleteBlocksLessThan,
      GoMap.lookup_filter_eq_some]
  have hmessages : ∀ k m, (log.pruneCacheBeforeBlock bn).messages.lookup k = some m ↔
      log.messages.lookup k = some m ∧ ¬ m.blockNum < bn - 1 := by
    simp [pruneCacheBeforeBlock, deleteMessagesLessThan, deleteBlocksLessThan,
      GoMap.lookup_filter_eq_some]
  simp only [KeptFrom, hblocks, hmessages, and_congr_right_iff]
  by_cases hbn : bn = 0
  · simp [hbn, OnlyLargest]
  · have hpred := toNat_sub_one_add_one
      (Nat.pos_of_ne_zero fun hzero => hbn (UInt64.toNat_inj.1 hzero))
    refine iff_of_true ⟨fun h b _ => ?_, fun k m _ => ?_⟩ fun hzero => absurd hzero hbn
    all_goals rw [UInt64.lt_iff_toNat_lt]
    · omega
    · omega

theorem Coherent.prune (h : log.Coherent) (bn : UInt64) :
    (log.pruneCacheBeforeBlock bn).Coherent := by
  intro hash hmark
  obtain ⟨mark, hmark⟩ := Option.isSome_iff_exists.1 hmark
  obtain ⟨hold, hkept⟩ := GoMap.lookup_filter_eq_some.1 hmark
  obtain ⟨b, hb⟩ := Option.isSome_iff_exists.1 (h hash (by rw [hold]; rfl))
  have hb' : log.blocks.lookup hash = some b := hb
  rw [hb'] at hkept
  exact Option.isSome_iff_exists.2 ⟨b, GoMap.lookup_filter_eq_some.2 ⟨hb', by simpa using hkept⟩⟩

theorem coherent_markBlockVerified_iff (h : log.Coherent) (block : Block) :
    (log.markBlockVerified block).Coherent ↔ log.Cached (E.blockHash block) := by
  constructor
  · intro hmarked
    exact hmarked _ (by simp [markBlockVerified])
  · intro hcached hash hmark
    simp only [markBlockVerified, GoMap.lookup_insert_eq] at hmark
    split_ifs at hmark with heq
    · exact heq ▸ hcached
    · exact h hash hmark

theorem Coherent.addBlock (h : log.Coherent) (block : Block) : (log.addBlock block).Coherent := by
  intro hash hmark
  have hcached : (log.blocks.lookup hash).isSome := h hash hmark
  simp only [Cached, getBlockByHash, FBFTLog.addBlock, GoMap.lookup_insert_eq]
  split_ifs
  · rfl
  · exact hcached

end FBFTLog

namespace Cache

/-- A call leaves marks of cached blocks only, and pruning leaves what it should. -/
def Sound (w : Cache E) (c : CacheCall E) : Prop :=
  (w.call c).log.Coherent ∧
    ∀ bn, c = .pruneCacheBeforeBlock bn → FBFTLog.KeptFrom bn w.log (w.call c).log

/-- No block is marked that is not cached, and nothing is pruned before block zero. -/
def Allowed (w : Cache E) : CacheCall E → Prop
  | .markBlockVerified block => w.log.Cached (E.blockHash block)
  | .next i => ∀ iter ∈ w.iters[i]?, ∀ block ∈ iter.blockCandidates.head?,
      E.blockVerifier w.node.blockchain block = true → w.log.Cached (E.blockHash block)
  | .pruneCacheBeforeBlock bn => bn = 0 → w.log.OnlyLargest
  | _ => True

variable {w : Cache E}

/-- A step of an iterator marks its block if that is new and passes the verifier. -/
theorem coherent_next_iff (h : w.log.Coherent) (i : ℕ) :
    (w.call (.next i)).log.Coherent ↔ w.Allowed (.next i) := by
  cases hiter : w.iters[i]? with
  | none => simpa [call, Allowed, hiter] using h
  | some iter =>
    simp only [call, Allowed, hiter, Option.mem_def, Option.some.injEq, forall_eq', log]
    obtain ⟨_ | ⟨block, rest⟩⟩ := iter
    · exact iff_of_true h (by simp)
    · have hlog : (w.node.next ⟨block :: rest⟩).1.fbftLog =
          (w.node.verifyUnlessMarked block).1.fbftLog := by
        unfold Consensus.next
        dsimp only
        split_ifs <;> rfl
      simp only [hlog, List.head?_cons, Option.some.injEq, forall_eq']
      unfold Consensus.verifyUnlessMarked
      split_ifs with hmarked hverifies
      · exact iff_of_true h fun _ => h _ hmarked
      · exact (FBFTLog.coherent_markBlockVerified_iff h block).trans (by simp [hverifies, log])
      · exact iff_of_true h fun hpass => absurd hpass hverifies

theorem sound_iff (h : w.log.Coherent) (c : CacheCall E) : w.Sound c ↔ w.Allowed c := by
  cases c with
  | pruneCacheBeforeBlock bn =>
    refine (and_iff_right (h.prune bn)).trans ⟨fun hkept => ?_, fun hzero => ?_⟩
    · exact (FBFTLog.keptFrom_iff w.log bn).1 (hkept bn rfl)
    · rintro _ ⟨⟩
      exact (FBFTLog.keptFrom_iff w.log bn).2 hzero
  | markBlockVerified block =>
    exact (and_iff_left fun bn hbn => by cases hbn).trans
      (FBFTLog.coherent_markBlockVerified_iff h block)
  | next i => exact (and_iff_left fun bn hbn => by cases hbn).trans (coherent_next_iff h i)
  | addBlock block => exact iff_of_true ⟨h.addBlock block, fun bn hbn => by cases hbn⟩ trivial
  | addVerifiedMessage | addNotVerifiedMessage | getLastMileBlockIter | setChain =>
    exact iff_of_true ⟨h, fun bn hbn => by cases hbn⟩ trivial

/-- **The cache of the log.**  From an empty log on, after every call, the verified hashes belong to
    cached blocks and pruning leaves exactly what it should, exactly if every call is allowed. -/
theorem cache_sound_iff (s : Consensus E) (calls : List (CacheCall E)) :
    (∀ pre c, pre ++ [c] <+: calls → (Run.run call (start s) pre).Sound c) ↔
      Run.Steps call Allowed (start s) calls := by
  have hstart : (start s).log.Coherent := fun hash hmark => by cases hmark
  constructor
  · refine fun hsound => Run.Steps.of_prefix fun pre c hpre =>
      (sound_iff ?_ c).1 (hsound pre c hpre)
    cases pre using List.reverseRecOn with
    | nil => exact hstart
    | append_singleton pre c' =>
      rw [Run.run_concat]
      exact (hsound pre c' ((List.prefix_append _ _).trans hpre)).1
  · rintro hallowed pre c ⟨rest, rfl⟩
    rw [List.append_assoc] at hallowed
    have hcoherent := Run.run_invariant (fun w => w.log.Coherent)
      (fun w c h hc => ((sound_iff h c).2 hc).1) hstart hallowed.of_append
    exact (sound_iff hcoherent c).2 hallowed.ok_at

end Cache

namespace Concrete

/-- Block 1 and its COMMITTED message are cached. -/
def cacheOne : Cache env := Run.run Cache.call (.start (node [2] 1 [1, 2, 3, 4] 1))
  [.addBlock (blk 1 0 0), .addVerifiedMessage (committedAs (blk 1 0 0) 1)]

/-- The iterator marks the block after it was pruned; pruning before block zero deletes it. -/
theorem pruned_block_marked :
    let marked := Run.run Cache.call cacheOne
      [.getLastMileBlockIter order 1, .pruneCacheBeforeBlock 3, .next 0]
    ((marked.log.verifiedBlocks.lookup (env.blockHash (blk 1 0 0))).isSome = true ∧
        marked.log.getBlockByHash (env.blockHash (blk 1 0 0)) = none) ∧
      cacheOne.log.getBlockByHash (env.blockHash (blk 1 0 0)) = some (blk 1 0 0) ∧
      (cacheOne.call (.pruneCacheBeforeBlock 0)).log.getBlockByHash (env.blockHash (blk 1 0 0)) =
        none := by
  decide +kernel

end Concrete

end Benzene
