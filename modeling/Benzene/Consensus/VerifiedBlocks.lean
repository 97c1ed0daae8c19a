import Benzene.Common.Run
import Benzene.Consensus.Concrete
import Benzene.Consensus.StepSpec

/-!
# Only verified blocks are committed

`MarkBlockVerified` remembers the hash of a header, while `AddBlock` stores header and body
under that hash and overwrites what is there.  A second PREPARED message with the same header
and another body therefore replaces a verified block by one that nobody verified.

* `only_verified_blocks`: if no two PREPARED messages carry different blocks with one header
  hash, every block that `tryCatchup` inserts or that `Next` returns was verified as it is.
* `unverified_block_inserted`: a node inserts a block that its verifier refused.
-/

namespace Benzene

variable {E : Env}

/-- The block that an action inserts into the chain or hands out. -/
def Action.uses : Action E → Option Block
  | .insertChain blk => some blk
  | .nextBlock blk => some blk
  | _ => none

/-- The block that `BlockVerifier` accepted. -/
def Action.verifies : Action E → Option Block
  | .blockVerified blk => some blk
  | _ => none

/-- Every block that was used had been verified before; the trace has the newest entry first. -/
inductive Justified : List (Entry E) → Prop
  | nil : Justified []
  | cons {e : Entry E} {older : List (Entry E)}
      (uses : ∀ b ∈ e.action.uses, ∃ e' ∈ older, e'.action.verifies = some b)
      (rest : Justified older) : Justified (e :: older)

theorem justified_cons_iff {e : Entry E} {older : List (Entry E)} :
    Justified (e :: older) ↔
      (∀ b ∈ e.action.uses, ∃ e' ∈ older, e'.action.verifies = some b) ∧ Justified older :=
  ⟨fun h => by cases h with | cons uses rest => exact ⟨uses, rest⟩, fun h => .cons h.1 h.2⟩

instance decidableJustified : DecidablePred (Justified (E := E))
  | [] => isTrue .nil
  | e :: older =>
    have := decidableJustified older
    decidable_of_iff
      ((∀ b ∈ e.action.uses, ∃ e' ∈ older, e'.action.verifies = some b) ∧ Justified older)
      justified_cons_iff.symm

theorem Justified.append {l older : List (Entry E)} (h : Justified older)
    (hl : ∀ e ∈ l, ∀ b ∈ e.action.uses, ∃ e' ∈ older, e'.action.verifies = some b) :
    Justified (l ++ older) := by
  induction l with
  | nil => exact h
  | cons e l ih =>
    obtain ⟨he, hl⟩ := List.forall_mem_cons.1 hl
    refine .cons (fun b hb => ?_) (ih hl)
    obtain ⟨e', he', hverifies⟩ := he b hb
    exact ⟨e', List.mem_append_right _ he', hverifies⟩

namespace Consensus

/-! ## The invariant -/

/-- The block was verified. -/
def WasVerified (s : Consensus E) (b : Block) : Prop := ∃ e ∈ s.trace, e.action.verifies = some b

/-- Every used block was verified, and under each marked hash the block `blockOf` of that
    hash. -/
structure VerifiedInv (blockOf : Hash → Block) (s : Consensus E) : Prop where
  justified : Justified s.trace
  marked : ∀ h, (s.fbftLog.verifiedBlocks.lookup h).isSome → s.WasVerified (blockOf h)

variable {blockOf : Hash → Block} {s s' : Consensus E}

theorem Emits.wasVerified {P : Entry E → Prop} (h : Emits P s s') {b : Block}
    (hb : s.WasVerified b) : s'.WasVerified b := by
  obtain ⟨l, hl, -⟩ := h
  obtain ⟨e, he, hverifies⟩ := hb
  exact ⟨e, by rw [hl]; exact List.mem_append_right _ he, hverifies⟩

/-- A step that marks nothing and uses only blocks verified before. -/
theorem VerifiedInv.extend (h : VerifiedInv blockOf s)
    (hmarks : ∀ hash, (s'.fbftLog.verifiedBlocks.lookup hash).isSome →
      (s.fbftLog.verifiedBlocks.lookup hash).isSome)
    (hemits : Emits (fun e => ∀ b ∈ e.action.uses, s.WasVerified b) s s') :
    VerifiedInv blockOf s' := by
  refine ⟨?_, fun hash hhash => Emits.wasVerified hemits (h.marked hash (hmarks hash hhash))⟩
  obtain ⟨l, hl, huses⟩ := hemits
  rw [hl]
  exact h.justified.append huses

theorem uses_of_kind {a : Action E} (h : a.kind ∉ [ActionKind.insertChain, .nextBlock]) :
    a.uses = none := by
  cases a <;> simp_all [Action.kind, Action.uses]

/-- A step that marks nothing and uses no block. -/
theorem VerifiedInv.of_kinds {ks : List ActionKind} (h : VerifiedInv blockOf s)
    (hmarks : s'.fbftLog.verifiedBlocks = s.fbftLog.verifiedBlocks)
    (hemits : Emits (fun e => e.action.kind ∈ ks) s s')
    (hks : ∀ k ∈ ks, k ∉ [ActionKind.insertChain, .nextBlock]) : VerifiedInv blockOf s' := by
  refine h.extend (fun hash hhash => hmarks ▸ hhash) (hemits.mono fun e he b hb => ?_)
  rw [uses_of_kind (hks _ he)] at hb
  cases hb

variable {blk : Block}

theorem VerifiedInv.markBlockVerified (h : VerifiedInv blockOf s)
    (hblk : blk = blockOf (E.blockHash blk)) :
    VerifiedInv blockOf (s.markBlockVerified blk) ∧ (s.markBlockVerified blk).WasVerified blk := by
  have hnew : (s.markBlockVerified blk).WasVerified blk := ⟨_, List.mem_cons_self, rfl⟩
  refine ⟨⟨.cons (fun b hb => ?_) h.justified, fun hash hhash => ?_⟩, hnew⟩
  · cases hb
  · simp only [Consensus.markBlockVerified, emit, FBFTLog.markBlockVerified,
      GoMap.lookup_insert_eq] at hhash
    split_ifs at hhash with heq
    · rw [heq, ← hblk]
      exact hnew
    · obtain ⟨e, he, hverifies⟩ := h.marked hash hhash
      exact ⟨e, List.mem_cons_of_mem _ he, hverifies⟩

/-! ## Catching up -/

theorem pruneCacheBeforeBlock_marks {log : FBFTLog E} {bn : UInt64} {hash : Hash}
    (h : ((log.pruneCacheBeforeBlock bn).verifiedBlocks.lookup hash).isSome) :
    (log.verifiedBlocks.lookup hash).isSome := by
  obtain ⟨u, hu⟩ := Option.isSome_iff_exists.1 h
  rw [(GoMap.lookup_filter_eq_some.1 hu).1]
  rfl

theorem commitBlock_verified (h : VerifiedInv blockOf s) (hblk : s.WasVerified blk)
    (m : FBFTMessage E) : VerifiedInv blockOf (s.commitBlock blk m).1 := by
  obtain ⟨t, ht, heq⟩ := s.commitBlock_cases blk m
  have hchain : VerifiedInv blockOf t := by
    refine h.extend (fun hash hhash => ?_) (ht.emits.mono ?_)
    · rw [ht.eq] at hhash
      exact hhash
    · rintro e ⟨he | he | he, -, -⟩ b hb <;> rw [he] at hb <;> cases hb
      exact hblk
  rcases heq with heq | ⟨sender, -, heq⟩
  · rw [heq]
    exact hchain
  · have hsetup := setupForNewConsensus_spec t blk sender
    rw [heq]
    refine hchain.extend (fun hash hhash => ?_) (hsetup.emits.mono fun e he b hb => ?_)
    · rw [hsetup.fbftLog] at hhash
      exact pruneCacheBeforeBlock_marks hhash
    · rw [he] at hb
      cases hb

theorem verifyUnlessMarked_verified (h : VerifiedInv blockOf s)
    (hblk : blk = blockOf (E.blockHash blk)) :
    VerifiedInv blockOf (s.verifyUnlessMarked blk).1 ∧
      ((s.verifyUnlessMarked blk).2 = true → (s.verifyUnlessMarked blk).1.WasVerified blk) := by
  rcases s.verifyUnlessMarked_cases blk with ⟨heq, hmarked⟩ | heq | ⟨heq, -⟩
  all_goals rw [heq]
  · refine ⟨h, fun _ => ?_⟩
    rw [hblk]
    exact h.marked _ hmarked
  · exact ⟨h, fun hfalse => by cases hfalse⟩
  · exact ⟨(h.markBlockVerified hblk).1, fun _ => (h.markBlockVerified hblk).2⟩

variable {l : List (Block × FBFTMessage E)}

theorem catchupLoop_verified (h : VerifiedInv blockOf s)
    (hl : ∀ p ∈ l, p.1 = blockOf (E.blockHash p.1)) : VerifiedInv blockOf (catchupLoop s l) := by
  refine catchupLoop_rule (P := fun t rest => VerifiedInv blockOf t ∧
    ∀ p ∈ rest, p.1 = blockOf (E.blockHash p.1)) (Q := VerifiedInv blockOf) (fun t h => h.1) ?_
    ⟨h, hl⟩
  rintro t blk m rest ⟨ht, hrest⟩
  obtain ⟨hblk, hrest⟩ := List.forall_mem_cons.1 hrest
  obtain ⟨hverify, hwas⟩ := verifyUnlessMarked_verified ht hblk
  refine ⟨hverify, fun htrue => ?_⟩
  have hcommit := commitBlock_verified hverify (hwas htrue) m
  have hsignal : Emits (fun e => e.action.kind ∈ [ActionKind.signal]) _
      (Consensus.emit _ (.verifiedNewBlock blk)) :=
    Emits.emit ((t.verifyUnlessMarked blk).1.commitBlock blk m).1 (List.mem_singleton_self _)
  exact ⟨hcommit, fun _ => ⟨hcommit.of_kinds rfl hsignal (by decide), hrest⟩⟩

theorem isLastMile_blockOf (hblocks : ∀ h b, s.fbftLog.getBlockByHash h = some b →
      E.blockHash b = h ∧ b = blockOf (E.blockHash b)) {bn : UInt64}
    (hl : IsLastMile s.fbftLog bn l) :
    ∀ p ∈ l, p.1 = blockOf (E.blockHash p.1) := by
  induction l generalizing bn with
  | nil => exact List.forall_mem_nil _
  | cons p rest ih =>
    obtain ⟨⟨-, -, -, -, hblk⟩, hrest⟩ := hl
    exact List.forall_mem_cons.2 ⟨(hblocks _ _ hblk).2, ih hrest⟩

/-! ## The handlers -/

/-- All cached blocks are the ones of `blockOf`, and no goroutine is a leader's. -/
def verifiedContents (E : Env) (blockOf : Hash → Block) : Contents E where
  msg _ := True
  blk b := b = blockOf (E.blockHash b)
  task
    | .followUpStart _ => True
    | .followUp _ _ => True
    | .preCommit _ _ => False
    | .gracePeriod _ => False

section

variable (hlog : Holds (verifiedContents E blockOf) s) (h : VerifiedInv blockOf s)

include hlog h

theorem tryCatchup_verified (order : MapOrder E) :
    VerifiedInv blockOf (s.tryCatchup order) := by
  unfold tryCatchup
  split_ifs
  · exact h
  · have hloop := catchupLoop_verified h (isLastMile_blockOf hlog.blocks
      (s.getLastMileBlocksAndMsg_isLastMile order s.blockNum))
    dsimp only
    refine hloop.of_kinds ?_ (postCatchup_quiet (a := .any) _ s.blockNum).emits (by decide)
    rw [postCatchup_eq]

theorem onCommitted_verified (order : MapOrder E) (m : FBFTMessage E) :
    Holds (verifiedContents E blockOf) (s.onCommitted order m) ∧
      VerifiedInv blockOf (s.onCommitted order m) := by
  refine ⟨(onCommitted_acts order trivial fun _ _ => trivial).grows.holds hlog, ?_⟩
  rcases s.onCommitted_cases order m with ⟨-, heq⟩ | ⟨-, heq | ⟨aggSig, mask, blk, -, heq⟩⟩
  · rw [heq]
    exact h
  · have hquiet : Quiet .any [.logged] s ((s.spinUpIfLow m.blockNum).addNotVerifiedMessage m) :=
      (s.spinUpIfLow_quiet m.blockNum).trans (addNotVerifiedMessage_quiet trivial)
    rw [heq]
    refine h.of_kinds ?_ hquiet.emits (by decide)
    rw [spinUpIfLow_eq]
    rfl
  · have hframe := (s.acceptCommitted_spec m aggSig mask blk).1
    have hquiet : Quiet (verifiedContents E blockOf) _ s (s.acceptCommitted m aggSig mask blk) :=
      acceptCommitted_quiet aggSig mask blk trivial trivial
    have haccept : VerifiedInv blockOf (s.acceptCommitted m aggSig mask blk) := by
      refine h.of_kinds ?_ hquiet.emits (by decide)
      rw [hframe]
      rfl
    rw [heq]
    exact tryCatchup_verified (hquiet.grows.holds hlog) haccept order

theorem onPrepared_verified {m : FBFTMessage E}
    (hm : ∀ b, E.decodeBlock m.block = some b → b = blockOf (E.blockHash b)) :
    Holds (verifiedContents E blockOf) (s.onPrepared m) ∧ VerifiedInv blockOf (s.onPrepared m) := by
  refine ⟨(onPrepared_quiet m trivial fun b hb => ⟨hm b hb.1, trivial⟩).grows.holds hlog, ?_⟩
  have hspin : VerifiedInv blockOf (s.spinUpIfLow m.blockNum) := by
    have hquiet : Quiet .any [] s (s.spinUpIfLow m.blockNum) := s.spinUpIfLow_quiet _
    refine h.of_kinds ?_ hquiet.emits (by decide)
    rw [spinUpIfLow_eq]
  rcases s.onPrepared_cases m with ⟨heq | heq, -⟩ | ⟨aggSig, mask, b, -, hchecks, heq⟩
  · rw [heq]
    exact h
  · rw [heq]
    exact hspin
  · have hb := hm b (preparedChecks_eq_some hchecks).1
    have hemits : Emits (fun e => e.action.kind ∈ [ActionKind.logged]) (s.spinUpIfLow m.blockNum)
        ((s.spinUpIfLow m.blockNum).logPrepared m b) := ⟨[_], rfl, by simp [Action.kind]⟩
    have hlogged : VerifiedInv blockOf ((s.spinUpIfLow m.blockNum).logPrepared m b) :=
      hspin.of_kinds rfl hemits (by decide)
    rw [heq]
    generalize (s.spinUpIfLow m.blockNum).logPrepared m b = t at hlogged
    have hmark := (hlogged.markBlockVerified hb).1
    rcases t.afterLogPrepared_cases m aggSig mask b with heq | ⟨-, heq | ⟨-, heq⟩⟩
    all_goals rw [heq]
    · exact hlogged
    · exact hmark
    · exact ⟨hmark.justified, hmark.marked⟩

theorem schedule_verified (order : MapOrder E) (i : ℕ) :
    Holds (verifiedContents E blockOf) (s.schedule order i) ∧
      VerifiedInv blockOf (s.schedule order i) := by
  have htask : ∀ {t}, s.tasks[i]? = some t → (verifiedContents E blockOf).task t :=
    fun hget => hlog.tasks _ (List.mem_of_getElem? hget)
  have hulog : Holds (verifiedContents E blockOf) (s.dropTask i) :=
    (dropTask_grows s i).holds hlog
  have hu : VerifiedInv blockOf (s.dropTask i) := ⟨h.justified, h.marked⟩
  have hd := s.schedule_dispatch order i
  generalize s.schedule order i = s' at hd
  cases hd with
  | idle heq =>
    rw [heq]
    exact ⟨⟨hlog.messages, hlog.blocks, hlog.tasks⟩, h.justified, h.marked⟩
  | dropTask => exact ⟨hulog, hu⟩
  | preCommit hget | gracePeriod hget => exact (htask hget).elim
  | followUpStart =>
    exact ⟨(runFollowUpStart_quiet order fun _ _ => trivial).grows.holds hulog,
      hu.justified, hu.marked⟩
  | @followUp _ _ n m rest =>
    obtain ⟨hclog, hc⟩ := onCommitted_verified hulog hu order m
    dsimp only [runFollowUp]
    split_ifs
    · exact ⟨hclog, hc⟩
    · exact ⟨(Grows.spawn trivial).holds hclog, hc.justified, hc.marked⟩

end

end Consensus

/-! ## Runs with iterators -/

/-- What happens to a validator and to the iterators over its log. -/
inductive IterEvent (E : Env)
  /-- `onPrepared`, on a message with any contents. -/
  | prepared (m : FBFTMessage E)
  /-- `onCommitted`, on a message with any contents. -/
  | committed (order : MapOrder E) (m : FBFTMessage E)
  /-- A follow-up of `onPrepared` runs. -/
  | task (order : MapOrder E) (i : ℕ)
  /-- `GetLastMileBlockIter`. -/
  | iter (order : MapOrder E) (bnStart : UInt64)
  /-- `Next` on the `i`-th iterator. -/
  | next (i : ℕ)

namespace Consensus

/-- One step of a validator with its iterators. -/
def iterStep (σ : Consensus E × List LastMileBlockIter) :
    IterEvent E → Consensus E × List LastMileBlockIter
  | .prepared m => (σ.1.onPrepared m, σ.2)
  | .committed order m => (σ.1.onCommitted order m, σ.2)
  | .task order i => (σ.1.schedule order i, σ.2)
  | .iter order bnStart => (σ.1, σ.2 ++ (σ.1.getLastMileBlockIter order bnStart).toList)
  | .next i =>
    match σ.2[i]? with
    | none => σ
    | some iter => ((σ.1.next iter).1, σ.2.set i (σ.1.next iter).2)

/-- The condition on a step: a PREPARED message carries the block `blockOf` of its hash. -/
def CarriesBlockOf (blockOf : Hash → Block) (_ : Consensus E × List LastMileBlockIter) :
    IterEvent E → Prop
  | .prepared m => ∀ b, E.decodeBlock m.block = some b → b = blockOf (E.blockHash b)
  | _ => True

/-- The invariant of a validator with its iterators. -/
structure IterInv (blockOf : Hash → Block) (σ : Consensus E × List LastMileBlockIter) : Prop where
  contents : Holds (verifiedContents E blockOf) σ.1
  verified : VerifiedInv blockOf σ.1
  iters : ∀ iter ∈ σ.2, ∀ b ∈ iter.blockCandidates, b = blockOf (E.blockHash b)

variable {blockOf : Hash → Block}

theorem next_verified {s : Consensus E} (hlog : Holds (verifiedContents E blockOf) s)
    (h : VerifiedInv blockOf s) {iter : LastMileBlockIter}
    (hiter : ∀ b ∈ iter.blockCandidates, b = blockOf (E.blockHash b)) :
    Holds (verifiedContents E blockOf) (s.next iter).1 ∧ VerifiedInv blockOf (s.next iter).1 ∧
      ∀ b ∈ (s.next iter).2.blockCandidates, b = blockOf (E.blockHash b) := by
  unfold next
  split
  · exact ⟨hlog, h, hiter⟩
  · rename_i b rest hcand
    rw [hcand] at hiter
    obtain ⟨hb, hrest⟩ := List.forall_mem_cons.1 hiter
    obtain ⟨hverify, hwas⟩ := verifyUnlessMarked_verified h hb
    have hvlog := (s.verifyUnlessMarked_quiet b).grows.holds hlog
    dsimp only
    split_ifs with hfail
    · exact ⟨hvlog, hverify, hrest⟩
    · refine ⟨⟨hvlog.messages, hvlog.blocks, hvlog.tasks⟩, ?_, hrest⟩
      refine hverify.extend (fun _ => id) (Emits.emit _ ?_)
      rintro b' hb'
      obtain rfl := Option.some.inj hb'
      exact hwas (by simpa using hfail)

theorem iterStep_verified {σ : Consensus E × List LastMileBlockIter} (h : IterInv blockOf σ)
    {e : IterEvent E} (hok : CarriesBlockOf blockOf σ e) :
    IterInv blockOf (iterStep σ e) := by
  cases e with
  | prepared m =>
    obtain ⟨hlog, hinv⟩ := onPrepared_verified h.contents h.verified hok
    exact ⟨hlog, hinv, h.iters⟩
  | committed order m =>
    obtain ⟨hlog, hinv⟩ := onCommitted_verified h.contents h.verified order m
    exact ⟨hlog, hinv, h.iters⟩
  | task order i =>
    obtain ⟨hlog, hinv⟩ := schedule_verified h.contents h.verified order i
    exact ⟨hlog, hinv, h.iters⟩
  | iter order bnStart =>
    refine ⟨h.contents, h.verified, fun iter hiter => ?_⟩
    rcases List.mem_append.1 hiter with hiter | hiter
    · exact h.iters iter hiter
    · rw [Option.mem_toList, getLastMileBlockIter] at hiter
      split_ifs at hiter
      obtain rfl := Option.some.inj hiter
      have hmile := isLastMile_blockOf h.contents.blocks
        (σ.1.getLastMileBlocksAndMsg_isLastMile order bnStart)
      intro b hb
      obtain ⟨p, hp, rfl⟩ := List.mem_map.1 hb
      exact hmile p hp
  | next i =>
    unfold iterStep
    dsimp only
    cases hget : σ.2[i]? with
    | none => exact h
    | some iter =>
      obtain ⟨hlog, hinv, hrest⟩ := next_verified h.contents h.verified
        (h.iters iter (List.mem_of_getElem? hget))
      refine ⟨hlog, hinv, fun iter' hiter' => ?_⟩
      rcases List.mem_or_eq_of_mem_set hiter' with hiter' | rfl
      · exact h.iters iter' hiter'
      · exact hrest

/-- In every run from start-up in which the PREPARED messages carry, for each header hash, one
    block only, every block that `tryCatchup` inserts or `Next` returns was verified. -/
theorem only_verified_blocks {blockOf : Hash → Block} {s : Consensus E} (h0 : StartUp s)
    {es : List (IterEvent E)} (hes : Run.Steps iterStep (CarriesBlockOf blockOf) (s, []) es) :
    Justified (Run.run iterStep (s, []) es).1.trace := by
  have hinit : IterInv blockOf (s, ([] : List LastMileBlockIter)) := by
    refine ⟨h0.holds _, ⟨?_, ?_⟩, List.forall_mem_nil _⟩
    · rw [h0.trace]
      exact .nil
    · intro hash hhash
      rw [h0.fbftLog] at hhash
      cases hhash
  have hinv : IterInv blockOf (Run.run iterStep (s, []) es) :=
    Run.run_invariant (IterInv blockOf) (fun _ _ h hok => iterStep_verified h hok) hinit hes
  exact hinv.verified.justified

end Consensus

namespace Concrete

open Consensus

/-- The PREPARED message of a block from the leader, key 1, as `onPrepared` gets it. -/
def preparedBlock (b : Block) : IterEvent env :=
  .prepared {
    messageType := .prepared
    viewID := 0
    blockNum := b.numberU64
    blockHash := env.blockHash b
    block := (encodeBlock b).getD []
    senderPubkeys := [pub 1]
    senderPubkeyBitmap := []
    payload := certificate [1, 2, 3, 4] [1, 2, 3] (env.blockHash b).toList
    verified := false }

/-- The COMMITTED message of a block from that leader. -/
def committedBlock (b : Block) : IterEvent env :=
  .committed order {
    messageType := .committed
    viewID := 0
    blockNum := b.numberU64
    blockHash := env.blockHash b
    block := []
    senderPubkeys := [pub 1]
    senderPubkeyBitmap := []
    payload := certificate [1, 2, 3, 4] [1, 2, 3] (env.commitPayload b)
    verified := false }

/-- A validator prepares and commits block 1, with an iterator in between. -/
theorem only_verified_blocks_one :
    Justified (Run.run iterStep (node [2] 1 [1, 2, 3, 4] 1, []) [preparedBlock (blk 1 0 0),
      .iter order 1, .next 0, committedBlock (blk 1 0 0)]).1.trace := by
  have hdecode : env.decodeBlock ((encodeBlock (blk 1 0 0)).getD []) = some (blk 1 0 0) := by
    decide +kernel
  have hes : Run.Steps iterStep (CarriesBlockOf fun _ => blk 1 0 0)
      (node [2] 1 [1, 2, 3, 4] 1, []) [preparedBlock (blk 1 0 0), .iter order 1, .next 0,
        committedBlock (blk 1 0 0)] := by
    refine ⟨fun b hb => ?_, trivial, trivial, trivial, trivial⟩
    exact (Option.some.inj (hdecode.symm.trans hb)).symm
  have h0 : StartUp (node [2] 1 [1, 2, 3, 4] 1) := ⟨rfl, rfl, rfl⟩
  exact only_verified_blocks h0 hes

/-- The blocks `blk 1 0 1` and `blk 1 0 9` have one header and different bodies, and the verifier
    refuses the second. A validator that gets both in PREPARED messages inserts the second. -/
theorem unverified_block_inserted :
    ¬ Justified (Run.run iterStep (node [2] 1 [1, 2, 3, 4] 1, []) [preparedBlock (blk 1 0 1),
      preparedBlock (blk 1 0 9), committedBlock (blk 1 0 9)]).1.trace := by
  decide +kernel

end Concrete

end Benzene
