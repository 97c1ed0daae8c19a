import Benzene.Consensus.CommitSpec
import Benzene.Consensus.Validator

/-!
# What the validator's handlers change

For each handler the fields it can touch, as one equation, and the entries it adds to the
trace.

* `prepare_spec`: the answer to an ANNOUNCE signs the hash of the state with the own keys of
  the committee and sends PREPARE messages only.
* `onPrepared_cases`, `onCommitted_cases`: the ways through the two handlers.
-/

namespace Benzene

variable {E : Env}

namespace Consensus

/-! ## Building PREPARE messages -/

variable {s : Consensus E} {payload : Bytes} {m : FBFTMessage E} {blk : Block} {mask : E.Mask}
  {priKeys : List E.PriKey} {network : NetworkMessage E}

theorem construct_type {order : MapOrder E} {p : MessageType}
    (h : s.construct order p payload priKeys = .ok (some network)) :
    network.message.type = p := by
  unfold construct at h
  split at h
  · cases h
  · dsimp only at h
    split at h
    · cases h
    · rename_i message hsigned
      obtain ⟨signature, rfl⟩ := signIfNeeded_eq_some hsigned
      unfold marshalAndParse at h
      split at h
      · cases h
      · split at h
        · cases h
        · obtain rfl := Option.some.inj (Except.ok.inj h)
          rfl

theorem mem_constructP2pMessages {order : MapOrder E} {p : MessageType}
    (h : some network ∈ s.constructP2pMessages order p payload priKeys) :
    network.message.type = p := by
  unfold constructP2pMessages at h
  split_ifs at h
  · split at h
    · cases h
    · rename_i hok
      rw [List.mem_singleton] at h
      subst h
      exact construct_type hok
  · obtain ⟨key, -, hkey⟩ := List.mem_filterMap.1 h
    split at hkey
    · cases hkey
    · rename_i hok
      obtain rfl := Option.some.inj hkey
      exact construct_type hok

variable (s)

/-- An entry of `prepare`. -/
def PrepareEntry (e : Entry E) : Prop :=
  e.blockNum = s.blockNum ∧
    ((∃ key ∈ s.getPriKeysInCommittee, e.action = .signed .prepare key.pub.bytes s.blockHash) ∨
      ∃ network, e.action = .sent network ∧ network.message.type = .prepare)

theorem signPrepare_spec (keys : List E.PriKey) :
    s.signPrepare keys = { s with trace := (s.signPrepare keys).trace } ∧
    Emits (fun e => e.blockNum = s.blockNum ∧
      ∃ key ∈ keys, e.action = .signed .prepare key.pub.bytes s.blockHash)
      s (s.signPrepare keys) := by
  induction keys generalizing s with
  | nil => exact ⟨rfl, Emits.refl s⟩
  | cons key keys ih =>
    obtain ⟨hframe, hemits⟩ := ih (s.emit (.signed .prepare key.pub.bytes s.blockHash))
    refine ⟨?_, ?_⟩
    · rw [signPrepare, hframe]
      rfl
    · refine (Emits.emit s ⟨rfl, key, List.mem_cons_self, rfl⟩).trans (hemits.mono ?_)
      rintro e ⟨hnum, key', hkey', haction⟩
      exact ⟨hnum, key', List.mem_cons_of_mem _ hkey', haction⟩

theorem broadcast_spec (msgs : List (Option (NetworkMessage E))) :
    s.broadcastConsensusP2pMessages msgs =
      { s with
        trace := (s.broadcastConsensusP2pMessages msgs).trace
        crashed := (s.broadcastConsensusP2pMessages msgs).crashed } ∧
    Emits (fun e => e.blockNum = s.blockNum ∧
      ∃ network, e.action = .sent network ∧ some network ∈ msgs) s
      (s.broadcastConsensusP2pMessages msgs) := by
  induction msgs generalizing s with
  | nil => exact ⟨rfl, Emits.refl s⟩
  | cons msg msgs ih =>
    have hmono : ∀ e : Entry E, (e.blockNum = s.blockNum ∧
        ∃ network, e.action = .sent network ∧ some network ∈ msgs) →
        e.blockNum = s.blockNum ∧ ∃ network, e.action = .sent network ∧
        some network ∈ msg :: msgs := by
      rintro e ⟨hnum, network, haction, hmem⟩
      exact ⟨hnum, network, haction, List.mem_cons_of_mem _ hmem⟩
    unfold broadcastConsensusP2pMessages
    split_ifs
    · exact ⟨(ih s).1, (ih s).2.mono hmono⟩
    · cases msg with
      | none => exact ⟨rfl, Emits.of_trace_eq rfl⟩
      | some network =>
        obtain ⟨hframe, hemits⟩ := ih (s.emit (.sent network))
        refine ⟨?_, ?_⟩
        · dsimp only
          rw [hframe]
          rfl
        · exact (Emits.emit s ⟨rfl, network, rfl, List.mem_cons_self⟩).trans (hemits.mono hmono)

theorem prepare_spec (order : MapOrder E) :
    s.prepare order = { s with
      phase := .prepare
      trace := (s.prepare order).trace
      crashed := (s.prepare order).crashed } ∧
    Emits (PrepareEntry s) s (s.prepare order) := by
  obtain ⟨hsign, hsigned⟩ := s.signPrepare_spec s.getPriKeysInCommittee
  obtain ⟨hsend, hsent⟩ := (s.signPrepare s.getPriKeysInCommittee).broadcast_spec
    (s.constructP2pMessages order .prepare [] s.getPriKeysInCommittee)
  refine ⟨?_, ?_⟩
  · unfold prepare
    dsimp only
    rw [hsend, hsign]
  · refine (hsigned.mono ?_).trans ((hsent.mono ?_).trans (Emits.of_trace_eq rfl))
    · rintro e ⟨hnum, hkey⟩
      exact ⟨hnum, Or.inl hkey⟩
    · rintro e ⟨hnum, network, haction, hmem⟩
      rw [hsign] at hnum
      exact ⟨hnum, Or.inr ⟨network, haction, mem_constructP2pMessages hmem⟩⟩

/-! ## Certificates -/

/-- The checks of `onPrepared` and `onCommitted` on the certificate of a message. -/
def acceptsCertificate (v : Consensus E) (certificate payload : Bytes) : Bool :=
  match v.readSignatureBitmapPayload certificate with
  | none => false
  | some (aggSig, mask) => v.decider.isQuorumAchievedByMask (some mask) &&
      E.bls.verifyHash aggSig (E.masks.aggregatePublic mask) payload

/-- The checks read the committee only. -/
theorem acceptsCertificate_congr {v v' : Consensus E}
    (h : v'.decider.publicKeys = v.decider.publicKeys) (certificate payload : Bytes) :
    v'.acceptsCertificate certificate payload = v.acceptsCertificate certificate payload := by
  have hread : v'.readSignatureBitmapPayload certificate =
      v.readSignatureBitmapPayload certificate := by
    simp only [readSignatureBitmapPayload, Decider.participants, h]
  have hquorum : ∀ mask : E.Mask, v'.decider.isQuorumAchievedByMask (some mask) =
      v.decider.isQuorumAchievedByMask (some mask) := by
    intro mask
    have hcount : v'.decider.twoThirdsSignersCount = v.decider.twoThirdsSignersCount := by
      rw [Decider.twoThirdsSignersCount, Decider.participantsCount, h]
      rfl
    unfold Decider.isQuorumAchievedByMask
    rw [hcount]
  unfold acceptsCertificate
  rw [hread]
  split
  · rfl
  · rw [hquorum]

theorem acceptsCertificate_eq_true {v : Consensus E} {certificate : Bytes}
    (h : v.acceptsCertificate certificate payload = true) :
    ∃ aggSig mask, v.readSignatureBitmapPayload certificate = some (aggSig, mask) ∧
      v.decider.isQuorumAchievedByMask (some mask) = true ∧
      E.bls.verifyHash aggSig (E.masks.aggregatePublic mask) payload = true := by
  unfold acceptsCertificate at h
  split at h
  · cases h
  · rename_i aggSig mask hread
    rw [Bool.and_eq_true] at h
    exact ⟨aggSig, mask, hread, h.1, h.2⟩

/-! ## PREPARED -/

theorem spinUpIfLow_eq (blockNum : UInt64) :
    s.spinUpIfLow blockNum = { s with
      mode := (s.spinUpIfLow blockNum).mode
      blockNumLow := (s.spinUpIfLow blockNum).blockNumLow } := by
  unfold spinUpIfLow spinUpStateSync
  split_ifs <;> rfl

theorem preparedChecks_spinUpIfLow (bn : UInt64) (m : FBFTMessage E) :
    (s.spinUpIfLow bn).preparedChecks m = s.preparedChecks m := by
  rw [spinUpIfLow_eq]
  rfl

variable {s}

/-- The block of an accepted PREPARED message has the number and the hash of the message, and
    the certificate is over that hash. -/
theorem preparedChecks_eq_some {aggSig : E.Sign}
    (h : s.preparedChecks m = some (aggSig, mask, blk)) :
    E.decodeBlock m.block = some blk ∧ blk.numberU64 = m.blockNum ∧ E.blockHash blk = m.blockHash ∧
      ¬ m.blockNum < s.blockNum ∧ s.readSignatureBitmapPayload m.payload = some (aggSig, mask) ∧
      E.bls.verifyHash aggSig (E.masks.aggregatePublic mask) m.blockHash.toList = true := by
  unfold preparedChecks at h
  split at h
  · cases h
  · rename_i hread
    split_ifs at h with hquorum hverify
    split at h
    · cases h
    · rename_i blockObj hdecode
      split_ifs at h with hsanity
      simp only [Option.some.injEq, Prod.mk.injEq] at h
      obtain ⟨rfl, rfl, rfl⟩ := h
      simp only [onPreparedSanityChecks, Bool.not_eq_true, Bool.not_eq_false'] at hsanity
      split_ifs at hsanity with hnum hhash
      simp only [bne_iff_ne, ne_eq, Bool.or_eq_true, decide_eq_true_eq, not_or, not_not]
        at hnum hhash
      rw [Bool.not_eq_true, Bool.not_eq_false'] at hverify
      exact ⟨hdecode, hnum.1, hhash, hnum.2, hread, hverify⟩

/-- A PREPARED message with an accepted certificate for the block it carries passes. -/
theorem preparedChecks_of_accepts (hcert : s.acceptsCertificate m.payload m.blockHash.toList = true)
    (hdecode : E.decodeBlock m.block = some blk) (hnum : blk.numberU64 = m.blockNum)
    (hhash : E.blockHash blk = m.blockHash) (hlow : ¬ m.blockNum < s.blockNum) :
    ∃ aggSig mask, s.preparedChecks m = some (aggSig, mask, blk) := by
  obtain ⟨aggSig, mask, hread, hquorum, hverify⟩ := acceptsCertificate_eq_true hcert
  have hsanity : s.onPreparedSanityChecks blk m = true := by
    have hheader : E.headerHash blk.header = m.blockHash := hhash
    simp [onPreparedSanityChecks, hnum, hheader, hlow]
  refine ⟨aggSig, mask, ?_⟩
  simp only [preparedChecks, hread, hquorum, hverify, hdecode, hsanity, Bool.not_true,
    Bool.false_eq_true, if_false]

/-- What `onPrepared` does once the block is logged: it stops before the verifier, after it
    refused, after the block was marked, or it goes on to work on the block. -/
theorem afterLogPrepared_cases (s : Consensus E) (m : FBFTMessage E) (aggSig : E.Sign)
    (mask : E.Mask) (blk : Block) :
    s.afterLogPrepared m aggSig mask blk = s ∨
    (E.blockVerifier s.blockchain blk = true ∧
      (s.afterLogPrepared m aggSig mask blk = s.markBlockVerified blk ∨
      ¬ m.blockNum > s.blockNum ∧ s.afterLogPrepared m aggSig mask blk =
        ({ s.markBlockVerified blk with
          aggregatedPrepareSig := some aggSig
          prepareBitmap := mask
          blockHash := m.blockHash } : Consensus E).spawn (.followUpStart blk))) := by
  unfold afterLogPrepared
  dsimp only
  split_ifs with hset hverify hfuture
  · exact Or.inl rfl
  · exact Or.inl rfl
  · exact Or.inr ⟨by simpa using hverify, Or.inl rfl⟩
  · exact Or.inr ⟨by simpa using hverify, Or.inr ⟨hfuture, rfl⟩⟩

/-- `onPrepared` rejects the message, with the mode changed at most, or logs it with its
    block. -/
theorem onPrepared_cases (s : Consensus E) (m : FBFTMessage E) :
    (s.onPrepared m = s ∨ s.onPrepared m = s.spinUpIfLow m.blockNum) ∧
      (¬ m.blockNum < s.blockNum → s.preparedChecks m = none) ∨
    ∃ aggSig mask blk, ¬ m.blockNum < s.blockNum ∧ s.preparedChecks m = some (aggSig, mask, blk) ∧
      s.onPrepared m = ((s.spinUpIfLow m.blockNum).logPrepared m blk).afterLogPrepared m aggSig
        mask blk := by
  unfold onPrepared
  split_ifs with hlow
  · exact Or.inl ⟨Or.inl rfl, fun h => absurd hlow h⟩
  · dsimp only
    rw [preparedChecks_spinUpIfLow]
    cases hc : s.preparedChecks m with
    | none => exact Or.inl ⟨Or.inr rfl, fun _ => rfl⟩
    | some r => exact Or.inr ⟨r.1, r.2.1, r.2.2, hlow, rfl, rfl⟩

/-- A PREPARED message that passes, for a block that passes the verifier, is logged with its
    block; the node goes on to work on it unless it is a later block. -/
theorem onPrepared_of_accepts (hcert : s.acceptsCertificate m.payload m.blockHash.toList = true)
    (hdecode : E.decodeBlock m.block = some blk) (hnum : blk.numberU64 = m.blockNum)
    (hhash : E.blockHash blk = m.blockHash) (hlow : ¬ m.blockNum < s.blockNum)
    (hset : s.blockVerifierSet = true) (hverifies : E.blockVerifier s.blockchain blk = true) :
    (m.blockNum > s.blockNum ∧ s.onPrepared m =
        ((s.spinUpIfLow m.blockNum).logPrepared m blk).markBlockVerified blk) ∨
    ¬ m.blockNum > s.blockNum ∧ ∃ aggSig mask, s.onPrepared m =
      ({ ((s.spinUpIfLow m.blockNum).logPrepared m blk).markBlockVerified blk with
        aggregatedPrepareSig := some aggSig
        prepareBitmap := mask
        blockHash := m.blockHash } : Consensus E).spawn (.followUpStart blk) := by
  obtain ⟨aggSig, mask, hchecks⟩ := preparedChecks_of_accepts hcert hdecode hnum hhash hlow
  have hlogged : s.onPrepared m =
      ((s.spinUpIfLow m.blockNum).logPrepared m blk).afterLogPrepared m aggSig mask blk := by
    unfold onPrepared
    rw [if_neg hlow]
    dsimp only
    rw [preparedChecks_spinUpIfLow, hchecks]
  rw [hlogged]
  set t := (s.spinUpIfLow m.blockNum).logPrepared m blk with ht
  have ht' : t.blockVerifierSet = true ∧ E.blockVerifier t.blockchain blk = true ∧
      t.blockNum = s.blockNum := by
    rw [ht, spinUpIfLow_eq]
    exact ⟨hset, hverifies, rfl⟩
  unfold afterLogPrepared
  rw [ht'.1, ht'.2.1, if_neg (by decide), if_neg (by decide)]
  dsimp only
  rw [show (t.markBlockVerified blk).blockNum = s.blockNum from ht'.2.2]
  split_ifs with hfuture
  · exact Or.inl ⟨hfuture, rfl⟩
  · exact Or.inr ⟨hfuture, aggSig, mask, rfl⟩

/-! ## COMMITTED -/

/-- The block of an accepted COMMITTED message is cached under the hash of the message, and
    the certificate is over that block. -/
theorem committedChecks_eq_some {aggSig : E.Sign}
    (h : s.committedChecks m = some (aggSig, mask, blk)) :
    s.fbftLog.getBlockByHash m.blockHash = some blk ∧
      s.readSignatureBitmapPayload m.payload = some (aggSig, mask) ∧
      E.bls.verifyHash aggSig (E.masks.aggregatePublic mask) (E.commitPayload blk) = true := by
  unfold committedChecks at h
  split at h
  · cases h
  · rename_i hread
    split_ifs at h
    split at h
    · cases h
    · rename_i hblk
      split_ifs at h with hverify
      simp only [Option.some.injEq, Prod.mk.injEq] at h
      obtain ⟨rfl, rfl, rfl⟩ := h
      rw [Bool.not_eq_true, Bool.not_eq_false'] at hverify
      exact ⟨hblk, hread, hverify⟩

/-- A COMMITTED message with an accepted certificate for a cached block passes. -/
theorem committedChecks_of_accepts (hblk : s.fbftLog.getBlockByHash m.blockHash = some blk)
    (hcert : s.acceptsCertificate m.payload (E.commitPayload blk) = true) :
    ∃ aggSig mask, s.committedChecks m = some (aggSig, mask, blk) := by
  obtain ⟨aggSig, mask, hread, hquorum, hverify⟩ := acceptsCertificate_eq_true hcert
  refine ⟨aggSig, mask, ?_⟩
  simp only [committedChecks, hread, hquorum, hblk, hverify, Bool.not_true, Bool.false_eq_true,
    if_false]

variable (s)

theorem overrideCommitSig_spec (m : FBFTMessage E) (mask : E.Mask) (blk : Block) :
    s.overrideCommitSig m mask blk = { s with
      commitBitmap := (s.overrideCommitSig m mask blk).commitBitmap
      blockchain := (s.overrideCommitSig m mask blk).blockchain
      trace := (s.overrideCommitSig m mask blk).trace } ∧
    Emits (fun e => e.action = .writeCommitSig blk m.payload) s
      (s.overrideCommitSig m mask blk) := by
  unfold overrideCommitSig
  split
  · split_ifs
    · dsimp only
      split_ifs
      · exact ⟨rfl, ⟨[_], rfl, by simp⟩⟩
      · exact ⟨rfl, Emits.of_trace_eq rfl⟩
    · exact ⟨rfl, Emits.refl s⟩
  · exact ⟨rfl, Emits.refl s⟩

/-- The commit bitmap that `onCommitted` leaves: the mask of the message, into which the bitmap of
    the stored certificate was read if there is one. -/
def committedBitmap (m : FBFTMessage E) (mask : E.Mask) (blk : Block) : E.Mask :=
  match E.readCommitSig s.blockchain blk.numberU64,
      E.getBlockByHash s.blockchain (E.blockHash blk) with
  | some stored, some _ =>
    if stored.length == m.payload.length then
      (E.masks.setMask mask (stored.drop blsSignatureSizeInBytes)).getD mask
    else mask
  | _, _ => mask

theorem overrideCommitSig_commitBitmap {t : Consensus E} (h : t.commitBitmap = mask) :
    (t.overrideCommitSig m mask blk).commitBitmap = t.committedBitmap m mask blk := by
  unfold overrideCommitSig committedBitmap
  cases E.readCommitSig t.blockchain blk.numberU64 with
  | none => exact h
  | some stored =>
    cases E.getBlockByHash t.blockchain (E.blockHash blk) with
    | none => exact h
    | some _ =>
      dsimp only
      split_ifs
      · rfl
      · rfl
      · exact h

theorem committedBitmap_of_not_stored {t : Consensus E}
    (h : E.readCommitSig t.blockchain blk.numberU64 = none) :
    t.committedBitmap m mask blk = mask := by
  unfold committedBitmap
  rw [h]

/-- The state in which `onCommitted` calls `tryCatchup`, after the message `m` was accepted. -/
def acceptCommitted (m : FBFTMessage E) (aggSig : E.Sign) (mask : E.Mask) (blk : Block) :
    Consensus E :=
  ({ ((s.spinUpIfLow m.blockNum).addNotVerifiedMessage m).addVerifiedMessage m with
    aggregatedCommitSig := some aggSig
    commitBitmap := mask } : Consensus E).overrideCommitSig m mask blk

/-- `onCommitted` ignores an old message, keeps one that it cannot verify, or accepts it and
    catches up. -/
theorem onCommitted_cases (order : MapOrder E) (m : FBFTMessage E) :
    m.blockNum < s.blockNum - 1 ∧ s.onCommitted order m = s ∨
    ¬ m.blockNum < s.blockNum - 1 ∧
      (s.onCommitted order m = (s.spinUpIfLow m.blockNum).addNotVerifiedMessage m ∨
      ∃ aggSig mask blk, s.committedChecks m = some (aggSig, mask, blk) ∧
        s.onCommitted order m = (s.acceptCommitted m aggSig mask blk).tryCatchup order) := by
  have hchecks : ((s.spinUpIfLow m.blockNum).addNotVerifiedMessage m).committedChecks m =
      s.committedChecks m := by
    rw [spinUpIfLow_eq]
    rfl
  unfold onCommitted
  split_ifs with hlow
  · exact Or.inl ⟨hlow, rfl⟩
  · refine Or.inr ⟨hlow, ?_⟩
    dsimp only
    rw [hchecks]
    cases hc : s.committedChecks m with
    | none => exact Or.inl rfl
    | some r => exact Or.inr ⟨r.1, r.2.1, r.2.2, rfl, rfl⟩

variable {s}

/-- A message without its block waits in the log. -/
theorem onCommitted_of_not_cached (order : MapOrder E) (hlow : ¬ m.blockNum < s.blockNum - 1)
    (hblk : s.fbftLog.getBlockByHash m.blockHash = none) :
    s.onCommitted order m = (s.spinUpIfLow m.blockNum).addNotVerifiedMessage m := by
  rcases s.onCommitted_cases order m with ⟨h, -⟩ | ⟨-, h | ⟨aggSig, mask, blk, h, -⟩⟩
  · exact absurd h hlow
  · exact h
  · rw [(committedChecks_eq_some h).1] at hblk
    cases hblk

/-- A message with an accepted certificate for a cached block that is not in the chain goes to
    the log, and the node catches up. -/
theorem onCommitted_of_accepts (order : MapOrder E) (hlow : ¬ m.blockNum < s.blockNum - 1)
    (hblk : s.fbftLog.getBlockByHash m.blockHash = some blk)
    (hcert : s.acceptsCertificate m.payload (E.commitPayload blk) = true)
    (habsent : E.getBlockByHash s.blockchain (E.blockHash blk) = none) :
    ∃ aggSig mask, s.onCommitted order m =
      ({ ((s.spinUpIfLow m.blockNum).addNotVerifiedMessage m).addVerifiedMessage m with
        aggregatedCommitSig := some aggSig
        commitBitmap := mask } : Consensus E).tryCatchup order := by
  set t := (s.spinUpIfLow m.blockNum).addNotVerifiedMessage m with ht
  have hblk' : t.fbftLog.getBlockByHash m.blockHash = some blk := by
    rw [ht, spinUpIfLow_eq]
    exact hblk
  have hcert' : t.acceptsCertificate m.payload (E.commitPayload blk) = true := by
    rw [acceptsCertificate_congr (v := s) (by rw [ht, spinUpIfLow_eq]; rfl)]
    exact hcert
  obtain ⟨aggSig, mask, hchecks⟩ := committedChecks_of_accepts hblk' hcert'
  refine ⟨aggSig, mask, ?_⟩
  have habsent' : E.getBlockByHash t.blockchain (E.blockHash blk) = none := by
    rw [ht, spinUpIfLow_eq]
    exact habsent
  unfold onCommitted
  rw [if_neg hlow]
  dsimp only
  rw [← ht, hchecks]
  dsimp only
  congr 1
  unfold overrideCommitSig
  rw [show E.getBlockByHash ({ t.addVerifiedMessage m with
    aggregatedCommitSig := some aggSig
    commitBitmap := mask } : Consensus E).blockchain (E.blockHash blk) = none from habsent']
  split
  · rename_i heq
    cases heq
  · rfl

/-- `acceptCommitted` logs the message, twice, and may store its certificate. -/
theorem acceptCommitted_spec (s : Consensus E) (m : FBFTMessage E) (aggSig : E.Sign)
    (mask : E.Mask) (blk : Block) :
    s.acceptCommitted m aggSig mask blk = { s with
      fbftLog := (s.fbftLog.addNotVerifiedMessage m).addVerifiedMessage m
      mode := (s.acceptCommitted m aggSig mask blk).mode
      blockNumLow := (s.acceptCommitted m aggSig mask blk).blockNumLow
      aggregatedCommitSig := some aggSig
      commitBitmap := s.committedBitmap m mask blk
      blockchain := (s.acceptCommitted m aggSig mask blk).blockchain
      trace := (s.acceptCommitted m aggSig mask blk).trace } ∧
    Emits (fun e => e.action = .writeCommitSig blk m.payload ∨
      ∃ verified, e.action = .logged { m with verified := verified }) s
      (s.acceptCommitted m aggSig mask blk) := by
  obtain ⟨hframe, hemits⟩ := overrideCommitSig_spec
    ({ ((s.spinUpIfLow m.blockNum).addNotVerifiedMessage m).addVerifiedMessage m with
      aggregatedCommitSig := some aggSig
      commitBitmap := mask } : Consensus E) m mask blk
  have hspin := s.spinUpIfLow_eq m.blockNum
  rw [overrideCommitSig_commitBitmap rfl] at hframe
  refine ⟨?_, ?_⟩
  · unfold acceptCommitted
    rw [hframe, hspin]
    rfl
  · have hspin_emits : Emits (fun e => e.action = .writeCommitSig blk m.payload ∨
        ∃ verified, e.action = .logged { m with verified := verified }) s
        (s.spinUpIfLow m.blockNum) :=
      Emits.of_trace_eq (by rw [hspin])
    exact hspin_emits.trans ((Emits.addNotVerifiedMessage _ (Or.inr ⟨false, rfl⟩)).trans
      ((Emits.addVerifiedMessage _ (Or.inr ⟨true, rfl⟩)).trans
        ((Emits.of_trace_eq rfl).trans (hemits.mono fun e he => Or.inl he))))

end Consensus

end Benzene
