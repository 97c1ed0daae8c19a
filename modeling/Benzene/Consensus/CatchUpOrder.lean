import Benzene.Common.CatchUp
import Benzene.Consensus.Concrete
import Benzene.Consensus.StepSpec

/-!
# The order of delivery while catching up

A validator that is `k` blocks behind gets the PREPARED and the COMMITTED message of each of
them.  A COMMITTED message that comes before its block waits in the log.  `onPrepared` looks at
it again only when the block is the next one; for a later block it returns before.

* `Backlog`, `Ready`: the blocks, the leader's messages for them, and a validator behind.
* `Simulates`: the validator is a `CatchUp` machine: PREPARED messages are the bodies and
  COMMITTED messages the stamps.
* `catch_up_iff_inOrder`: the validator catches up exactly when the messages come in an order
  that `CatchUp.InOrder` describes.
-/

namespace Benzene

variable {E : Env}

open CatchUp

/-! ## The messages -/

/-- The blocks that a validator is behind, and the leader's messages for them. -/
structure Backlog where
  k : ℕ
  block : ℕ → Block
  prepared : ℕ → Message
  committed : ℕ → Message

/-- What `ParseFBFTMessage` makes of a message that names a single sender. -/
def singleSender (sender : E.PubKey) (msg : Message) : FBFTMessage E :=
  let consensusMsg := msg.consensus.getD {}
  { messageType := msg.type
    viewID := consensusMsg.viewId
    blockNum := consensusMsg.blockNum
    blockHash := copyBytes 32 consensusMsg.blockHash
    block := consensusMsg.block
    senderPubkeys := [sender]
    senderPubkeyBitmap := consensusMsg.senderPubkeyBitmap
    payload := consensusMsg.payload
    verified := false }

namespace Consensus

/-- The message is one of the leader of `s`, of type `t` and for the block `b`. -/
structure FromLeader (s : Consensus E) (t : MessageType) (b : Block) (msg : Message) : Prop where
  type : msg.type = t
  sender : ∃ req, msg.consensus = some req ∧ req.senderPubkey = s.leaderPubKey.bytes.toList
  signed : senderKeySanityChecks (E := E) msg s.leaderPubKey.bytes = true
  blockNum : (singleSender s.leaderPubKey msg).blockNum = b.numberU64
  blockHash : (singleSender s.leaderPubKey msg).blockHash = E.blockHash b

theorem fromLeader_iff {s : Consensus E} {t : MessageType} {b : Block} {msg : Message} :
    FromLeader s t b msg ↔ msg.type = t ∧
      msg.consensus.map (·.senderPubkey) = some s.leaderPubKey.bytes.toList ∧
      senderKeySanityChecks (E := E) msg s.leaderPubKey.bytes = true ∧
      (singleSender s.leaderPubKey msg).blockNum = b.numberU64 ∧
      (singleSender s.leaderPubKey msg).blockHash = E.blockHash b := by
  rw [Option.map_eq_some_iff]
  exact ⟨fun ⟨h₁, h₂, h₃, h₄, h₅⟩ => ⟨h₁, h₂, h₃, h₄, h₅⟩,
    fun ⟨h₁, h₂, h₃, h₄, h₅⟩ => ⟨h₁, h₂, h₃, h₄, h₅⟩⟩

instance (s : Consensus E) (t : MessageType) (b : Block) (msg : Message) :
    Decidable (FromLeader s t b msg) :=
  decidable_of_iff' _ fromLeader_iff

theorem FromLeader.parse {s : Consensus E} {t : MessageType} {b : Block} {msg : Message}
    (h : FromLeader s t b msg) (v : Consensus E) :
    v.parseFBFTMessage msg = .ok (singleSender s.leaderPubKey msg) := by
  obtain ⟨req, hreq, hsender⟩ := h.sender
  simp only [parseFBFTMessage, hreq, parseSenders_of_key v req _ hsender, singleSender,
    Option.getD_some]

end Consensus

namespace Backlog

/-- The PREPARED message of a block, parsed. -/
def preparedMsg (L : Backlog) (s : Consensus E) (j : ℕ) : FBFTMessage E :=
  singleSender s.leaderPubKey (L.prepared j)

/-- The COMMITTED message of a block, parsed. -/
def committedMsg (L : Backlog) (s : Consensus E) (j : ℕ) : FBFTMessage E :=
  singleSender s.leaderPubKey (L.committed j)

/-- The chain after the first blocks are inserted. -/
def chainAt (L : Backlog) (c : E.Chain) : ℕ → E.Chain
  | 0 => c
  | j + 1 => (E.insertChain (L.chainAt c j) (L.block j)).1

/-- The validator `s` is behind by the blocks of the backlog: they are valid, and the messages
    are genuine ones of its leader and committee. -/
structure Ready (L : Backlog) (s : Consensus E) : Prop where
  -- the validator: not the leader, nothing running, nothing logged for the blocks
  isLeader : s.isLeader = false
  blockVerifierSet : s.blockVerifierSet = true
  crashed : s.crashed = false
  tasks : s.tasks = []
  pos : 0 < s.blockNum.toNat
  fits : s.blockNum.toNat + L.k < 2 ^ 64
  noMessage : ∀ m ∈ GoMap.values s.fbftLog.messages, m.messageType = .committed →
    m.blockNum < s.blockNum
  noBlock : ∀ j < L.k, s.fbftLog.getBlockByHash (E.blockHash (L.block j)) = none
  -- the blocks: consecutive, and accepted by the verifier and by the chain
  number : ∀ j < L.k, (L.block j).numberU64.toNat = s.blockNum.toNat + j
  verifies : ∀ j < L.k, ∀ i ≤ j, E.blockVerifier (L.chainAt s.blockchain i) (L.block j) = true
  inserts : ∀ j < L.k, (E.insertChain (L.chainAt s.blockchain j) (L.block j)).2 = true
  isNew : ∀ j < L.k,
    (E.currentBlock (L.chainAt s.blockchain j)).numberU64 < (L.block j).numberU64 ∧
      ∀ i ≤ j, E.getBlockByHash (L.chainAt s.blockchain i) (E.blockHash (L.block j)) = none
  -- the leader and the committee: where an epoch ends before the last block, they stay
  committee : ∀ j, j + 1 < L.k → E.isLastBlockInEpoch (L.block j).header = true →
    ∀ c, { s with blockchain := L.chainAt s.blockchain (j + 1) }.committeeToSet = some c →
      E.blsPublicKeys c = s.decider.publicKeys ∧ s.decider.publicKeys.head? = some s.leaderPubKey
  -- the messages, with certificates of the committee
  prepared : ∀ j < L.k, Consensus.FromLeader s .prepared (L.block j) (L.prepared j) ∧
    E.decodeBlock (L.preparedMsg s j).block = some (L.block j) ∧
    s.acceptsCertificate (L.preparedMsg s j).payload (E.blockHash (L.block j)).toList = true
  committed : ∀ j < L.k, Consensus.FromLeader s .committed (L.block j) (L.committed j) ∧
    (L.committedMsg s j).viewID = 0 ∧
    s.acceptsCertificate (L.committedMsg s j).payload (E.commitPayload (L.block j)) = true

variable {L : Backlog} {s0 : Consensus E}

variable {j i k n : ℕ} {l : List Half} {bn : UInt64}

section

variable (hr : L.Ready s0)

include hr

theorem Ready.committed_blockNum (hj : j < L.k) :
    (L.committedMsg s0 j).blockNum.toNat = s0.blockNum.toNat + j := by
  rw [← hr.number j hj, ← (hr.committed j hj).1.blockNum]
  rfl

theorem Ready.committed_blockHash (hj : j < L.k) :
    (L.committedMsg s0 j).blockHash = E.blockHash (L.block j) :=
  (hr.committed j hj).1.blockHash

theorem Ready.committed_type (hj : j < L.k) : (L.committedMsg s0 j).messageType = .committed :=
  (hr.committed j hj).1.type

/-- Different blocks have different hashes. -/
theorem Ready.hash_injective (hbind : E.HashBindsNumber) (hi : i < L.k) (hj : j < L.k)
    (h : E.blockHash (L.block i) = E.blockHash (L.block j)) : i = j := by
  have hnum : (L.block i).numberU64 = (L.block j).numberU64 := hbind _ _ h
  have hi' := hr.number i hi
  have hj' := hr.number j hj
  rw [hnum] at hi'
  omega

theorem Ready.id_injective (hbind : E.HashBindsNumber) (hi : i < L.k) (hj : j < L.k)
    (h : (L.committedMsg s0 i).id = (L.committedMsg s0 j).id) : i = j := by
  refine hr.hash_injective hbind hi hj ?_
  rw [← hr.committed_blockHash hi, ← hr.committed_blockHash hj]
  exact congrArg FBFTMsgID.blockHash h

end

/-! ## The log -/

/-- The log entry of a COMMITTED message that has arrived. -/
def entry (L : Backlog) (s0 : Consensus E) (a : CatchUp.State) (j : ℕ) : FBFTMessage E :=
  { L.committedMsg s0 j with verified := decide (j ∈ a.stamped) }

/-- What has arrived is of the backlog, and stamped is only what has arrived. -/
structure Bounded (k : ℕ) (a : CatchUp.State) : Prop where
  arrived : ∀ x ∈ a.arrived, x ∈ all k
  stamped : ∀ j ∈ a.stamped, .body j ∈ a.arrived ∧ .stamp j ∈ a.arrived

/-- The log from the block number `h` of the backlog on: the cached blocks are those of the
    PREPARED messages, and of COMMITTED messages it has those that arrived. -/
structure LogSim (L : Backlog) (s0 : Consensus E) (h : ℕ) (a : CatchUp.State) (log : FBFTLog E) :
    Prop where
  bounded : Bounded L.k a
  blocks : ∀ j, h ≤ j → j < L.k → log.getBlockByHash (E.blockHash (L.block j)) =
    if .body j ∈ a.arrived then some (L.block j) else none
  only : ∀ id m, log.messages.lookup id = some m → m.messageType = .committed →
    s0.blockNum.toNat + h ≤ m.blockNum.toNat →
    ∃ j, .stamp j ∈ a.arrived ∧ id = (L.committedMsg s0 j).id ∧ m = L.entry s0 a j
  has : ∀ j, h ≤ j → .stamp j ∈ a.arrived →
    log.messages.lookup (L.committedMsg s0 j).id = some (L.entry s0 a j)

variable {h : ℕ} {a : CatchUp.State} {log : FBFTLog E}

theorem Bounded.lt (hb : Bounded k a) (hj : .stamp j ∈ a.arrived) : j < k :=
  stamp_mem_all.1 (hb.arrived _ hj)

theorem Bounded.lt_of_stamped (hb : Bounded k a) (hj : j ∈ a.stamped) : j < k :=
  hb.lt (hb.stamped j hj).2

theorem Bounded.insert (hb : Bounded k a) {x : Half} (hx : x ∈ all k) :
    Bounded k { a with arrived := insert x a.arrived } where
  arrived y hy := (Finset.mem_insert.1 hy).elim (fun heq => heq ▸ hx) (hb.arrived y)
  stamped j hj := (hb.stamped j hj).imp (Finset.mem_insert_of_mem ·) (Finset.mem_insert_of_mem ·)

theorem Bounded.mex_le (hb : Bounded k a) : mex a.stamped ≤ k :=
  mex_le_of_notMem fun hk => lt_irrefl k (hb.lt_of_stamped hk)

theorem LogSim.mono (hsim : LogSim L s0 h a log) {h' : ℕ} (hle : h ≤ h') :
    LogSim L s0 h' a log where
  bounded := hsim.bounded
  blocks j hj := hsim.blocks j (hle.trans hj)
  only id m hm htype hnum := hsim.only id m hm htype (by omega)
  has j hj := hsim.has j (hle.trans hj)

section

variable (hr : L.Ready s0)

include hr

theorem Ready.logSim : LogSim L s0 0 .empty s0.fbftLog := by
  refine ⟨⟨(fun x hx => by cases hx), fun j hj => by cases hj⟩, fun j _ hj => hr.noBlock j hj,
    fun id m hm htype hle => ?_, fun j _ hj => by cases hj⟩
  have hlt := hr.noMessage m (GoMap.mem_values_of_lookup hm) htype
  rw [UInt64.lt_iff_toNat_lt] at hlt
  omega

/-- Pruning keeps what is still to come. -/
theorem LogSim.pruneCacheBeforeBlock (hsim : LogSim L s0 h a log) (hpos : 0 < bn.toNat)
    (hbn : bn.toNat ≤ s0.blockNum.toNat + h) :
    LogSim L s0 h a (log.pruneCacheBeforeBlock bn) := by
  have hpred := toNat_sub_one_add_one hpos
  refine ⟨hsim.bounded, fun j hj hk => ?_, fun id m hm => ?_, fun j hj hmem => ?_⟩
  · have hnot : ¬ (L.block j).numberU64 < bn - 1 := by
      rw [UInt64.lt_iff_toNat_lt, hr.number j hk]
      omega
    have hold := hsim.blocks j hj hk
    split_ifs at hold ⊢ with hmem
    · exact GoMap.lookup_filter_eq_some.2 ⟨hold, by simpa using hnot⟩
    · by_contra hne
      obtain ⟨b, hb⟩ := Option.ne_none_iff_exists'.1 hne
      have hfound := (GoMap.lookup_filter_eq_some.1 hb).1
      rw [FBFTLog.getBlockByHash, hfound] at hold
      cases hold
  · exact hsim.only id m (GoMap.lookup_filter_eq_some.1 hm).1
  · refine GoMap.lookup_filter_eq_some.2 ⟨hsim.has j hj hmem, ?_⟩
    have hnum : (L.entry s0 a j).blockNum.toNat = s0.blockNum.toNat + j :=
      hr.committed_blockNum (hsim.bounded.lt hmem)
    simp only [Bool.not_eq_true', decide_eq_false_iff_not, UInt64.lt_iff_toNat_lt, hnum]
    omega

/-- Messages of other types do not matter. -/
theorem LogSim.addVerifiedMessage_other (hsim : LogSim L s0 h a log) {m : FBFTMessage E}
    (htype : m.messageType ≠ .committed) : LogSim L s0 h a (log.addVerifiedMessage m) := by
  refine ⟨hsim.bounded, hsim.blocks, fun id m' hm' htype' hnum => ?_, fun i hi hmem => ?_⟩
  · simp only [FBFTLog.addVerifiedMessage, GoMap.lookup_insert_eq] at hm'
    split_ifs at hm' with hid
    · obtain rfl := Option.some.inj hm'
      exact absurd htype' htype
    · exact hsim.only id m' hm' htype' hnum
  · simp only [FBFTLog.addVerifiedMessage, GoMap.lookup_insert_eq]
    have hne : (L.committedMsg s0 i).id ≠ m.id := by
      intro heq
      have htypes := congrArg FBFTMsgID.messageType heq
      exact htype (htypes.symm.trans (hr.committed_type (hsim.bounded.lt hmem)))
    rw [if_neg hne]
    exact hsim.has i hi hmem

/-- Next to a block that is committed comes the next number. -/
theorem Ready.toNat_add_one (hi : i < L.k) (hbn : bn.toNat = s0.blockNum.toNat + i) :
    (bn + 1).toNat = s0.blockNum.toNat + (i + 1) := by
  have hfits := hr.fits
  rw [UInt64.toNat_add, hbn]
  simp only [UInt64.toNat_one]
  omega

/-! ## The last mile -/

/-- The COMMITTED message that the log has for a block number to come. -/
theorem LogSim.mem_values_iff (hsim : LogSim L s0 h a log) (hi : h ≤ i)
    (hbn : bn.toNat = s0.blockNum.toNat + i) {m : FBFTMessage E} :
    m ∈ GoMap.values log.messages ∧ m.messageType = .committed ∧ m.blockNum = bn ↔
      .stamp i ∈ a.arrived ∧ m = L.entry s0 a i := by
  rw [GoMap.mem_values_iff]
  constructor
  · rintro ⟨⟨id, hid⟩, htype, rfl⟩
    obtain ⟨j, hmem, -, rfl⟩ := hsim.only id m hid htype (by omega)
    have hj : (L.entry s0 a j).blockNum.toNat = s0.blockNum.toNat + j :=
      hr.committed_blockNum (hsim.bounded.lt hmem)
    obtain rfl : i = j := by omega
    exact ⟨hmem, rfl⟩
  · rintro ⟨hmem, rfl⟩
    have hk := hsim.bounded.lt hmem
    refine ⟨⟨_, hsim.has i hi hmem⟩, hr.committed_type hk, ?_⟩
    rw [← UInt64.toNat_inj, hbn]
    exact hr.committed_blockNum hk

/-- The block and the message that the log has for a block number to come. -/
theorem LogSim.getCommitted_eq (hsim : LogSim L s0 h a log) (order : MapOrder E) (hi : h ≤ i)
    (hbn : bn.toNat = s0.blockNum.toNat + i) :
    log.getCommittedBlockAndMsgsFromNumber (order.messages bn) bn =
      if i ∈ a.stamped then some (L.block i, L.entry s0 a i) else none := by
  -- every message that the loop over the log finds is the one of the block `i`
  have hall : ∀ m, m ∈ order.messages bn (log.getMessagesByTypeSeq .committed bn) ↔
      i ∈ a.stamped ∧ m = L.entry s0 a i := by
    intro m
    rw [(order.messages_perm _ _).mem_iff]
    simp only [FBFTLog.getMessagesByTypeSeq, FBFTLog.findMessages, List.mem_filter,
      Bool.and_eq_true, beq_iff_eq, ← and_assoc]
    rw [and_assoc (a := m ∈ _), hsim.mem_values_iff hr hi hbn, and_right_comm, and_congr_left_iff]
    rintro rfl
    simp only [entry, decide_eq_true_eq, and_iff_right_iff_imp]
    exact fun hmem => (hsim.bounded.stamped i hmem).2
  unfold FBFTLog.getCommittedBlockAndMsgsFromNumber
  split_ifs with hmem
  · have hk : i < L.k := hsim.bounded.lt_of_stamped hmem
    have hentry := (hall (L.entry s0 a i)).2 ⟨hmem, rfl⟩
    have hblock : log.getBlockByHash (L.entry s0 a i).blockHash = some (L.block i) := by
      have hold := hsim.blocks i hi hk
      rw [if_pos (hsim.bounded.stamped i hmem).1] at hold
      exact (congrArg log.getBlockByHash (hr.committed_blockHash hk)).trans hold
    cases hl : order.messages bn (log.getMessagesByTypeSeq .committed bn) with
    | nil => rw [hl] at hentry; cases hentry
    | cons m ms =>
      have hm : m = L.entry s0 a i := ((hall m).1 (hl ▸ List.mem_cons_self)).2
      rw [hm, List.findSome?_cons, hblock]
      rfl
  · rw [List.findSome?_eq_none_iff]
    intro m hm
    exact absurd ((hall m).1 hm).1 hmem

theorem LogSim.lastMileFrom_eq (hsim : LogSim L s0 h a log) (order : MapOrder E) {fuel : ℕ}
    (hfuel : n ≤ fuel) (hmex : mex a.stamped = h + n) (hbn : bn.toNat = s0.blockNum.toNat + h) :
    Consensus.lastMileFrom log order fuel bn =
      (List.range' h n).map fun i => (L.block i, L.entry s0 a i) := by
  induction n generalizing h fuel bn with
  | zero =>
    have hnot : h ∉ a.stamped := by
      rw [show h = mex a.stamped from hmex.symm]
      exact mex_notMem _
    cases fuel with
    | zero => rfl
    | succ fuel =>
      simp only [Consensus.lastMileFrom, hsim.getCommitted_eq hr order le_rfl hbn, if_neg hnot]
      rfl
  | succ n ih =>
    obtain ⟨fuel, rfl⟩ : ∃ f, fuel = f + 1 := ⟨fuel - 1, by omega⟩
    have hmem : h ∈ a.stamped := mem_of_lt_mex (by omega)
    have hle : n ≤ fuel := Nat.le_of_succ_le_succ hfuel
    have hrest := ih (hsim.mono (Nat.le_succ h)) hle (by omega)
      (hr.toNat_add_one (hsim.bounded.lt_of_stamped hmem) hbn)
    simp only [Consensus.lastMileFrom, hsim.getCommitted_eq hr order le_rfl hbn, if_pos hmem,
      hrest, List.range'_succ, List.map_cons]

variable (hbind : E.HashBindsNumber)

include hbind

section

variable (hsim : LogSim L s0 h a log)

include hsim

/-- The log has a message for each block up to the first that is not stamped. -/
theorem LogSim.le_size (hmex : mex a.stamped = h + n) : n ≤ GoMap.size log.messages := by
  have hmem : ∀ i ∈ Finset.Ico h (h + n), i ∈ a.stamped := fun i hi =>
    mem_of_lt_mex (by rw [hmex]; exact (Finset.mem_Ico.1 hi).2)
  have hlt : ∀ i ∈ Finset.Ico h (h + n), i < L.k := fun i hi =>
    hsim.bounded.lt_of_stamped (hmem i hi)
  rw [GoMap.size_eq_card_keys]
  calc n = (Finset.Ico h (h + n)).card := by simp
    _ = ((Finset.Ico h (h + n)).image fun i => (L.committedMsg s0 i).id).card := by
      refine (Finset.card_image_of_injOn fun i hi j hj heq => ?_).symm
      exact hr.id_injective hbind (hlt i hi) (hlt j hj) heq
    _ ≤ log.messages.keys.toFinset.card := by
      refine Finset.card_le_card fun id hid => ?_
      obtain ⟨i, hi, rfl⟩ := Finset.mem_image.1 hid
      have hlookup := hsim.has i (Finset.mem_Ico.1 hi).1 (hsim.bounded.stamped i (hmem i hi)).2
      rw [List.mem_toFinset]
      exact AList.lookup_isSome.1 (by rw [hlookup]; rfl)

/-! ## New entries -/

/-- The block of a PREPARED message is cached. -/
theorem LogSim.addBlock (hj : j < L.k) :
    LogSim L s0 h { a with arrived := insert (.body j) a.arrived } (log.addBlock (L.block j)) := by
  refine ⟨hsim.bounded.insert (body_mem_all.2 hj), fun i hi hk => ?_, ?_, ?_⟩
  · simp only [FBFTLog.addBlock, FBFTLog.getBlockByHash, GoMap.lookup_insert_eq,
      Finset.mem_insert, Half.body.injEq]
    obtain rfl | hij := eq_or_ne i j
    · simp
    · have hne : E.blockHash (L.block i) ≠ E.blockHash (L.block j) :=
        fun heq => hij (hr.hash_injective hbind hk hj heq)
      have hold := hsim.blocks i hi hk
      rw [FBFTLog.getBlockByHash] at hold
      simp [if_neg hne, hij, hold]
  · intro id m hm htype hnum
    obtain ⟨i, hmem, hrest⟩ := hsim.only id m hm htype hnum
    exact ⟨i, Finset.mem_insert_of_mem hmem, hrest⟩
  · exact fun i hi hmem => hsim.has i hi (by simpa using hmem)

/-- A COMMITTED message is logged, with or without its mark: the states `a` and `a'` agree on
    the other messages. -/
theorem LogSim.insert_committed (a' : CatchUp.State) (hb : Bounded L.k a')
    (harr : a'.arrived = insert (.stamp j) a.arrived)
    (hother : ∀ i ≠ j, i ∈ a'.stamped ↔ i ∈ a.stamped) :
    LogSim L s0 h a' { log with
      messages := log.messages.insert (L.committedMsg s0 j).id (L.entry s0 a' j) } := by
  have hentry : ∀ i ≠ j, L.entry s0 a' i = L.entry s0 a i := by
    intro i hij
    simp only [entry, hother i hij]
  have hself : .stamp j ∈ a'.arrived := by simp [harr]
  refine ⟨hb, fun i hi hk => ?_, fun id m hm htype hnum => ?_, fun i hi hmem => ?_⟩
  · exact (hsim.blocks i hi hk).trans (if_congr (by simp [harr]) rfl rfl)
  · rcases GoMap.lookup_insert_cases hm with ⟨rfl, rfl⟩ | ⟨hid, hm⟩
    · exact ⟨j, hself, rfl, rfl⟩
    · obtain ⟨i, hmem, rfl, hmi⟩ := hsim.only id m hm htype hnum
      have hij : i ≠ j := fun heq => hid (by rw [heq])
      exact ⟨i, by simp [harr, hmem], rfl, hmi.trans (hentry i hij).symm⟩
  · dsimp only
    rw [GoMap.lookup_insert_eq]
    obtain rfl | hij := eq_or_ne i j
    · rw [if_pos rfl]
    · have hne : (L.committedMsg s0 i).id ≠ (L.committedMsg s0 j).id :=
        fun heq => hij (hr.id_injective hbind (hb.lt hmem) (hb.lt hself) heq)
      rw [if_neg hne, hentry i hij]
      exact hsim.has i hi (by simpa [harr, hij] using hmem)

theorem LogSim.addNotVerifiedMessage (hj : j < L.k) (hnot : j ∉ a.stamped) {v : Bool} :
    LogSim L s0 h { a with arrived := insert (.stamp j) a.arrived }
      (log.addNotVerifiedMessage { L.committedMsg s0 j with verified := v }) := by
  have hins := hsim.insert_committed hr hbind { a with arrived := insert (.stamp j) a.arrived }
    (hsim.bounded.insert (stamp_mem_all.2 hj)) rfl fun _ _ => Iff.rfl
  rwa [show L.entry s0 { a with arrived := insert (.stamp j) a.arrived } j =
    { L.committedMsg s0 j with verified := false } by simp [entry, hnot]] at hins

theorem LogSim.addVerifiedMessage (hbody : .body j ∈ a.arrived) (hstamp : .stamp j ∈ a.arrived)
    {v : Bool} : LogSim L s0 h { a with stamped := insert j a.stamped }
      (log.addVerifiedMessage { L.committedMsg s0 j with verified := v }) := by
  have hins := hsim.insert_committed hr hbind (j := j) { a with stamped := insert j a.stamped }
    ⟨hsim.bounded.arrived, ?_⟩ (Finset.insert_eq_of_mem hstamp).symm fun i hij => by simp [hij]
  · rwa [show L.entry s0 { a with stamped := insert j a.stamped } j =
      { L.committedMsg s0 j with verified := true } by simp [entry]] at hins
  · intro i hi
    rcases Finset.mem_insert.1 hi with rfl | hi
    · exact ⟨hbody, hstamp⟩
    · exact hsim.bounded.stamped i hi

end

end

/-! ## The node -/

/-- The node after `h` blocks of the backlog, apart from its log. -/
structure NodeSim (L : Backlog) (s0 : Consensus E) (h : ℕ) (s : Consensus E) : Prop where
  blockNum : s.blockNum.toNat = s0.blockNum.toNat + h
  priKey : s.priKey = s0.priKey
  blockVerifierSet : s.blockVerifierSet = true
  crashed : s.crashed = false
  blockchain : s.blockchain = L.chainAt s0.blockchain h
  committee : h < L.k → s.decider.publicKeys = s0.decider.publicKeys ∧
    s.leaderPubKey = s0.leaderPubKey

theorem Ready.nodeSim (hr : L.Ready s0) : NodeSim L s0 0 s0 :=
  ⟨rfl, rfl, hr.blockVerifierSet, hr.crashed, rfl, fun _ => ⟨rfl, rfl⟩⟩

variable {s s' : Consensus E} {ts : List (Task E)}

/-- The fields that `NodeSim` is about. -/
def view (s : Consensus E) :=
  (s.blockNum, s.priKey, s.blockVerifierSet, s.crashed, s.blockchain, s.decider.publicKeys,
    s.leaderPubKey)

theorem NodeSim.of_view (hsim : NodeSim L s0 h s) (hview : view s' = view s) :
    NodeSim L s0 h s' := by
  simp only [view, Prod.mk.injEq] at hview
  obtain ⟨hnum, hpri, hset, hcrashed, hchain, hkeys, hleader⟩ := hview
  exact ⟨hnum ▸ hsim.blockNum, hpri.trans hsim.priKey, hset.trans hsim.blockVerifierSet,
    hcrashed.trans hsim.crashed, hchain.trans hsim.blockchain,
    fun hh => ⟨hkeys.trans (hsim.committee hh).1, hleader.trans (hsim.committee hh).2⟩⟩

/-- The node, with the log it needs for the state `a` and its goroutines. -/
structure SimAt (L : Backlog) (s0 : Consensus E) (h : ℕ) (a : CatchUp.State) (ts : List (Task E))
    (s : Consensus E) : Prop where
  node : NodeSim L s0 h s
  log : LogSim L s0 h a s.fbftLog
  tasks : s.tasks = ts

/-- A block that is marked or passes the verifier gets through. -/
theorem verifyUnlessMarked_of_verifies (s : Consensus E) {blk : Block}
    (hv : E.blockVerifier s.blockchain blk = true) :
    (s.verifyUnlessMarked blk).2 = true ∧
      ((s.verifyUnlessMarked blk).1 = s ∨
        (s.verifyUnlessMarked blk).1 = s.markBlockVerified blk) := by
  unfold Consensus.verifyUnlessMarked
  split_ifs
  · exact ⟨rfl, Or.inl rfl⟩
  · exact ⟨rfl, Or.inr rfl⟩

section

variable (hr : L.Ready s0)

include hr

/-- The commit of the next block of the backlog. -/
theorem commitBlock_sim (hsim : SimAt L s0 h a ts s) (hh : h < L.k) :
    (s.commitBlock (L.block h) (L.entry s0 a h)).2 = true ∧
      SimAt L s0 (h + 1) a ts (s.commitBlock (L.block h) (L.entry s0 a h)).1 := by
  have hnode := hsim.node
  have hnew : (E.currentBlock s.blockchain).numberU64 < (L.block h).numberU64 := by
    rw [hnode.blockchain]
    exact (hr.isNew h hh).1
  have hinserts : (E.insertChain s.blockchain (L.block h)).2 = true := by
    rw [hnode.blockchain]
    exact hr.inserts h hh
  -- `t` is the state in which the next round is set up
  obtain ⟨t, ht, hchain, hcommit⟩ := Consensus.commitBlock_of_inserts hnew hinserts
    (show (L.entry s0 a h).senderPubkeys = [s0.leaderPubKey] from rfl)
  rw [hnode.blockchain] at hchain
  have hset := Consensus.setupForNewConsensus_spec t (L.block h) s0.leaderPubKey
  rw [hcommit]
  refine ⟨rfl, ⟨?_, ?_, ?_, ?_, hset.blockchain.trans hchain, ?_⟩, ?_, ?_⟩
  · rw [hset.blockNum]
    exact hr.toNat_add_one hh (hr.number h hh)
  · rw [hset.priKey, ht.eq]
    exact hnode.priKey
  · rw [hset.blockVerifierSet, ht.eq]
    exact hnode.blockVerifierSet
  · rw [hset.crashed, ht.eq]
    exact hnode.crashed
  · intro hlt
    rcases hset.committee with ⟨hkeys, hleader, -, -⟩ | ⟨c, hc, hlast, hkeys, hleader, -, -⟩
    · refine ⟨?_, hleader⟩
      rw [hkeys, ht.eq]
      exact (hnode.committee hh).1
    · have hc' : ({ s0 with blockchain := L.chainAt s0.blockchain (h + 1) } :
          Consensus E).committeeToSet = some c := by
        rw [show L.chainAt s0.blockchain (h + 1) = t.blockchain from hchain.symm]
        exact hc
      obtain ⟨hsame, hhead⟩ := hr.committee h hlt hlast c hc'
      refine ⟨hkeys.trans hsame, ?_⟩
      rw [hleader, hsame, Consensus.firstOr, List.headD_eq_head?_getD, hhead]
      rfl
  · have hpos := hr.pos
    have hnum := hr.number h hh
    rw [hset.fbftLog, ht.eq]
    exact (hsim.log.mono (Nat.le_succ h)).pruneCacheBeforeBlock hr (by omega) (by omega)
  · rw [hset.tasks, ht.eq]
    exact hsim.tasks

/-- The loop of `tryCatchup` commits the blocks one after the other. -/
theorem catchupLoop_sim (hn : h + n ≤ L.k) (hsim : SimAt L s0 h a ts s)
    {l : List (Block × FBFTMessage E)}
    (hl : l = (List.range' h n).map fun i => (L.block i, L.entry s0 a i)) :
    SimAt L s0 (h + n) a ts (Consensus.catchupLoop s l) := by
  induction n generalizing h s l with
  | zero =>
    subst hl
    exact hsim
  | succ n ih =>
    have hh : h < L.k := by omega
    have hv : E.blockVerifier s.blockchain (L.block h) = true := by
      rw [hsim.node.blockchain]
      exact hr.verifies h hh h le_rfl
    obtain ⟨hpass, hmarked⟩ := verifyUnlessMarked_of_verifies s hv
    -- marking the block changes nothing of this
    have hsim' : SimAt L s0 h a ts (s.verifyUnlessMarked (L.block h)).1 := by
      rcases hmarked with heq | heq
      all_goals rw [heq]
      · exact hsim
      · obtain ⟨hb, hblocks, honly, hhas⟩ := hsim.log
        exact ⟨hsim.node.of_view rfl, ⟨hb, hblocks, honly, hhas⟩, hsim.tasks⟩
    obtain ⟨hok, hnext⟩ := commitBlock_sim hr hsim' hh
    rw [hl, List.range'_succ, List.map_cons]
    simp only [Consensus.catchupLoop, hpass, hok, Bool.not_true, Bool.false_eq_true, if_false]
    rw [show h + (n + 1) = h + 1 + n by omega]
    refine ih (by omega) (s := Consensus.emit _ _) ?_ rfl
    exact ⟨hnext.node.of_view rfl, hnext.log, hnext.tasks⟩

theorem NodeSim.not_low (hsim : NodeSim L s0 h s) (hh : h ≤ j) (hj : j < L.k) :
    ¬ (L.committedMsg s0 j).blockNum < s.blockNum - 1 := by
  have hpos := hr.pos
  have hnum := hsim.blockNum
  have hpred := toNat_sub_one_add_one (n := s.blockNum) (by omega)
  rw [UInt64.lt_iff_toNat_lt, hr.committed_blockNum hj]
  omega

variable (hbind : E.HashBindsNumber)

include hbind

theorem tryCatchup_sim (order : MapOrder E) (hsim : SimAt L s0 h a ts s) (hle : h ≤ a.height) :
    SimAt L s0 a.height a ts (s.tryCatchup order) := by
  obtain ⟨n, hn⟩ := Nat.exists_eq_add_of_le hle
  have hn' : mex a.stamped = h + n := hn
  have hmile : s.getLastMileBlocksAndMsg order s.blockNum =
      (List.range' h n).map fun i => (L.block i, L.entry s0 a i) :=
    hsim.log.lastMileFrom_eq hr order (Nat.le_succ_of_le (hsim.log.le_size hr hbind hn')) hn'
      hsim.node.blockNum
  have hloop := catchupLoop_sim hr (hn' ▸ hsim.log.bounded.mex_le) hsim hmile
  unfold Consensus.tryCatchup
  rw [hsim.node.blockVerifierSet, if_neg (by decide), hn]
  dsimp only
  rw [Consensus.postCatchup_eq]
  exact ⟨hloop.node.of_view rfl, hloop.log, hloop.tasks⟩

/-- A COMMITTED message whose block has not arrived waits. -/
theorem onCommitted_waits (order : MapOrder E) (hsim : SimAt L s0 h a ts s) (hh : h ≤ j)
    (hj : j < L.k) (hbody : .body j ∉ a.arrived) :
    SimAt L s0 h { a with arrived := insert (.stamp j) a.arrived } ts
      (s.onCommitted order (L.committedMsg s0 j)) := by
  have hlow := hsim.node.not_low hr hh hj
  have hblk : s.fbftLog.getBlockByHash (L.committedMsg s0 j).blockHash = none := by
    rw [hr.committed_blockHash hj, hsim.log.blocks j hh hj, if_neg hbody]
  rw [Consensus.onCommitted_of_not_cached order hlow hblk, Consensus.spinUpIfLow_eq]
  exact ⟨hsim.node.of_view rfl, hsim.log.addNotVerifiedMessage hr hbind hj
    (fun hmem => hbody (hsim.log.bounded.stamped j hmem).1), hsim.tasks⟩

/-- A COMMITTED message whose block has arrived is marked, and the node catches up. -/
theorem onCommitted_stamps (order : MapOrder E) (hsim : SimAt L s0 a.height a ts s) (hj : j < L.k)
    (hbody : .body j ∈ a.arrived) (hnot : j ∉ a.stamped) (v : Bool) {a' : CatchUp.State}
    (ha' : a' = ⟨insert (.stamp j) a.arrived, insert j a.stamped⟩) :
    SimAt L s0 a'.height a' ts
      (s.onCommitted order { L.committedMsg s0 j with verified := v }) := by
  have hh : a.height ≤ j := mex_le_of_notMem hnot
  have hlow := hsim.node.not_low hr hh hj
  have hblk : s.fbftLog.getBlockByHash (L.committedMsg s0 j).blockHash = some (L.block j) := by
    rw [hr.committed_blockHash hj, hsim.log.blocks j hh hj, if_pos hbody]
  have hcert : s.acceptsCertificate (L.committedMsg s0 j).payload (E.commitPayload (L.block j)) =
      true := by
    rw [Consensus.acceptsCertificate_congr (hsim.node.committee (by omega)).1]
    exact (hr.committed j hj).2.2
  have habsent : E.getBlockByHash s.blockchain (E.blockHash (L.block j)) = none := by
    rw [hsim.node.blockchain]
    exact (hr.isNew j hj).2 _ hh
  obtain ⟨aggSig, mask, heq⟩ := Consensus.onCommitted_of_accepts
    (m := { L.committedMsg s0 j with verified := v }) order hlow hblk hcert habsent
  -- logged without the mark and then with it
  have hlog := (hsim.log.addNotVerifiedMessage hr hbind hj hnot (v := v)).addVerifiedMessage hr
    hbind (Finset.mem_insert_of_mem hbody) (Finset.mem_insert_self _ _) (v := v)
  rw [← ha'] at hlog
  have hle : a.height ≤ a'.height := by
    subst ha'
    exact mex_mono (Finset.subset_insert j _)
  rw [heq, Consensus.spinUpIfLow_eq]
  exact tryCatchup_sim hr hbind order ⟨hsim.node.of_view rfl, hlog, hsim.tasks⟩ hle

/-- A PREPARED message brings its block; for the next block a follow-up starts. -/
theorem onPrepared_sim (hsim : SimAt L s0 h a ts s) (hh : h ≤ j) (hj : j < L.k) :
    SimAt L s0 h { a with arrived := insert (.body j) a.arrived }
      (ts ++ if h = j then [.followUpStart (L.block j)] else [])
      (s.onPrepared (L.preparedMsg s0 j)) := by
  obtain ⟨hmsg, hdecode, hcert⟩ := hr.prepared j hj
  have hnum : (L.preparedMsg s0 j).blockNum.toNat = s0.blockNum.toNat + j := by
    rw [← hr.number j hj, ← hmsg.blockNum]
    rfl
  have hhash : (L.preparedMsg s0 j).blockHash = E.blockHash (L.block j) := hmsg.blockHash
  have hlow : ¬ (L.preparedMsg s0 j).blockNum < s.blockNum := by
    rw [UInt64.lt_iff_toNat_lt, hnum, hsim.node.blockNum]
    omega
  have hfuture : (L.preparedMsg s0 j).blockNum > s.blockNum ↔ h ≠ j := by
    rw [gt_iff_lt, UInt64.lt_iff_toNat_lt, hnum, hsim.node.blockNum]
    omega
  have hcert' : s.acceptsCertificate (L.preparedMsg s0 j).payload
      (L.preparedMsg s0 j).blockHash.toList = true := by
    rw [hhash, Consensus.acceptsCertificate_congr (hsim.node.committee (by omega)).1]
    exact hcert
  have hverifies : E.blockVerifier s.blockchain (L.block j) = true := by
    rw [hsim.node.blockchain]
    exact hr.verifies j hj h hh
  have htype : (L.preparedMsg s0 j).messageType ≠ .committed := by
    rw [show (L.preparedMsg s0 j).messageType = .prepared from hmsg.type]
    decide
  obtain ⟨hb, hblocks, honly, hhas⟩ := (hsim.log.addBlock hr hbind hj).addVerifiedMessage_other hr
    (m := { L.preparedMsg s0 j with block := [] }) htype
  have hlog : LogSim L s0 h { a with arrived := insert (.body j) a.arrived }
      (((s.fbftLog.addBlock (L.block j)).addVerifiedMessage
        { L.preparedMsg s0 j with block := [] }).markBlockVerified (L.block j)) :=
    ⟨hb, hblocks, honly, hhas⟩
  rcases Consensus.onPrepared_of_accepts hcert' hdecode hmsg.blockNum.symm hhash.symm hlow
    hsim.node.blockVerifierSet hverifies with ⟨hlater, heq⟩ | ⟨hnext, aggSig, mask, heq⟩
  · rw [heq, Consensus.spinUpIfLow_eq, if_neg (hfuture.1 hlater), List.append_nil]
    exact ⟨hsim.node.of_view rfl, hlog, hsim.tasks⟩
  · rw [heq, Consensus.spinUpIfLow_eq, if_pos (not_not.1 fun hne => hnext (hfuture.2 hne))]
    exact ⟨hsim.node.of_view rfl, hlog, congrArg (· ++ _) hsim.tasks⟩

end

/-! ## Delivery -/

/-- The message that carries one half of a block. -/
def message (L : Backlog) : Half → Message
  | .body j => L.prepared j
  | .stamp j => L.committed j

/-- The messages arrive one after the other from the sender, in the order of the list; after
    each of them the goroutines run, in any way, until none is left. -/
inductive Delivered (L : Backlog) (sender : SerializedPublicKey) :
    List Half → Consensus E → Consensus E → Prop
  | nil (s : Consensus E) : Delivered L sender [] s s
  | cons {x : Half} {l : List Half} {s s' : Consensus E} (order : MapOrder E)
      (tasks : List (NodeEvent E)) (htasks : ∀ e ∈ tasks, e.isTask = true)
      (hdone : (Run.run Consensus.step (s.step (.message order (L.message x) sender)) tasks).tasks
        = [])
      (hrest : Delivered L sender l
        (Run.run Consensus.step (s.step (.message order (L.message x) sender)) tasks) s') :
      Delivered L sender (x :: l) s s'

/-- The node has done all it can for what has arrived. -/
def Simulates (L : Backlog) (s0 : Consensus E) (a : CatchUp.State) (s : Consensus E) : Prop :=
  SimAt L s0 a.height a [] s

/-- What the follow-up of the next block does to the stamps. -/
def settle (a : CatchUp.State) : CatchUp.State :=
  if .stamp a.height ∈ a.arrived then { a with stamped := insert a.height a.stamped } else a

/-- The node on the way to the state `a`, with the runs of the follow-up that are left: it is
    there, or the body of the next block has just arrived and the follow-up is about to start or
    in its loop. -/
inductive Settling (L : Backlog) (s0 : Consensus E) (a : CatchUp.State) (s : Consensus E) :
    ℕ → Prop
  | done (h : Simulates L s0 a s) : Settling L s0 a s 0
  | start (a' : CatchUp.State)
      (h : SimAt L s0 a'.height a' [.followUpStart (L.block a'.height)] s)
      (hbody : .body a'.height ∈ a'.arrived) (ha : a = settle a') : Settling L s0 a s 2
  | loop (a' : CatchUp.State) (msgs : List (FBFTMessage E))
      (h : SimAt L s0 a'.height a' [.followUp s.blockNum msgs] s)
      (hbody : .body a'.height ∈ a'.arrived) (ha : a = settle a')
      (hmsgs : ∀ m ∈ msgs, m = L.entry s0 a' a'.height)
      (hnil : msgs = [] ↔ .stamp a'.height ∉ a'.arrived) : Settling L s0 a s 1

/-- When no goroutine is left, the node is there. -/
theorem Settling.simulates (hset : Settling L s0 a s n) (hidle : s.tasks = []) :
    Simulates L s0 a s := by
  cases hset with
  | done h => exact h
  | start a' h => rw [h.tasks] at hidle; cases hidle
  | loop a' msgs h => rw [h.tasks] at hidle; cases hidle

theorem NodeSim.step_task (hsim : NodeSim L s0 h s) (order : MapOrder E) (i : ℕ) :
    s.step (.task order i) = s.schedule order i := by
  rw [Consensus.step, hsim.crashed, if_neg (by decide)]

/-- The handler that a message of the leader reaches. -/
theorem step_message (hsim : SimAt L s0 h a ts s) (hh : h < L.k)
    (order : MapOrder E) {t : MessageType} {b : Block} {msg : Message}
    (hmsg : Consensus.FromLeader s0 t b msg) :
    s.step (.message order msg s0.leaderPubKey.bytes) =
      s.route order msg (singleSender s0.leaderPubKey msg) := by
  have hleader : s.leaderPubKey = s0.leaderPubKey := (hsim.node.committee hh).2
  have hchecks : s.messageChecks msg s0.leaderPubKey.bytes = none := by
    simp [Consensus.messageChecks, hleader, hmsg.signed]
  rw [Consensus.step, hsim.node.crashed, if_neg (by decide)]
  simp only [Consensus.handleMessageUpdate, hchecks, hmsg.parse s]

section

variable (hr : L.Ready s0)

include hr

theorem not_isLeader (hsim : SimAt L s0 h a ts s) (hh : h < L.k) : s.isLeader = false := by
  have hold := hr.isLeader
  rw [Consensus.isLeader] at hold ⊢
  rw [hsim.node.priKey, (hsim.node.committee hh).2]
  exact hold

/-- The follow-up finds the message of its block if it waits, and no other. -/
theorem mem_getNotVerified_iff (hsim : SimAt L s0 a.height a ts s)
    (hbody : .body a.height ∈ a.arrived) (m : FBFTMessage E) :
    m ∈ s.fbftLog.getNotVerifiedCommittedMessages (L.block a.height).numberU64 0
        (E.blockHash (L.block a.height)) ↔
      .stamp a.height ∈ a.arrived ∧ m = L.entry s0 a a.height := by
  have hk : a.height < L.k := body_mem_all.1 (hsim.log.bounded.arrived _ hbody)
  have hnot : a.height ∉ a.stamped := mex_notMem _
  rw [← hsim.log.mem_values_iff hr le_rfl (hr.number _ hk)]
  simp only [FBFTLog.getNotVerifiedCommittedMessages, FBFTLog.findMessages, List.mem_filter,
    Bool.and_eq_true, beq_iff_eq, Bool.not_eq_true']
  constructor
  · rintro ⟨hvalue, ⟨⟨⟨htype, hbn⟩, -⟩, -⟩, -⟩
    exact ⟨hvalue, htype, hbn⟩
  · intro hm
    obtain ⟨-, rfl⟩ := (hsim.log.mem_values_iff hr le_rfl (hr.number _ hk)).1 hm
    exact ⟨hm.1, ⟨⟨hm.2, (hr.committed _ hk).2.1⟩, hr.committed_blockHash hk⟩,
      by simpa [entry] using hnot⟩

variable (hbind : E.HashBindsNumber)

include hbind

/-- One run of the follow-up brings the node closer to the state. -/
theorem Settling.task (hset : Settling L s0 a s n) (order : MapOrder E) (i : ℕ) :
    Settling L s0 a (s.step (.task order i)) (if i = 0 then n - 1 else n) := by
  cases hset with
  | done h =>
    rw [h.node.step_task, Consensus.schedule, h.tasks, ite_self]
    exact .done h
  | start a' h hbody ha =>
    rw [h.node.step_task, Consensus.schedule, h.tasks]
    cases i with
    | succ i => exact .start a' h hbody ha
    | zero =>
      refine .loop a' _ ⟨h.node.of_view rfl, h.log, rfl⟩ hbody ha ?_ ?_
      · intro m hm
        rw [(order.messages_perm _ _).mem_iff] at hm
        exact ((mem_getNotVerified_iff hr h hbody m).1 hm).2
      · rw [List.eq_nil_iff_forall_not_mem]
        simp only [(order.messages_perm _ _).mem_iff]
        constructor
        · intro hnone hmem
          exact hnone _ ((mem_getNotVerified_iff hr h hbody _).2 ⟨hmem, rfl⟩)
        · intro hmem m hm
          exact hmem ((mem_getNotVerified_iff hr h hbody m).1 hm).1
  | loop a' msgs h hbody ha hmsgs hnil =>
    rw [h.node.step_task, Consensus.schedule, h.tasks]
    cases i with
    | succ i => exact .loop a' msgs h hbody ha hmsgs hnil
    | zero =>
      set t : Consensus E := { s with tasks := [] } with ht
      have htsim : SimAt L s0 a'.height a' [] t := ⟨h.node.of_view rfl, h.log, rfl⟩
      show Settling L s0 a (t.runFollowUp order s.blockNum msgs) 0
      cases msgs with
      | nil =>
        rw [settle, if_neg (hnil.1 rfl)] at ha
        exact .done (ha ▸ htsim)
      | cons m rest =>
        have hwait : .stamp a'.height ∈ a'.arrived := not_not.1 fun hmem => by cases hnil.2 hmem
        rw [settle, if_pos hwait] at ha
        have ha' : a = ⟨insert (.stamp a'.height) a'.arrived, insert a'.height a'.stamped⟩ := by
          rw [ha, Finset.insert_eq_of_mem hwait]
        have hsim := onCommitted_stamps hr hbind order htsim (h.log.bounded.lt hwait) hbody
          (mex_notMem _) (decide (a'.height ∈ a'.stamped)) ha'
        rw [hmsgs m List.mem_cons_self]
        have hgrown : s.blockNum < (t.onCommitted order (L.entry s0 a' a'.height)).blockNum := by
          have hlt : a'.height < a.height := by
            rw [ha]
            refine lt_of_le_of_ne (mex_mono (Finset.subset_insert _ _)) fun heq => ?_
            have hmex : mex (insert a'.height a'.stamped) = a'.height := heq.symm
            refine mex_notMem (insert a'.height a'.stamped) ?_
            rw [hmex]
            exact Finset.mem_insert_self _ _
          rw [UInt64.lt_iff_toNat_lt, h.node.blockNum]
          exact lt_of_lt_of_eq (by omega) hsim.node.blockNum.symm
        simp only [Consensus.runFollowUp]
        rw [if_pos hgrown]
        exact .done hsim

theorem Settling.run (hset : Settling L s0 a s n) {tasks : List (NodeEvent E)}
    (htasks : ∀ e ∈ tasks, e.isTask = true) :
    ∃ m, Settling L s0 a (Run.run Consensus.step s tasks) m := by
  have hsteps : Run.Steps Consensus.step (fun _ e => e.isTask = true) s tasks :=
    Run.Steps.of_forall fun e he _ => htasks e he
  refine Run.run_invariant (fun t => ∃ m, Settling L s0 a t m) ?_ ⟨n, hset⟩ hsteps
  rintro t e ⟨m, hm⟩ he
  cases e with
  | task order i => exact ⟨_, hm.task hr hbind order i⟩
  | _ => cases he

/-- Two runs of the follow-up finish it. -/
theorem Settling.run_twice (hset : Settling L s0 a s n) (order : MapOrder E) :
    (Run.run Consensus.step s [.task order 0, .task order 0]).tasks = [] := by
  have hfirst := hset.task hr hbind order 0
  have hsecond := hfirst.task hr hbind order 0
  rw [if_pos rfl, if_pos rfl] at hsecond
  have hn : n - 1 - 1 = 0 := by cases hset <;> rfl
  rw [hn] at hsecond
  cases hsecond with
  | done h => exact h.tasks

/-- One message takes the node towards the next state of the machine. -/
theorem message_settling (hsim : Simulates L s0 a s) (order : MapOrder E) {x : Half}
    (hx : x ∉ a.arrived) (hxk : x ∈ all L.k) :
    ∃ n, Settling L s0 (a.step x)
      (s.step (.message order (L.message x) s0.leaderPubKey.bytes)) n := by
  cases x with
  | body j =>
    have hj : j < L.k := body_mem_all.1 hxk
    have hh : a.height ≤ j := mex_le_of_notMem fun hmem => hx (hsim.log.bounded.stamped j hmem).1
    have hmsg := (hr.prepared j hj).1
    rw [message, step_message hsim (by omega) order hmsg]
    simp only [Consensus.route, hmsg.type, not_isLeader hr hsim (lt_of_le_of_lt hh hj)]
    have hnext := onPrepared_sim hr hbind hsim hh hj
    rw [List.nil_append] at hnext
    change SimAt L s0 ({ a with arrived := insert (.body j) a.arrived } : CatchUp.State).height _ _
      _ at hnext
    by_cases heq : a.height = j
    · rw [if_pos heq] at hnext
      subst heq
      refine ⟨2, .start _ hnext (Finset.mem_insert_self _ _) ?_⟩
      unfold State.step settle
      split_ifs with hstamps hwait hwait
      · rfl
      · exact absurd (Finset.mem_insert_of_mem hstamps.1) hwait
      · exact absurd ⟨Finset.mem_of_mem_insert_of_ne hwait (by simp), rfl⟩ hstamps
      · rfl
    · rw [if_neg heq] at hnext
      rw [State.step, if_neg fun hcond => heq hcond.2]
      exact ⟨0, .done hnext⟩
  | stamp j =>
    have hj : j < L.k := stamp_mem_all.1 hxk
    have hnot : j ∉ a.stamped := fun hmem => hx (hsim.log.bounded.stamped j hmem).2
    have hh : a.height ≤ j := mex_le_of_notMem hnot
    have hmsg := (hr.committed j hj).1
    rw [message, step_message hsim (by omega) order hmsg]
    simp only [Consensus.route, hmsg.type, not_isLeader hr hsim (lt_of_le_of_lt hh hj)]
    rw [State.step]
    split_ifs with hbody
    · exact ⟨0, .done (onCommitted_stamps hr hbind order hsim hj hbody hnot false rfl)⟩
    · exact ⟨0, .done (onCommitted_waits hr hbind order hsim hh hj hbody)⟩

theorem next_settling {pre : List Half} {x : Half} (hnd : (pre ++ x :: l).Nodup)
    (hall : pre ++ x :: l ⊆ all L.k) (hsim : Simulates L s0 (Run.run State.step .empty pre) s)
    (order : MapOrder E) :
    ∃ n, Settling L s0 (Run.run State.step .empty (pre ++ [x]))
      (s.step (.message order (L.message x) s0.leaderPubKey.bytes)) n := by
  have hx : x ∉ (Run.run State.step .empty pre).arrived := fun hmem =>
    (List.nodup_append.1 hnd).2.2 x (State.mem_arrived.1 hmem) x List.mem_cons_self rfl
  have hxk : x ∈ all L.k := hall (List.mem_append_right _ List.mem_cons_self)
  rw [Run.run_concat]
  exact message_settling hr hbind hsim order hx hxk

/-- The validator follows the machine. -/
theorem delivered_simulates (pre : List Half) (hnd : (pre ++ l).Nodup) (hall : pre ++ l ⊆ all L.k)
    {s s' : Consensus E} (hsim : Simulates L s0 (Run.run State.step .empty pre) s)
    (hdel : L.Delivered s0.leaderPubKey.bytes l s s') :
    Simulates L s0 (Run.run State.step .empty (pre ++ l)) s' := by
  induction hdel generalizing pre with
  | nil s => rwa [List.append_nil]
  | @cons x l s s' order tasks htasks hdone hrest ih =>
    obtain ⟨n, hset⟩ := next_settling hr hbind hnd hall hsim order
    obtain ⟨m, hsettled⟩ := hset.run hr hbind htasks
    have hnext := hsettled.simulates hdone
    rw [show pre ++ x :: l = (pre ++ [x]) ++ l by simp] at hnd hall ⊢
    exact ih _ hnd hall hnext

/-- The messages can be delivered in every order. -/
theorem exists_delivered (pre : List Half) (hnd : (pre ++ l).Nodup) (hall : pre ++ l ⊆ all L.k)
    {s : Consensus E} (hsim : Simulates L s0 (Run.run State.step .empty pre) s) :
    ∃ s', L.Delivered s0.leaderPubKey.bytes l s s' := by
  have order : MapOrder E := ⟨fun _ l => l, id, id, fun _ l => List.Perm.refl l,
    List.Perm.refl, List.Perm.refl⟩
  induction l generalizing pre s with
  | nil => exact ⟨s, .nil s⟩
  | cons x l ih =>
    obtain ⟨n, hset⟩ := next_settling hr hbind hnd hall hsim order
    have htasks : ∀ e ∈ [NodeEvent.task order 0, .task order 0], e.isTask = true := by
      simp [NodeEvent.isTask]
    have hdone := hset.run_twice hr hbind order
    obtain ⟨m, hsettled⟩ := hset.run hr hbind htasks
    have hnext := hsettled.simulates hdone
    rw [show pre ++ x :: l = (pre ++ [x]) ++ l by simp] at hnd hall
    obtain ⟨s', hs'⟩ := ih _ hnd hall hnext
    exact ⟨s', .cons order _ htasks hdone hs'⟩

end

/-- The messages of the backlog can be delivered in every order, and the validator catches up,
    with all blocks in its chain, exactly when each PREPARED message comes before its COMMITTED
    message or after both messages of all earlier blocks. -/
theorem catch_up_iff_inOrder (L : Backlog) (s : Consensus E) (hbind : E.HashBindsNumber)
    (hr : L.Ready s) (l : List Half) (hl : l.Perm (all L.k)) :
    (∃ s', L.Delivered s.leaderPubKey.bytes l s s') ∧
      ∀ s', L.Delivered s.leaderPubKey.bytes l s s' →
        ((s'.blockNum.toNat = s.blockNum.toNat + L.k ∧
          s'.blockchain = L.chainAt s.blockchain L.k) ↔ InOrder L.k l) := by
  have hnd : l.Nodup := hl.nodup_iff.2 (nodup_all L.k)
  have hall : l ⊆ all L.k := fun x hx => hl.mem_iff.1 hx
  have hheight : State.empty.height = 0 := mex_eq_of_forall_mem (by simp) (by simp [State.empty])
  have hstart : Simulates L s (Run.run State.step .empty []) s := by
    rw [Simulates, show (Run.run State.step .empty []).height = 0 from hheight]
    exact ⟨hr.nodeSim, hr.logSim, hr.tasks⟩
  refine ⟨exists_delivered hr hbind [] hnd hall hstart, fun s' hdel => ?_⟩
  have hsim := delivered_simulates hr hbind [] hnd hall hstart hdel
  rw [List.nil_append] at hsim
  rw [← height_run_eq_iff hl]
  constructor
  · rintro ⟨hnum, -⟩
    have hnum' := hsim.node.blockNum
    omega
  · intro heq
    have hnode := hsim.node
    rw [heq] at hnode
    exact ⟨hnode.blockNum, hnode.blockchain⟩

end Backlog

/-! ## Two blocks behind -/

namespace Concrete

instance : DecidableEq env.Chain := inferInstanceAs (DecidableEq Chain)

/-- A validator at block 1. -/
def behind : Consensus env := node [2] 1 [1, 2, 3, 4] 1

/-- The blocks 1 and 2, with certificates of three members. -/
def twoBlocks : Backlog where
  k := 2
  block j := blk (UInt8.ofNat (j + 1)) 0 0
  prepared j := preparedMsg [1, 2, 3, 4] [1, 2, 3] 1 (blk (UInt8.ofNat (j + 1)) 0 0)
    (UInt8.ofNat (j + 1))
  committed j := committedMsg [1, 2, 3, 4] [1, 2, 3] 1 1 (blk (UInt8.ofNat (j + 1)) 0 0)
    (UInt8.ofNat (j + 1))

theorem ready_twoBlocks : twoBlocks.Ready behind where
  isLeader := by decide +kernel
  blockVerifierSet := rfl
  crashed := rfl
  tasks := rfl
  pos := by decide
  fits := by decide
  noMessage := fun m hm => by cases hm
  noBlock := fun j _ => rfl
  number := by decide +kernel
  verifies := by decide +kernel
  inserts := by decide +kernel
  isNew := by decide +kernel
  committee := by
    intro j hj hlast
    obtain rfl : j = 0 := by
      have hk : twoBlocks.k = 2 := rfl
      omega
    exact absurd hlast (by decide +kernel)
  prepared := by decide +kernel
  committed := by decide +kernel

/-- Each message, and after it two runs of the first goroutine. -/
def playHalves (L : Backlog) (sender : UInt8) : List Half → Consensus env → Consensus env
  | [], s => s
  | x :: l, s => playHalves L sender l
      (Run.run Consensus.step (s.step (deliver (L.message x) sender))
        [.task order 0, .task order 0])

/-- No goroutine is left after any of the messages. -/
def idleAfterEach (L : Backlog) (sender : UInt8) : List Half → Consensus env → Bool
  | [], _ => true
  | x :: l, s =>
    let s' := Run.run Consensus.step (s.step (deliver (L.message x) sender))
      [.task order 0, .task order 0]
    s'.tasks.isEmpty && idleAfterEach L sender l s'

theorem delivered_playHalves {L : Backlog} {sender : UInt8} {l : List Half} {s : Consensus env}
    (h : idleAfterEach L sender l s = true) :
    L.Delivered (pub sender).bytes l s (playHalves L sender l s) := by
  induction l generalizing s with
  | nil => exact .nil s
  | cons x l ih =>
    simp only [idleAfterEach, Bool.and_eq_true, List.isEmpty_iff] at h
    exact .cons order [.task order 0, .task order 0] (by simp [NodeEvent.isTask]) h.1 (ih h.2)

/-- The messages of block 2 come first, COMMITTED before PREPARED: the validator stays at
    block 2 with both its messages in the log. -/
theorem out_of_order_delivery :
    twoBlocks.Ready behind ∧ [.stamp 1, .body 1, .body 0, .stamp 0].Perm (all twoBlocks.k) ∧
      ∃ s', twoBlocks.Delivered behind.leaderPubKey.bytes [.stamp 1, .body 1, .body 0, .stamp 0]
        behind s' ∧ s'.blockNum.toNat = behind.blockNum.toNat + 1 ∧
        s'.blockchain = twoBlocks.chainAt behind.blockchain 1 := by
  refine ⟨ready_twoBlocks, by decide, _, delivered_playHalves (by decide +kernel), ?_, ?_⟩
  · decide +kernel
  · decide +kernel

/-- The COMMITTED message of block 1 comes first and waits for its PREPARED message. -/
theorem catch_up_committed_first :
    twoBlocks.Delivered behind.leaderPubKey.bytes [.stamp 0, .body 0, .body 1, .stamp 1] behind
        (playHalves twoBlocks 1 [.stamp 0, .body 0, .body 1, .stamp 1] behind) ∧
      (playHalves twoBlocks 1 [.stamp 0, .body 0, .body 1, .stamp 1] behind).blockNum.toNat =
        behind.blockNum.toNat + twoBlocks.k ∧
      (playHalves twoBlocks 1 [.stamp 0, .body 0, .body 1, .stamp 1] behind).blockchain =
        twoBlocks.chainAt behind.blockchain twoBlocks.k := by
  have hdel : twoBlocks.Delivered behind.leaderPubKey.bytes [.stamp 0, .body 0, .body 1, .stamp 1]
      behind (playHalves twoBlocks 1 [.stamp 0, .body 0, .body 1, .stamp 1] behind) :=
    delivered_playHalves (by decide +kernel)
  exact ⟨hdel, ((Backlog.catch_up_iff_inOrder twoBlocks behind hashBindsNumber ready_twoBlocks
    [.stamp 0, .body 0, .body 1, .stamp 1] (by decide)).2 _ hdel).2 (by decide)⟩

end Concrete

end Benzene
