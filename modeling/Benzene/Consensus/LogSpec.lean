import Benzene.Consensus.LeaderSpec
import Benzene.Consensus.Node
import Benzene.Consensus.ValidatorSpec

/-!
# What a step can add to the log

Each handler adds at most a few messages, blocks and goroutines, and pruning takes some away.
Said once for every handler, this gives the invariants that speak of all messages, blocks
and goroutines of a node.

* `Grows a s s'`: what is in `s'` was in `s` or is allowed by `a`.
* `Holds P s`: all that is in `s` satisfies `P`; kept by `Grows` (`Grows.holds`).
* `Dispatch`, `step_dispatch`: which handler an event reaches.
-/

namespace Benzene

variable {E : Env}

/-- Predicates on messages, blocks and goroutines. -/
structure Contents (E : Env) where
  msg : FBFTMessage E → Prop
  blk : Block → Prop
  task : Task E → Prop

/-- Anything is allowed. -/
def Contents.any : Contents E := ⟨fun _ => True, fun _ => True, fun _ => True⟩

/-- The messages that a goroutine holds. -/
def Task.messages : Task E → List (FBFTMessage E)
  | .preCommit network _ => [network.fbftMsg]
  | .followUp _ committedMsgs => committedMsgs
  | .followUpStart _ => []
  | .gracePeriod _ => []

namespace FBFTLog

/-- The log `log'` has no more messages and blocks than `log` and those that `a` allows; a new
    block is stored under its own hash. -/
structure Grows (a : Contents E) (log log' : FBFTLog E) : Prop where
  messages : ∀ m ∈ GoMap.values log'.messages, m ∈ GoMap.values log.messages ∨ a.msg m
  blocks : ∀ h b, log'.getBlockByHash h = some b →
    log.getBlockByHash h = some b ∨ E.blockHash b = h ∧ a.blk b

variable {a : Contents E} {log : FBFTLog E}

theorem Grows.refl (log : FBFTLog E) : Grows a log log := ⟨fun _ => Or.inl, fun _ _ => Or.inl⟩

theorem Grows.trans {log log' log'' : FBFTLog E} (h : Grows a log log') (h' : Grows a log' log'') :
    Grows a log log'' := by
  constructor
  · intro m hm
    rcases h'.messages m hm with hm | hm
    · exact h.messages m hm
    · exact Or.inr hm
  · intro hash b hb
    rcases h'.blocks hash b hb with hb | hb
    · exact h.blocks hash b hb
    · exact Or.inr hb

theorem Grows.addVerifiedMessage {m : FBFTMessage E} (h : a.msg { m with verified := true }) :
    Grows a log (log.addVerifiedMessage m) := by
  refine ⟨fun m' hm' => ?_, fun _ _ => Or.inl⟩
  rcases GoMap.mem_values_insert hm' with rfl | hm'
  · exact Or.inr h
  · exact Or.inl hm'

theorem Grows.addNotVerifiedMessage {m : FBFTMessage E} (h : a.msg { m with verified := false }) :
    Grows a log (log.addNotVerifiedMessage m) := by
  refine ⟨fun m' hm' => ?_, fun _ _ => Or.inl⟩
  rcases GoMap.mem_values_insert hm' with rfl | hm'
  · exact Or.inr h
  · exact Or.inl hm'

theorem Grows.addBlock {b : Block} (h : a.blk b) : Grows a log (log.addBlock b) := by
  refine ⟨fun _ => Or.inl, fun hash b' hb' => ?_⟩
  simp only [FBFTLog.addBlock, getBlockByHash, GoMap.lookup_insert_eq] at hb'
  split_ifs at hb' with hash_eq
  · obtain rfl := Option.some.inj hb'
    exact Or.inr ⟨hash_eq.symm, h⟩
  · exact Or.inl hb'

theorem exists_of_hasMatchingPrepared {bn : UInt64} {hash : Hash}
    (h : log.hasMatchingPrepared bn hash = true) : ∃ m ∈ GoMap.values log.messages,
      m.messageType = .prepared ∧ m.blockNum = bn ∧ m.blockHash = hash := by
  obtain ⟨m, hm⟩ := List.exists_mem_of_length_pos (of_decide_eq_true h)
  simp only [getMessagesByTypeSeqHash, findMessages, List.mem_filter, Bool.and_eq_true,
    beq_iff_eq] at hm
  obtain ⟨hmem, ⟨⟨htype, hnum⟩, hhash⟩, -⟩ := hm
  exact ⟨m, hmem, htype, hnum, hhash⟩

theorem Grows.pruneCacheBeforeBlock (bn : UInt64) : Grows a log (log.pruneCacheBeforeBlock bn) := by
  constructor
  · intro m hm
    exact Or.inl (GoMap.mem_values_filter hm)
  · intro hash b hb
    exact Or.inl (GoMap.lookup_filter_eq_some.1 hb).1

end FBFTLog

namespace Consensus

/-- The state `s'` has no more messages, blocks and goroutines than `s` and those that `a`
    allows. -/
structure Grows (a : Contents E) (s s' : Consensus E) : Prop where
  log : FBFTLog.Grows a s.fbftLog s'.fbftLog
  tasks : ∀ t ∈ s'.tasks, t ∈ s.tasks ∨ a.task t

/-- All messages, blocks and goroutines satisfy `P`, and each block is stored under its own
    hash. -/
structure Holds (P : Contents E) (s : Consensus E) : Prop where
  messages : ∀ m ∈ GoMap.values s.fbftLog.messages, P.msg m
  blocks : ∀ h b, s.fbftLog.getBlockByHash h = some b → E.blockHash b = h ∧ P.blk b
  tasks : ∀ t ∈ s.tasks, P.task t

variable {a P : Contents E} {s s' s'' : Consensus E}

theorem Grows.of_eq (hlog : s'.fbftLog = s.fbftLog) (htasks : s'.tasks = s.tasks) :
    Grows a s s' := by
  refine ⟨?_, fun t ht => Or.inl (htasks ▸ ht)⟩
  rw [hlog]
  exact FBFTLog.Grows.refl _

theorem Grows.of_log (hlog : FBFTLog.Grows a s.fbftLog s'.fbftLog) (htasks : s'.tasks = s.tasks) :
    Grows a s s' :=
  ⟨hlog, fun _ ht => Or.inl (htasks ▸ ht)⟩

theorem Grows.trans (h : Grows a s s') (h' : Grows a s' s'') : Grows a s s'' := by
  refine ⟨h.log.trans h'.log, fun t ht => ?_⟩
  rcases h'.tasks t ht with ht | ht
  · exact h.tasks t ht
  · exact Or.inr ht

theorem Grows.spawn {t : Task E} (h : a.task t) : Grows a s (s.spawn t) := by
  refine ⟨FBFTLog.Grows.refl _, fun t' ht' => ?_⟩
  rcases List.mem_append.1 ht' with ht' | ht'
  · exact Or.inl ht'
  · rw [List.mem_singleton.1 ht']
    exact Or.inr h

theorem Grows.holds (hg : Grows P s s') (h : Holds P s) : Holds P s' where
  messages m hm := (hg.log.messages m hm).elim (h.messages m) id
  blocks hash b hb := (hg.log.blocks hash b hb).elim (h.blocks hash b) id
  tasks t ht := (hg.tasks t ht).elim (h.tasks t) id

theorem Holds.mono {Q : Contents E} (h : Holds P s) (hmsg : ∀ m, P.msg m → Q.msg m)
    (hblk : ∀ b, P.blk b → Q.blk b) (htask : ∀ t, P.task t → Q.task t) : Holds Q s where
  messages m hm := hmsg m (h.messages m hm)
  blocks hash b hb := ⟨(h.blocks hash b hb).1, hblk b (h.blocks hash b hb).2⟩
  tasks t ht := htask t (h.tasks t ht)

/-- A node that has just been started. -/
structure StartUp (s : Consensus E) : Prop where
  fbftLog : s.fbftLog = FBFTLog.newFBFTLog
  tasks : s.tasks = []
  trace : s.trace = []

theorem StartUp.holds (h : StartUp s) (P : Contents E) : Holds P s := by
  refine ⟨?_, ?_, ?_⟩
  · rw [h.fbftLog]
    intro m hm
    cases hm
  · rw [h.fbftLog]
    intro hash b hb
    cases hb
  · rw [h.tasks]
    intro t ht
    cases ht

/-! ## What the handlers add -/

theorem postCatchup_eq (s : Consensus E) (initBN : UInt64) :
    s.postCatchup initBN = { s with phase := (s.postCatchup initBN).phase } := by
  unfold postCatchup
  split_ifs <;> rfl

/-- The decoded block of a PREPARED message that passed the checks. -/
def IsPreparedBlock (m : FBFTMessage E) (b : Block) : Prop :=
  E.decodeBlock m.block = some b ∧ b.numberU64 = m.blockNum ∧ E.blockHash b = m.blockHash

/-- A COMMITTED message of the leader for the block it is working on. -/
structure OwnCommitted (s : Consensus E) (m : FBFTMessage E) : Prop where
  messageType : m.messageType = .committed
  blockNum : m.blockNum = s.blockNum
  blockHash : m.blockHash = s.blockHash
  senderPubkeys : m.senderPubkeys = [s.leaderPubKey]

theorem ownCommitted_ownMessage {order : MapOrder E} {key : E.PriKey} (verified : Bool)
    (hkey : s.getConsensusLeaderPrivateKey = some key) :
    OwnCommitted s { s.ownMessage order .committed [] key with verified := verified } := by
  refine ⟨rfl, rfl, rfl, ?_⟩
  rw [← (getConsensusLeaderPrivateKey_eq_some hkey).2]
  rfl

/-! ## Dispatch -/

/-- The goroutine `i` is taken off the list. -/
abbrev dropTask (s : Consensus E) (i : ℕ) : Consensus E := { s with tasks := s.tasks.eraseIdx i }

/-- The handler that an event reaches in the state `s`. -/
inductive Dispatch (s : Consensus E) : NodeEvent E → Consensus E → Prop
  /-- The event is dropped, or kills the node. -/
  | idle {e : NodeEvent E} {s' : Consensus E} (h : s' = { s with crashed := s'.crashed }) :
      Dispatch s e s'
  | announce {order : MapOrder E} {msg : Message} {senderKey : SerializedPublicKey}
      {m : FBFTMessage E} (hparse : s.parseFBFTMessage msg = .ok m)
      (hmtype : m.messageType = .announce) (htype : msg.type = .announce)
      (hleader : s.isLeader = false) :
      Dispatch s (.message order msg senderKey) (s.onAnnounce order msg)
  | prepared {order : MapOrder E} {msg : Message} {senderKey : SerializedPublicKey}
      {m : FBFTMessage E} (hparse : s.parseFBFTMessage msg = .ok m)
      (hmtype : m.messageType = .prepared) (htype : msg.type = .prepared)
      (hleader : s.isLeader = false) :
      Dispatch s (.message order msg senderKey) (s.onPrepared m)
  | committed {order : MapOrder E} {msg : Message} {senderKey : SerializedPublicKey}
      {m : FBFTMessage E} (hparse : s.parseFBFTMessage msg = .ok m)
      (hmtype : m.messageType = .committed) (htype : msg.type = .committed)
      (hleader : s.isLeader = false) :
      Dispatch s (.message order msg senderKey) (s.onCommitted order m)
  | prepare {order : MapOrder E} {msg : Message} {senderKey : SerializedPublicKey}
      {m : FBFTMessage E} (hparse : s.parseFBFTMessage msg = .ok m) (htype : msg.type = .prepare)
      (hleader : s.isLeader = true) :
      Dispatch s (.message order msg senderKey) (s.onPrepare order m)
  | commit {order : MapOrder E} {msg : Message} {senderKey : SerializedPublicKey}
      {m : FBFTMessage E} (hparse : s.parseFBFTMessage msg = .ok m) (htype : msg.type = .commit)
      (hleader : s.isLeader = true) :
      Dispatch s (.message order msg senderKey) (s.onCommit order m)
  | propose {order : MapOrder E} {newBlock : Block} (h : ¬ newBlock.numberU64 < s.blockNum) :
      Dispatch s (.propose order newBlock) (s.announce order newBlock)
  | preCommit {order : MapOrder E} {i : ℕ} {network : NetworkMessage E} {blk : Block}
      (hget : s.tasks[i]? = some (.preCommit network blk)) :
      Dispatch s (.task order i) ((s.dropTask i).runPreCommit network blk)
  | gracePeriod {order : MapOrder E} {i : ℕ} {viewID : UInt64}
      (hget : s.tasks[i]? = some (.gracePeriod viewID)) :
      Dispatch s (.task order i) ((s.dropTask i).finalCommit order)
  | followUpStart {order : MapOrder E} {i : ℕ} {blk : Block}
      (hget : s.tasks[i]? = some (.followUpStart blk)) :
      Dispatch s (.task order i) ((s.dropTask i).runFollowUpStart order blk)
  | followUp {order : MapOrder E} {i : ℕ} {n : UInt64} {m : FBFTMessage E}
      {rest : List (FBFTMessage E)} (hget : s.tasks[i]? = some (.followUp n (m :: rest))) :
      Dispatch s (.task order i) ((s.dropTask i).runFollowUp order n (m :: rest))
  /-- A goroutine ends without effect. -/
  | dropTask {order : MapOrder E} {i : ℕ} : Dispatch s (.task order i) (s.dropTask i)
  | syncReady : Dispatch s .syncReady s.syncReady
  | syncNotReady : Dispatch s .syncNotReady s.syncNotReady
  | takeBlockNumLow : Dispatch s .takeBlockNumLow { s with blockNumLow := false }
  | chainChanged {blockchain : E.Chain} :
      Dispatch s (.chainChanged blockchain) { s with blockchain := blockchain }

theorem handleMessageUpdate_dispatch (s : Consensus E) (order : MapOrder E) (msg : Message)
    (senderKey : SerializedPublicKey) :
    Dispatch s (.message order msg senderKey) (s.handleMessageUpdate order msg senderKey).1 := by
  unfold handleMessageUpdate
  cases s.messageChecks msg senderKey with
  | some err => exact .idle rfl
  | none =>
    dsimp only
    cases hparse : s.parseFBFTMessage msg with
    | error err => cases err <;> exact .idle rfl
    | ok m =>
      obtain ⟨-, -, -, hmtype, -⟩ := parseFBFTMessage_eq_ok hparse
      dsimp only
      unfold route
      cases htype : msg.type <;> cases hleader : s.isLeader <;> rw [htype] at hmtype
      all_goals first
        | exact .announce hparse hmtype htype hleader
        | exact .prepared hparse hmtype htype hleader
        | exact .committed hparse hmtype htype hleader
        | exact .prepare hparse htype hleader
        | exact .commit hparse htype hleader
        | exact .idle rfl

theorem schedule_dispatch (s : Consensus E) (order : MapOrder E) (i : ℕ) :
    Dispatch s (.task order i) (s.schedule order i) := by
  unfold schedule
  cases hget : s.tasks[i]? with
  | none => exact .idle rfl
  | some task =>
    cases task with
    | preCommit network blk => exact .preCommit hget
    | gracePeriod viewID =>
      dsimp only [runTask, runGracePeriod]
      split_ifs
      · exact .gracePeriod hget
      · exact .dropTask
    | followUpStart blk => exact .followUpStart hget
    | followUp n msgs =>
      cases msgs with
      | nil => exact .dropTask
      | cons m rest => exact .followUp hget

theorem step_dispatch (s : Consensus E) (e : NodeEvent E) : Dispatch s e (s.step e) := by
  have hsame : Dispatch s e s := .idle rfl
  unfold step
  split_ifs
  · exact hsame
  · cases e with
    | message order msg senderKey => exact s.handleMessageUpdate_dispatch order msg senderKey
    | propose order newBlock =>
      dsimp only [proposeBlock]
      split_ifs with hlt
      · exact hsame
      · exact .propose hlt
    | task order i => exact s.schedule_dispatch order i
    | syncReady => exact .syncReady
    | syncNotReady => exact .syncNotReady
    | takeBlockNumLow => exact .takeBlockNumLow
    | chainChanged blockchain => exact .chainChanged

end Consensus

end Benzene
