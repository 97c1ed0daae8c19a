import Benzene.Common.Run
import Benzene.Consensus.Concrete
import Benzene.Consensus.StepSpec

/-!
# A round without faults

The call that would answer a PREPARED message with a COMMIT is commented out in `onPrepared`, so
no handler builds a COMMIT message, the leader never gets a commit vote of another node, and
no COMMITTED message is sent.

* `FaultFreeRound`: the leader proposes a block, and every message that a node sends is
  delivered to all nodes, phase by phase, with the goroutines running in between.
* `fault_free_round_stalls`: after such a round every node is at the block number, and has the
  chain, that it started with.
-/

namespace Benzene

variable {E : Env} {ι : Type*}

namespace Consensus

/-! ## Rounds -/

/-- The messages of a type that the node has sent, oldest first. -/
def sentMessages (t : MessageType) (s : Consensus E) : List Message :=
  s.trace.reverse.filterMap fun e =>
    match e.action with
    | .sent network => if network.message.type = t then some network.message else none
    | _ => none

/-- Every message of a type that a node has sent goes to all nodes, with the sender's key. -/
def deliverAll (order : MapOrder E) (nodes : List ι) (t : MessageType) (w : ι → Consensus E) :
    List (ι × NodeEvent E) :=
  nodes.flatMap fun j => (w j).priKey.flatMap fun key => (sentMessages t (w j)).flatMap fun msg =>
    nodes.map fun i => (i, .message order msg key.pub.bytes)

variable [DecidableEq ι]

/-- The messages of each type in turn are delivered to all nodes, in any order and with
    goroutines in between. -/
inductive Stages (nodes : List ι) :
    List MessageType → (ι → Consensus E) → (ι → Consensus E) → Prop
  | nil {w : ι → Consensus E} : Stages nodes [] w w
  | cons {order : MapOrder E} {t : MessageType} {ts : List MessageType} {w w' : ι → Consensus E}
      {es : List (ι × NodeEvent E)}
      (deliver : (es.filter fun e => !e.2.isTask).Perm (deliverAll order nodes t w))
      (rest : Stages nodes ts (Run.run (Run.stepAt step) w es) w') : Stages nodes (t :: ts) w w'

/-- The leader proposes a block, and then ANNOUNCE, PREPARE, PREPARED, COMMIT and COMMITTED
    messages are delivered. -/
def FaultFreeRound (nodes : List ι) (leader : ι) (block : Block) (w w' : ι → Consensus E) : Prop :=
  ∃ order, Stages nodes [.announce, .prepare, .prepared, .commit, .committed]
    (Run.stepAt step w (leader, .propose order block)) w'

/-- A node at the start of a round: no certificate for its block number or a later one, and
    nothing running. -/
structure RoundStart (s : Consensus E) : Prop where
  committed : ∀ m ∈ GoMap.values s.fbftLog.messages, m.messageType = .committed →
    m.blockNum < s.blockNum
  tasks : s.tasks = []
  trace : s.trace = []

/-! ## Nothing is committed -/

/-- What the node holds while no certificate comes: no COMMITTED message from the block number
    `bn` on, and of goroutines the follow-up of `onPrepared` only. -/
def roundContents (bn : UInt64) : Contents E where
  msg m := m.messageType = .committed → m.blockNum < bn
  blk _ := True
  task
    | .followUpStart b => ¬ b.numberU64 < bn
    | .followUp _ msgs => msgs = []
    | _ => False

/-- The node is where it was at the start of the round and has sent no COMMIT or COMMITTED. -/
structure RoundInv (bn : UInt64) (chain : E.Chain) (s : Consensus E) : Prop where
  blockNum : s.blockNum = bn
  blockchain : s.blockchain = chain
  messages : ∀ m ∈ GoMap.values s.fbftLog.messages, (roundContents (E := E) bn).msg m
  tasks : ∀ t ∈ s.tasks, (roundContents (E := E) bn).task t
  sent : ∀ e ∈ s.trace, e.action.kind ≠ .sent .commit ∧ e.action.kind ≠ .sent .committed

variable {bn : UInt64} {chain : E.Chain} {s s' : Consensus E} {ks : List ActionKind}

theorem RoundStart.inv (h : RoundStart s) : RoundInv s.blockNum s.blockchain s := by
  refine ⟨rfl, rfl, h.committed, ?_, ?_⟩
  · rw [h.tasks]
    exact List.forall_mem_nil _
  · rw [h.trace]
    exact List.forall_mem_nil _

theorem RoundInv.of_quiet (h : RoundInv bn chain s) (hquiet : Quiet (roundContents bn) ks s s')
    (hks : ∀ k ∈ ks, k ≠ .sent .commit ∧ k ≠ .sent .committed ∧ k.writesChain = false) :
    RoundInv bn chain s' where
  blockNum := hquiet.blockNum.trans h.blockNum
  blockchain := (hquiet.blockchain fun k hk => (hks k hk).2.2).trans h.blockchain
  messages m hm := (hquiet.grows.log.messages m hm).elim (h.messages m) id
  tasks t ht := (hquiet.grows.tasks t ht).elim (h.tasks t) id
  sent := (hquiet.emits.mono fun _ he => ⟨(hks _ he).1, (hks _ he).2.1⟩).forall_mem h.sent

/-- The events of a round before any COMMIT or COMMITTED message exists. -/
def WithoutCommits : NodeEvent E → Prop
  | .message _ msg _ => msg.type ≠ .commit ∧ msg.type ≠ .committed
  | .propose _ _ => True
  | .task _ _ => True
  | _ => False

theorem Dispatch.round {e : NodeEvent E} (hd : Dispatch s e s') (h : RoundInv bn chain s)
    (he : WithoutCommits e) : RoundInv bn chain s' := by
  have hother : ∀ {t : MessageType}, t ≠ .committed → ∀ m : FBFTMessage E, m.messageType = t →
      (roundContents (E := E) bn).msg m := fun ht m hm hm' => absurd (hm.symm.trans hm') ht
  have htask : ∀ {i : ℕ} {t}, s.tasks[i]? = some t → (roundContents (E := E) bn).task t :=
    fun hget => h.tasks _ (List.mem_of_getElem? hget)
  cases hd with
  | idle heq => exact h.of_quiet (.silent (by rw [heq])) (List.forall_mem_nil _)
  | dropTask => exact h.of_quiet (s.dropTask_quiet _) (List.forall_mem_nil _)
  | announce hparse hm =>
    exact h.of_quiet (onAnnounce_quiet hparse (hother (by decide) _ hm)) (by decide)
  | @prepared _ _ _ m _ hm =>
    rcases s.onPrepared_cases m with ⟨heq | heq, -⟩ | ⟨-, -, -, hnum, -⟩
    · rw [heq]
      exact h
    · rw [heq]
      exact h.of_quiet (s.spinUpIfLow_quiet _) (List.forall_mem_nil _)
    · refine h.of_quiet (onPrepared_quiet m (hother (by decide) _ hm) fun b hb => ⟨trivial, ?_⟩)
        (by decide)
      rw [h.blockNum, ← hb.2.1] at hnum
      exact hnum
  | committed _ _ htype => exact absurd htype he.2
  | prepare =>
    exact h.of_quiet (onPrepare_quiet _ _ fun m hm _ => hother (by decide) m hm) (by decide)
  | commit _ htype => exact absurd htype he.1
  | propose =>
    exact h.of_quiet (announce_quiet _ (fun m hm _ => hother (by decide) m hm) trivial) (by decide)
  | preCommit hget | gracePeriod hget => exact (htask hget).elim
  | @followUpStart _ i b hget =>
    have hdrop := h.of_quiet (s.dropTask_quiet i) (List.forall_mem_nil _)
    -- the follow-up of `onPrepared` finds no certificate
    refine hdrop.of_quiet (runFollowUpStart_quiet _ fun msgs hmsgs => ?_) (by decide)
    refine List.eq_nil_iff_forall_not_mem.2 fun m hm => htask hget ?_
    obtain ⟨hmem, htype, hnum, -⟩ := hmsgs m hm
    exact hnum ▸ h.messages m hmem htype
  | followUp hget => cases htask hget
  | syncReady | syncNotReady | takeBlockNumLow | chainChanged => exact he.elim

/-! ## The round -/

theorem mem_sentMessages {t : MessageType} {msg : Message} (h : msg ∈ sentMessages t s) :
    msg.type = t ∧ ∃ e ∈ s.trace, e.action.kind = .sent t := by
  obtain ⟨e, he, hsome⟩ := List.mem_filterMap.1 h
  split at hsome
  · rename_i network haction
    split_ifs at hsome with htype
    obtain rfl := Option.some.inj hsome
    refine ⟨htype, e, List.mem_reverse.1 he, ?_⟩
    rw [haction, Action.kind, htype]
  · cases hsome

omit [DecidableEq ι] in
/-- All nodes are where they were, so what is delivered next is not a COMMIT or COMMITTED. -/
theorem withoutCommits_of_mem {order : MapOrder E} {nodes : List ι} {t : MessageType}
    {w : ι → Consensus E} {bn : ι → UInt64} {chain : ι → E.Chain}
    (h : ∀ i, RoundInv (bn i) (chain i) (w i)) {e : ι × NodeEvent E}
    (he : e ∈ deliverAll order nodes t w) : WithoutCommits e.2 := by
  simp only [deliverAll, List.mem_flatMap, List.mem_map] at he
  obtain ⟨j, -, key, -, msg, hmsg, i, -, rfl⟩ := he
  obtain ⟨rfl, e, he, hkind⟩ := mem_sentMessages hmsg
  obtain ⟨hcommit, hcommitted⟩ := (h j).sent e he
  refine ⟨fun htype => hcommit ?_, fun htype => hcommitted ?_⟩
  · rw [hkind, htype]
  · rw [hkind, htype]

theorem stages_round {nodes : List ι} {ts : List MessageType} {w w' : ι → Consensus E}
    {bn : ι → UInt64} {chain : ι → E.Chain} (hstages : Stages nodes ts w w')
    (h : ∀ i, RoundInv (bn i) (chain i) (w i)) : ∀ i, RoundInv (bn i) (chain i) (w' i) := by
  induction hstages with
  | nil => exact h
  | @cons order t ts w w' es deliver rest ih =>
    refine ih (Run.runAt_invariant (fun _ _ => WithoutCommits) (fun i => RoundInv (bn i) (chain i))
      (fun i s e hs he => (s.step_dispatch e).round hs he) h (Run.Steps.of_forall fun e he _ => ?_))
    by_cases htask : e.2.isTask = true
    · obtain ⟨i, e⟩ := e
      cases e <;> trivial
    · refine withoutCommits_of_mem h (deliver.mem_iff.1 (List.mem_filter.2 ⟨he, ?_⟩))
      simpa using htask

/-- After a round without faults every node still is at the block number, and has the chain,
    that it started with. -/
theorem fault_free_round_stalls {nodes : List ι} {leader : ι} {block : Block}
    {w w' : ι → Consensus E} (hstart : ∀ i, RoundStart (w i))
    (hround : FaultFreeRound nodes leader block w w') (i : ι) :
    (w' i).blockNum = (w i).blockNum ∧ (w' i).blockNum ≠ (w i).blockNum + 1 ∧
      (w' i).blockchain = (w i).blockchain := by
  obtain ⟨order, hstages⟩ := hround
  have hsteps : Run.Steps (Run.stepAt step) (fun _ e => WithoutCommits e.2) w
      [(leader, .propose order block)] := ⟨trivial, trivial⟩
  have hpropose := Run.runAt_invariant (fun _ _ => WithoutCommits)
    (fun i => RoundInv (w i).blockNum (w i).blockchain)
    (fun i s e hs he => (s.step_dispatch e).round hs he)
    (fun i => (hstart i).inv) hsteps
  have hinv := stages_round hstages hpropose i
  refine ⟨hinv.blockNum, ?_, hinv.blockchain⟩
  rw [hinv.blockNum]
  simp

end Consensus

namespace Concrete

open Consensus

/-- The leader, with key 1, and one validator, with key 2. -/
def pair (i : Fin 2) : Consensus env := node [UInt8.ofNat (i + 1)] 1 [1, 2] 1

/-- For each entry, the messages of its type are delivered, and then some goroutines run. -/
def playStages : List (MessageType × List (Fin 2 × ℕ)) → (Fin 2 → Consensus env) →
    Fin 2 → Consensus env
  | [], w => w
  | (t, tasks) :: stages, w => playStages stages (Run.run (Run.stepAt step) w
      (deliverAll order [0, 1] t w ++ tasks.map fun p => (p.1, .task order p.2)))

theorem filter_isTask_deliverAll (t : MessageType) (tasks : List (Fin 2 × ℕ))
    (w : Fin 2 → Consensus env) :
    (deliverAll order [0, 1] t w ++
      tasks.map fun p => (p.1, (.task order p.2 : NodeEvent env))).filter
        (fun e => !e.2.isTask) = deliverAll order [0, 1] t w := by
  rw [List.filter_append, List.filter_eq_self.2, List.filter_eq_nil_iff.2, List.append_nil]
  · intro e he
    obtain ⟨p, -, rfl⟩ := List.mem_map.1 he
    exact Bool.false_ne_true
  · intro e he
    simp only [deliverAll, List.mem_flatMap, List.mem_map] at he
    obtain ⟨-, -, -, -, -, -, -, -, rfl⟩ := he
    rfl

theorem stages_playStages (stages : List (MessageType × List (Fin 2 × ℕ)))
    (w : Fin 2 → Consensus env) : Stages [0, 1] (stages.map Prod.fst) w (playStages stages w) := by
  induction stages generalizing w with
  | nil => exact Stages.nil
  | cons stage stages ih =>
    exact Stages.cons (List.Perm.of_eq (filter_isTask_deliverAll stage.1 stage.2 w)) (ih _)

/-- The phases of a round; the validator runs its follow-up after PREPARED. -/
def phases : List (MessageType × List (Fin 2 × ℕ)) :=
  [(.announce, []), (.prepare, []), (.prepared, [(1, 0), (1, 0)]), (.commit, []), (.committed, [])]

/-- Both nodes after the round with block 1. -/
def pairAfter : Fin 2 → Consensus env :=
  playStages phases (Run.stepAt step pair (0, .propose order (blk 1 0 0)))

theorem faultFreeRound_pair : FaultFreeRound [0, 1] 0 (blk 1 0 0) pair pairAfter :=
  ⟨order, stages_playStages phases _⟩

theorem roundStart_pair (i : Fin 2) : RoundStart (pair i) :=
  ⟨List.forall_mem_nil _, rfl, rfl⟩

/-- The round with two nodes. -/
theorem fault_free_round_stalls_pair :
    (∀ i, RoundStart (pair i)) ∧ FaultFreeRound [0, 1] 0 (blk 1 0 0) pair pairAfter ∧
    ∀ i, (pairAfter i).blockNum = 1 ∧ (pairAfter i).blockchain = chainTo 0 := by
  refine ⟨roundStart_pair, faultFreeRound_pair, fun i => ?_⟩
  obtain ⟨hnum, -, hchain⟩ := fault_free_round_stalls roundStart_pair faultFreeRound_pair i
  exact ⟨hnum, hchain⟩

/-- The leader gets the prepare quorum and the validator verifies the block, but neither has
    block 1 in its chain at the end of the round. -/
theorem fault_free_round_not_committed :
    FaultFreeRound [0, 1] 0 (blk 1 0 0) pair pairAfter ∧
    (sentMessages .prepared (pairAfter 0)).length = 1 ∧
    (pairAfter 1).fbftLog.isBlockVerified (blk 1 0 0) = true ∧ (pairAfter 1).tasks.length = 0 ∧
    ∀ i, (pairAfter i).blockNum = 1 ∧ blk 1 0 0 ∉ (pairAfter i).blockchain.blocks := by
  refine ⟨faultFreeRound_pair, ?_⟩
  decide +kernel

end Concrete

end Benzene
