import Benzene.Common.Run
import Benzene.Consensus.Concrete
import Benzene.Consensus.StepSpec

/-!
# Prepare certificates

An honest validator signs a PREPARE for every ANNOUNCE that `onAnnounceSanityChecks` lets
through, and the check of a second announcement for another block only writes to the debug
log.  A leader that announces two blocks collects prepare certificates for both.

* `step_signs`: a node signs a PREPARE only for the hash of the ANNOUNCE it handles, or of the
  block it proposes, at the block number that it is at.
* `prepare_certificates_unique`: if no honest node gets announcements of two blocks at one
  block number, two certificates for one block number are for one hash.
* `two_prepare_certificates`: four members, one of them faulty, and certificates for two hashes.
-/

namespace Benzene

variable {E : Env}

/-- The key and the hash of a prepare signature. -/
def Action.prepareSignature : Action E → Option (SerializedPublicKey × Hash)
  | .signed .prepare pubKey blockHash => some (pubKey, blockHash)
  | _ => none

theorem prepareSignature_eq_none_of_kind {a : Action E} (h : a.kind ≠ .signed .prepare) :
    a.prepareSignature = none := by
  cases a with
  | signed p pubKey blockHash => cases p <;> simp_all [Action.kind, Action.prepareSignature]
  | _ => rfl

namespace Consensus

/-! ## What a node signs -/

/-- The event announces the hash to the node: an ANNOUNCE message, or an own proposal. -/
def Announces (s : Consensus E) : NodeEvent E → Hash → Prop
  | .message _ msg _, h =>
    msg.type = .announce ∧ ∃ m, s.parseFBFTMessage msg = .ok m ∧ m.blockHash = h
  | .propose _ newBlock, h => E.blockHash newBlock = h
  | _, _ => False

/-- The prepare signatures of an entry are by own keys, at the block number of the node, and of
    the hashes `hs`. -/
def SignsOnly (s : Consensus E) (hs : Hash → Prop) (e : Entry E) : Prop :=
  ∀ k h, e.action.prepareSignature = some (k, h) →
    hs h ∧ e.blockNum = s.blockNum ∧ ∃ key ∈ s.priKey, key.pub.bytes = k

/-- A step whose prepare signatures are of the hashes `hs`. -/
structure Signs (hs : Hash → Prop) (s s' : Consensus E) : Prop where
  priKey : s'.priKey = s.priKey
  emits : Emits (SignsOnly s hs) s s'

variable {s s' : Consensus E} {hs : Hash → Prop}

theorem signsOnly_of_kind {ks : List ActionKind} {e : Entry E} (he : e.action.kind ∈ ks)
    (hks : ActionKind.signed .prepare ∉ ks) : SignsOnly s hs e := by
  intro k h hsig
  rw [prepareSignature_eq_none_of_kind fun heq => hks (heq ▸ he)] at hsig
  cases hsig

theorem onAnnounce_signs {order : MapOrder E} {msg : Message} {m : FBFTMessage E}
    (hparse : s.parseFBFTMessage msg = .ok m) :
    Signs (· = m.blockHash) s (s.onAnnounce order msg) := by
  refine ⟨(onAnnounce_quiet (a := .any) hparse trivial).priKey, ?_⟩
  unfold onAnnounce
  rw [hparse]
  dsimp only
  split_ifs
  · exact Emits.refl s
  · set t : Consensus E := { s.addVerifiedMessage m with blockHash := m.blockHash }
    have hlog : Emits (SignsOnly s (· = m.blockHash)) s t :=
      ⟨[_], rfl, by simp [SignsOnly, Action.prepareSignature]⟩
    refine hlog.trans ((t.prepare_spec order).2.mono ?_)
    rintro e ⟨hnum, ⟨key, hkey, he⟩ | ⟨network, he, -⟩⟩ k h hsig
    all_goals rw [he] at hsig
    · simp only [Action.prepareSignature, Option.some.injEq, Prod.mk.injEq] at hsig
      obtain ⟨rfl, rfl⟩ := hsig
      exact ⟨rfl, hnum, key, List.mem_of_mem_filter hkey, rfl⟩
    · cases hsig

theorem announce_signs (order : MapOrder E) (block : Block) :
    Signs (· = E.blockHash block) s (s.announce order block) := by
  refine ⟨(announce_quiet (a := .any) order (fun _ _ _ => trivial) trivial).priKey, ?_⟩
  rcases s.announce_cases order block with
    h | ⟨enc, t, -, rfl, h | ⟨key, network, -, -, -, h⟩⟩
  · rw [h]
    exact Emits.refl s
  · rw [h]
    exact Emits.of_trace_eq rfl
  · set t : Consensus E := ({ s with blockHash := E.blockHash block, block := enc } :
      Consensus E).logAnnounce network.fbftMsg block
    have hlog : Emits (SignsOnly s (· = E.blockHash block)) s t :=
      ⟨[_], rfl, by simp [SignsOnly, Action.prepareSignature]⟩
    have hvote : Emits (SignsOnly s (· = E.blockHash block)) s (t.voteAnnounce block).1 := by
      refine hlog.trans ((t.voteAnnounce_spec block).emits.mono ?_)
      rintro e ⟨hnum, key, hkey, he⟩ k h hsig
      rw [he] at hsig
      simp only [Action.prepareSignature, Option.some.injEq, Prod.mk.injEq] at hsig
      obtain ⟨rfl, rfl⟩ := hsig
      exact ⟨rfl, hnum, key, hkey, rfl⟩
    rcases h with h | h
    all_goals rw [h]
    · exact hvote
    · refine hvote.trans (Emits.trans (Emits.emit _ fun k h hsig => ?_) (Emits.of_trace_eq rfl))
      cases hsig

theorem Signs.mono {hs' : Hash → Prop} (h : Signs hs s s') (hle : ∀ hash, hs hash → hs' hash) :
    Signs hs' s s' :=
  ⟨h.priKey, h.emits.mono fun _ he k hash hsig => ⟨hle hash (he k hash hsig).1, (he k hash hsig).2⟩⟩

/-- A node signs PREPAREs only for what the event announces. -/
theorem step_signs (s : Consensus E) (e : NodeEvent E) : Signs (Announces s e) s (s.step e) := by
  rcases (s.step_dispatch e).acts with ⟨ks, -, hks, h⟩ |
    ⟨order, msg, senderKey, m, rfl, htype, hparse, heq⟩ | ⟨order, newBlock, rfl, heq⟩
  · exact ⟨h.priKey, h.emits.mono fun _ he => signsOnly_of_kind he hks⟩
  · rw [heq]
    exact (onAnnounce_signs hparse).mono fun h hh => ⟨htype, m, hparse, hh.symm⟩
  · rw [heq]
    exact (s.announce_signs order newBlock).mono fun h hh => hh.symm

/-! ## Runs of honest nodes -/

/-- The condition on a step: at each block number the node gets announcements of one hash. -/
def AnnouncesOne (H : UInt64 → Hash) (s : Consensus E) (e : NodeEvent E) : Prop :=
  ∀ h, Announces s e h → h = H s.blockNum

/-- The node has the keys it started with, and signed PREPAREs with them for the hashes `H`. -/
structure PrepareInv (H : UInt64 → Hash) (keys : List E.PriKey) (s : Consensus E) : Prop where
  priKey : s.priKey = keys
  signed : ∀ e ∈ s.trace, ∀ k h, e.action.prepareSignature = some (k, h) →
    h = H e.blockNum ∧ ∃ key ∈ keys, key.pub.bytes = k

theorem step_prepareInv {H : UInt64 → Hash} {keys : List E.PriKey} (h : PrepareInv H keys s)
    {e : NodeEvent E} (hok : AnnouncesOne H s e) : PrepareInv H keys (s.step e) := by
  obtain ⟨hkey, hemits⟩ := s.step_signs e
  refine ⟨hkey.trans h.priKey, (hemits.mono ?_).forall_mem h.signed⟩
  intro entry hentry k hash hsig
  obtain ⟨hannounced, hnum, hown⟩ := hentry k hash hsig
  rw [hnum, ← h.priKey]
  exact ⟨hok hash hannounced, hown⟩

variable {ι : Type*}

/-- On one of the nodes the key has signed a PREPARE for the hash at a block number. -/
def SignedPrepare (w : ι → Consensus E) (bn : UInt64) (k : SerializedPublicKey) (h : Hash) : Prop :=
  ∃ i, ∃ e ∈ (w i).trace, e.blockNum = bn ∧ e.action.prepareSignature = some (k, h)

/-- Prepare signatures of a quorum of the committee for the hash at a block number; a faulty
    member signs anything. -/
def HasPrepareCertificate (w : ι → Consensus E) (committee faulty : Finset SerializedPublicKey)
    (bn : UInt64) (h : Hash) : Prop :=
  ∃ signers ⊆ committee, Threshold.twoThirds committee.card ≤ signers.card ∧
    ∀ k ∈ signers, k ∉ faulty → SignedPrepare w bn k h

/-- In every run of honest nodes, each key on one node, in which no node gets announcements of
    two hashes at one block number, a node signs PREPAREs for one hash at each block number,
    and two prepare certificates for one block number are for one hash. -/
theorem prepare_certificates_unique [DecidableEq ι] {w : ι → Consensus E}
    {committee faulty : Finset SerializedPublicKey}
    (hfaulty : faulty.card ≤ Threshold.faultBound committee.card)
    (htrace : ∀ i, (w i).trace = [])
    (hown : ∀ i j, ∀ a ∈ (w i).priKey, ∀ b ∈ (w j).priKey, a.pub.bytes = b.pub.bytes →
      a.pub.bytes ∉ faulty → i = j)
    {H : ι → UInt64 → Hash} {es : List (ι × NodeEvent E)}
    (hes : Run.Steps (Run.stepAt step) (fun w e => AnnouncesOne (H e.1) (w e.1) e.2) w es) :
    (∀ i, ∀ e ∈ (Run.run (Run.stepAt step) w es i).trace,
      ∀ e' ∈ (Run.run (Run.stepAt step) w es i).trace, e.blockNum = e'.blockNum →
      ∀ k h k' h', e.action.prepareSignature = some (k, h) →
        e'.action.prepareSignature = some (k', h') → h = h') ∧
    ∀ bn h h', HasPrepareCertificate (Run.run (Run.stepAt step) w es) committee faulty bn h →
      HasPrepareCertificate (Run.run (Run.stepAt step) w es) committee faulty bn h' → h = h' := by
  have hinv : ∀ i, PrepareInv (H i) (w i).priKey (Run.run (Run.stepAt step) w es i) := by
    refine Run.runAt_invariant (fun i => AnnouncesOne (H i))
      (fun i => PrepareInv (H i) (w i).priKey) ?_ ?_ hes
    · exact fun i t e ht hok => step_prepareInv ht hok
    · intro i
      refine ⟨rfl, ?_⟩
      rw [htrace i]
      exact List.forall_mem_nil _
  generalize Run.run (Run.stepAt step) w es = w' at hinv
  refine ⟨?_, ?_⟩
  · intro i e he e' he' hnum k h k' h' hsig hsig'
    rw [((hinv i).signed e he k h hsig).1, ((hinv i).signed e' he' k' h' hsig').1, hnum]
  · rintro bn h h' ⟨signers, hsub, hquorum, hsigned⟩ ⟨signers', hsub', hquorum', hsigned'⟩
    -- an honest key signed both, on its one node and at one block number
    refine Threshold.eq_of_quorums (SignedPrepare w' bn) ?_ hfaulty hsub hquorum hsigned
      hsub' hquorum' hsigned'
    rintro k hk h h' ⟨i, e, he, hnum, hsig⟩ ⟨j, e', he', hnum', hsig'⟩
    obtain ⟨heq, a, ha, hak⟩ := (hinv i).signed e he k h hsig
    obtain ⟨heq', b, hb, hbk⟩ := (hinv j).signed e' he' k h' hsig'
    obtain rfl : i = j := hown i j a ha b hb (hak.trans hbk.symm) (hak ▸ hk)
    rw [heq, heq', hnum, hnum']

end Consensus

namespace Concrete

open Consensus

/-- The committee of the keys 1 to 4. -/
def committeeBytes : Finset SerializedPublicKey :=
  ([1, 2, 3, 4].map fun k => (pub k).bytes).toFinset

/-- Three honest nodes with the keys 1, 2 and 3; the leader, key 4, is faulty. -/
def honest (i : Fin 3) : Consensus env := node [UInt8.ofNat (i + 1)] 4 [1, 2, 3, 4] 1

/-- The keys of the honest nodes. -/
def honestBytes : Finset SerializedPublicKey :=
  Finset.univ.image fun i : Fin 3 => (pub (UInt8.ofNat (i + 1))).bytes

/-- The ANNOUNCE of a block from the leader. -/
def announced (b : Block) : NodeEvent env := deliver (announceMsg 4 b 1) 4

/-- The ANNOUNCE of a block reaches every honest node. -/
def announceToAll (b : Block) : List (Fin 3 × NodeEvent env) :=
  [0, 1, 2].map fun i => (i, announced b)

theorem announceToAll_filter (b : Block) (i : Fin 3) :
    ((announceToAll b).filter (·.1 = i)).map Prod.snd = [announced b] := by
  fin_cases i <;> rfl

theorem hasPrepareCertificate_of_honest {es : List (Fin 3 × NodeEvent env)} {h : Hash}
    (hsigned : ∀ i : Fin 3, ∃ e ∈ (Run.run step (honest i)
      ((es.filter (·.1 = i)).map Prod.snd)).trace, e.blockNum = 1 ∧
        e.action.prepareSignature = some ((pub (UInt8.ofNat (i + 1))).bytes, h)) :
    HasPrepareCertificate (Run.run (Run.stepAt step) honest es) committeeBytes
      {(pub 4).bytes} 1 h := by
  refine ⟨honestBytes, by decide, by decide, ?_⟩
  intro k hk _
  obtain ⟨i, -, rfl⟩ := Finset.mem_image.1 hk
  refine ⟨i, ?_⟩
  rw [Run.run_stepAt_apply]
  exact hsigned i

theorem announcesOne_announced (b : Block) (s : Consensus env) :
    AnnouncesOne (fun _ => env.blockHash b) s (announced b) := by
  rintro h ⟨-, m, hm, rfl⟩
  obtain ⟨req, hreq, -, -, -, hhash⟩ := parseFBFTMessage_eq_ok hm
  obtain rfl := Option.some.inj hreq
  rw [hhash]
  exact copyBytes_toList _

theorem honest_own (i j : Fin 3) : ∀ a ∈ (honest i).priKey, ∀ b ∈ (honest j).priKey,
    a.pub.bytes = b.pub.bytes → a.pub.bytes ∉ ({(pub 4).bytes} : Finset SerializedPublicKey) →
      i = j := by
  have hinj : ∀ i j : Fin 3, (pub (UInt8.ofNat (i + 1))).bytes = (pub (UInt8.ofNat (j + 1))).bytes →
      i = j := by decide
  intro a ha b hb hbytes _
  rw [List.mem_singleton.1 ha, List.mem_singleton.1 hb] at hbytes
  exact hinj i j hbytes

/-- One block is announced to the three honest nodes: its hash gets the only certificate. -/
theorem prepare_certificates_unique_one :
    HasPrepareCertificate (Run.run (Run.stepAt step) honest (announceToAll (blk 1 0 0)))
      committeeBytes {(pub 4).bytes} 1 (env.blockHash (blk 1 0 0)) ∧
    ∀ h, HasPrepareCertificate (Run.run (Run.stepAt step) honest (announceToAll (blk 1 0 0)))
      committeeBytes {(pub 4).bytes} 1 h → h = env.blockHash (blk 1 0 0) := by
  have hes : Run.Steps (Run.stepAt step) (fun w e => AnnouncesOne
      ((fun _ _ => env.blockHash (blk 1 0 0) : Fin 3 → UInt64 → Hash) e.1) (w e.1) e.2) honest
      (announceToAll (blk 1 0 0)) :=
    ⟨announcesOne_announced _ _, announcesOne_announced _ _, announcesOne_announced _ _, trivial⟩
  have hcert : HasPrepareCertificate (Run.run (Run.stepAt step) honest
      (announceToAll (blk 1 0 0))) committeeBytes {(pub 4).bytes} 1
        (env.blockHash (blk 1 0 0)) := by
    refine hasPrepareCertificate_of_honest ?_
    simp only [announceToAll_filter]
    decide +kernel
  refine ⟨hcert, fun h hh => ?_⟩
  exact (prepare_certificates_unique (H := fun _ _ => env.blockHash (blk 1 0 0)) (by decide)
    (fun _ => rfl) honest_own hes).2 1 h _ hh hcert

/-- Both hashes of the equivocating leader get the signatures of all honest members. -/
theorem two_prepare_certificates :
    ({(pub 4).bytes} : Finset SerializedPublicKey).card ≤
      Threshold.faultBound committeeBytes.card ∧
    HasPrepareCertificate (Run.run (Run.stepAt step) honest
      (announceToAll (blk 1 0 0) ++ announceToAll (blk 1 1 0))) committeeBytes {(pub 4).bytes} 1
      (env.blockHash (blk 1 0 0)) ∧
    HasPrepareCertificate (Run.run (Run.stepAt step) honest
      (announceToAll (blk 1 0 0) ++ announceToAll (blk 1 1 0))) committeeBytes {(pub 4).bytes} 1
      (env.blockHash (blk 1 1 0)) ∧
    env.blockHash (blk 1 0 0) ≠ env.blockHash (blk 1 1 0) := by
  refine ⟨by decide, hasPrepareCertificate_of_honest ?_, hasPrepareCertificate_of_honest ?_,
    by decide⟩
  all_goals
    simp only [List.filter_append, List.map_append, announceToAll_filter]
    decide +kernel

end Concrete

end Benzene
