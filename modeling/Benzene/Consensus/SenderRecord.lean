import Benzene.Consensus.Concrete
import Benzene.Consensus.StepSpec

/-!
# The sender of a logged message

`HandleMessageUpdate` verifies the signature of a message under its `senderKey` argument,
which in Normal mode must be the leader's key, while the sender that the log keeps is parsed
from the body of the message.  Nothing compares the two.

* `handleMessageUpdate_logged`: a message from the leader is stored exactly when it passes the
  checks of `StoresMessage`, and what is stored has the senders that the body names.
* `recordsAuthenticatedSender_iff`: so the stored sender is the authenticated leader exactly
  when the body of every message that is stored names it.
* `recordsAuthenticatedSender_fails`: a COMMITTED message, signed by the leader, that names
  another member.
-/

namespace Benzene

variable {E : Env}

namespace Consensus

/-- A logged message has these senders. -/
def LogsSenders (senders : List E.PubKey) (e : Entry E) : Prop :=
  ∀ m, e.action = .logged m → m.senderPubkeys = senders

/-- The message passes every check that comes before it is stored in the log. -/
def StoresMessage (s : Consensus E) (order : MapOrder E) (msg : Message)
    (senderKey : SerializedPublicKey) : Prop :=
  s.messageChecks msg senderKey = none ∧ s.isLeader = false ∧
    ∃ m, s.parseFBFTMessage msg = .ok m ∧
      match msg.type with
      | .announce => s.onAnnounceSanityChecks order m = true
      | .prepared => ¬ m.blockNum < s.blockNum ∧ (s.preparedChecks m).isSome = true
      | .committed => ¬ m.blockNum < s.blockNum - 1
      | _ => False

/-! ## What the handlers log -/

/-- The step from `s` to `s'` logged messages with these senders only, and at least one exactly
    when `stored`. -/
def Logs (senders : List E.PubKey) (stored : Prop) (s s' : Consensus E) : Prop :=
  ∃ l, s'.trace = l ++ s.trace ∧ (∀ e ∈ l, LogsSenders senders e) ∧
    ((∃ e ∈ l, ∃ m, e.action = .logged m) ↔ stored)

theorem Logs.of_trace_eq {senders : List E.PubKey} {stored : Prop} {s s' : Consensus E}
    (h : s'.trace = s.trace) (hn : ¬ stored) : Logs senders stored s s' :=
  ⟨[], h, by simp, by simpa using hn⟩

theorem Logs.of_logged {stored : Prop} {s t s' : Consensus E} {m : FBFTMessage E}
    (ht : ∃ bn d, t.trace = ⟨.logged m, bn, d⟩ :: s.trace)
    (h : Emits (LogsSenders m.senderPubkeys) t s') (hs : stored) :
    Logs m.senderPubkeys stored s s' := by
  obtain ⟨bn, d, ht⟩ := ht
  obtain ⟨l, hl, hP⟩ := h
  refine ⟨l ++ [⟨.logged m, bn, d⟩], by rw [hl, ht, List.append_assoc]; rfl, ?_, ?_⟩
  · intro e he
    rcases List.mem_append.1 he with he | he
    · exact hP e he
    · rw [List.mem_singleton] at he
      subst he
      rintro m' hm'
      cases hm'
      rfl
  · exact ⟨fun _ => hs, fun _ => ⟨⟨.logged m, bn, d⟩,
      List.mem_append_right _ (List.mem_singleton_self _), m, rfl⟩⟩

theorem onAnnounce_logs {s : Consensus E} {order : MapOrder E} {msg : Message}
    {m : FBFTMessage E} (hparse : s.parseFBFTMessage msg = .ok m) :
    Logs m.senderPubkeys (s.onAnnounceSanityChecks order m = true) s (s.onAnnounce order msg) := by
  unfold onAnnounce
  rw [hparse]
  dsimp only
  split_ifs with hsanity
  · exact Logs.of_trace_eq rfl (by simpa using hsanity)
  · have hprepare := ({ s.addVerifiedMessage m with blockHash := m.blockHash } :
      Consensus E).prepare_spec order
    refine Logs.of_logged (m := { m with verified := true }) ⟨_, _, rfl⟩ (hprepare.2.mono ?_)
      (by simpa using hsanity)
    rintro e ⟨-, ⟨key, -, hkey⟩ | ⟨network, hnet, -⟩⟩ m' hm'
    · rw [hm'] at hkey
      cases hkey
    · rw [hm'] at hnet
      cases hnet

variable (s : Consensus E)

theorem onPrepared_logs (m : FBFTMessage E) :
    Logs m.senderPubkeys (¬ m.blockNum < s.blockNum ∧ (s.preparedChecks m).isSome = true) s
      (s.onPrepared m) := by
  have hspin : (s.spinUpIfLow m.blockNum).trace = s.trace := by rw [spinUpIfLow_eq]
  rcases s.onPrepared_cases m with ⟨h, hnone⟩ | ⟨aggSig, mask, blk, hnum, hsome, h⟩
  · refine Logs.of_trace_eq ?_ ?_
    · rcases h with h | h
      · rw [h]
      · rw [h, hspin]
    · rintro ⟨hnum, hsome⟩
      rw [hnone hnum] at hsome
      cases hsome
  · rw [h]
    refine Logs.of_logged (t := (s.spinUpIfLow m.blockNum).logPrepared m blk)
      (m := { m with block := [], verified := true }) ?_ ?_ ⟨hnum, by rw [hsome]; rfl⟩
    · rw [← hspin]
      exact ⟨_, _, rfl⟩
    · generalize (s.spinUpIfLow m.blockNum).logPrepared m blk = t
      have hverified : Emits (LogsSenders m.senderPubkeys) t (t.markBlockVerified blk) :=
        Emits.emit _ (by rintro m' hm'; cases hm')
      rcases t.afterLogPrepared_cases m aggSig mask blk with h | ⟨-, h | ⟨-, h⟩⟩
      all_goals rw [h]
      · exact Emits.refl t
      · exact hverified
      · exact hverified.trans (Emits.of_trace_eq rfl)

theorem onCommitted_logs (order : MapOrder E) (m : FBFTMessage E) :
    Logs m.senderPubkeys (¬ m.blockNum < s.blockNum - 1) s (s.onCommitted order m) := by
  have hspin : (s.spinUpIfLow m.blockNum).trace = s.trace := by rw [spinUpIfLow_eq]
  rcases s.onCommitted_cases order m with ⟨hlow, h⟩ | ⟨hlow, h | ⟨aggSig, mask, blk, -, h⟩⟩
  all_goals rw [h]
  · exact Logs.of_trace_eq rfl (not_not.2 hlow)
  · refine Logs.of_logged (m := { m with verified := false }) ?_ (Emits.refl _) hlow
    rw [← hspin]
    exact ⟨_, _, rfl⟩
  · refine Logs.of_logged (t := (s.spinUpIfLow m.blockNum).addNotVerifiedMessage m)
      (m := { m with verified := false }) ?_ ?_ hlow
    · rw [← hspin]
      exact ⟨_, _, rfl⟩
    · have haccept : Emits (LogsSenders m.senderPubkeys)
          ((s.spinUpIfLow m.blockNum).addNotVerifiedMessage m)
          (s.acceptCommitted m aggSig mask blk) := by
        refine (Emits.addVerifiedMessage _ ?_).trans ((Emits.of_trace_eq rfl).trans
          ((overrideCommitSig_spec _ m mask blk).2.mono ?_))
        · rintro m' hm'
          cases hm'
          rfl
        · rintro e he m' hm'
          rw [hm'] at he
          cases he
      refine haccept.trans ((tryCatchup_acts (a := .any) _ order).emits.mono ?_)
      rintro e he m' hm'
      rw [hm'] at he
      exact absurd he (show ActionKind.logged ∉ catchupKinds by decide)

/-! ## What `HandleMessageUpdate` logs -/

/-- A message from the leader is logged exactly when it passes the checks, and what is logged
    has the senders that the body of the message names. -/
theorem handleMessageUpdate_logged (order : MapOrder E) (msg : Message)
    (senderKey : SerializedPublicKey) (htype : fromLeader msg.type = true) :
    ¬ s.StoresMessage order msg senderKey ∧
      (s.handleMessageUpdate order msg senderKey).1.trace = s.trace ∨
    ∃ m, s.parseFBFTMessage msg = .ok m ∧ Logs m.senderPubkeys
      (s.StoresMessage order msg senderKey) s (s.handleMessageUpdate order msg senderKey).1 := by
  unfold handleMessageUpdate
  cases hchecks : s.messageChecks msg senderKey with
  | some err => exact Or.inl ⟨fun h => by simp [StoresMessage, hchecks] at h, rfl⟩
  | none =>
    cases hparse : s.parseFBFTMessage msg with
    | error err =>
      refine Or.inl ⟨fun h => ?_, ?_⟩
      · obtain ⟨-, -, m, hm, -⟩ := h
        rw [hparse] at hm
        cases hm
      · cases err <;> rfl
    | ok m =>
      refine Or.inr ⟨m, rfl, ?_⟩
      dsimp only
      cases hleader : s.isLeader with
      | true =>
        -- a leader does not route the messages of a leader
        refine Logs.of_trace_eq ?_ fun h => by simp [StoresMessage, hleader] at h
        cases ht : msg.type <;> simp_all [fromLeader, route]
      | false =>
        have hstores : s.StoresMessage order msg senderKey ↔
            match msg.type with
            | .announce => s.onAnnounceSanityChecks order m = true
            | .prepared => ¬ m.blockNum < s.blockNum ∧ (s.preparedChecks m).isSome = true
            | .committed => ¬ m.blockNum < s.blockNum - 1
            | _ => False := by
          simp only [StoresMessage, hchecks, hleader, hparse, Except.ok.injEq, exists_eq_left',
            true_and]
        rw [hstores]
        unfold route
        rw [hleader]
        cases ht : msg.type with
        | announce => exact onAnnounce_logs hparse
        | prepared => exact onPrepared_logs s m
        | committed => exact onCommitted_logs s order m
        | prepare | commit | viewchange | newview => simp [ht, fromLeader] at htype

/-! ## The recorded and the authenticated sender -/

/-- Every entry that `HandleMessageUpdate` adds to the log has one sender, the current leader,
    and it is the key under which the signature of the message was verified. -/
def RecordsAuthenticatedSender (order : MapOrder E) (msg : Message)
    (senderKey : SerializedPublicKey) : Prop :=
  ∀ l, (s.handleMessageUpdate order msg senderKey).1.trace = l ++ s.trace →
    ∀ e ∈ l, ∀ m, e.action = .logged m →
      m.senderPubkeys = [s.leaderPubKey] ∧ senderKey = s.leaderPubKey.bytes ∧
        senderKeySanityChecks (E := E) msg senderKey = true

/-- The message comes from the leader and its body names the leader. -/
def NamesLeader (msg : Message) (senderKey : SerializedPublicKey) : Prop :=
  senderKey = s.leaderPubKey.bytes ∧
    ∃ req, msg.consensus = some req ∧ s.parseSenders req = .ok [s.leaderPubKey]

variable {s}

theorem senderKeySanityChecks_of_messageChecks {s : Consensus E} {msg : Message}
    {senderKey : SerializedPublicKey} (htype : fromLeader msg.type = true)
    (h : s.messageChecks msg senderKey = none) :
    senderKeySanityChecks (E := E) msg senderKey = true := by
  unfold messageChecks at h
  split_ifs at h with hleader hsig
  cases ht : msg.type <;> simp_all [fromLeader]

/-- The log records the authenticated sender exactly when the message, if it is stored at all,
    names the leader in its body. -/
theorem recordsAuthenticatedSender_iff (s : Consensus E) (order : MapOrder E) (msg : Message)
    (senderKey : SerializedPublicKey) (htype : fromLeader msg.type = true) :
    s.RecordsAuthenticatedSender order msg senderKey ↔
      (s.StoresMessage order msg senderKey → s.NamesLeader msg senderKey) := by
  rcases s.handleMessageUpdate_logged order msg senderKey htype with
    ⟨hnot, htrace⟩ | ⟨m, hparse, l, hl, hsenders, hstored⟩
  · refine ⟨fun _ h => absurd h hnot, fun _ l hl e he => ?_⟩
    rw [htrace, List.self_eq_append_left] at hl
    rw [hl] at he
    cases he
  · obtain ⟨req, hreq, hparseSenders, -⟩ := parseFBFTMessage_eq_ok hparse
    constructor
    · intro hrecords hstores
      obtain ⟨e, he, m', hm'⟩ := hstored.2 hstores
      obtain ⟨hleader, hkey, -⟩ := hrecords l hl e he m' hm'
      rw [hsenders e he m' hm'] at hleader
      exact ⟨hkey, req, hreq, by rw [hparseSenders, hleader]⟩
    · intro hnames l' hl' e he m' hm'
      obtain rfl : l' = l := List.append_cancel_right (hl'.symm.trans hl)
      have hstores := hstored.1 ⟨e, he, m', hm'⟩
      obtain ⟨hkey, req', hreq', hleader⟩ := hnames hstores
      obtain rfl : req = req' := Option.some.inj (hreq.symm.trans hreq')
      rw [hparseSenders, Except.ok.injEq] at hleader
      rw [hsenders e he m' hm']
      exact ⟨hleader, hkey, senderKeySanityChecks_of_messageChecks htype hstores.1⟩

end Consensus

namespace Concrete

open Consensus

/-- The COMMITTED message of the first block, signed by the leader (key 1), whose body names
    `sender`. -/
def committedNaming (sender : UInt8) : Message :=
  committedMsg [1, 2, 3, 4] [1, 2, 3] 1 sender (blk 1 0 0) 1

theorem storesMessage_committedNaming {sender : UInt8} {m : FBFTMessage env}
    (hchecks : (node [2] 1 [1, 2, 3, 4] 1).messageChecks (committedNaming sender) (pub 1).bytes =
      none)
    (hparse : (node [2] 1 [1, 2, 3, 4] 1).parseFBFTMessage (committedNaming sender) = .ok m)
    (hnum : m.blockNum = 1) :
    (node [2] 1 [1, 2, 3, 4] 1).StoresMessage order (committedNaming sender) (pub 1).bytes := by
  refine ⟨hchecks, rfl, m, hparse, ?_⟩
  show ¬ m.blockNum < 1 - 1
  rw [hnum]
  decide

/-- A COMMITTED message of the leader that names the leader. -/
theorem recordsAuthenticatedSender_honest :
    (node [2] 1 [1, 2, 3, 4] 1).StoresMessage order (committedNaming 1) (pub 1).bytes ∧
    (node [2] 1 [1, 2, 3, 4] 1).RecordsAuthenticatedSender order (committedNaming 1)
      (pub 1).bytes := by
  refine ⟨storesMessage_committedNaming (by decide +kernel) rfl rfl,
    (recordsAuthenticatedSender_iff _ order _ _ rfl).2 fun _ => ⟨rfl, _, rfl, ?_⟩⟩
  refine parseSenders_of_key _ _ _ ?_
  rfl

/-- A COMMITTED message that the leader signed and that names key 3: it passes
    `HandleMessageUpdate` in Normal mode and is logged as a message of key 3. -/
theorem recordsAuthenticatedSender_fails :
    ¬ (node [2] 1 [1, 2, 3, 4] 1).RecordsAuthenticatedSender order (committedNaming 3)
      (pub 1).bytes := by
  intro h
  have hstores : (node [2] 1 [1, 2, 3, 4] 1).StoresMessage order (committedNaming 3)
      (pub 1).bytes := storesMessage_committedNaming (by decide +kernel) rfl rfl
  rcases handleMessageUpdate_logged (node [2] 1 [1, 2, 3, 4] 1) order (committedNaming 3)
    (pub 1).bytes rfl with ⟨hnot, -⟩ | ⟨m, hparse, l, hl, hsenders, hstored⟩
  · exact hnot hstores
  · obtain ⟨e, he, m', hm'⟩ := hstored.2 hstores
    have hleader := (h l hl e he m' hm').1
    rw [hsenders e he m' hm'] at hleader
    obtain ⟨req, hreq, hthree, -⟩ := parseFBFTMessage_eq_ok hparse
    obtain rfl := Option.some.inj hreq
    rw [hleader, parseSenders_of_key _ _ (pub 3) rfl] at hthree
    revert hthree
    decide

end Concrete

end Benzene
