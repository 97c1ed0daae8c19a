import Benzene.Consensus.MsgSender

/-!
# The entry of a message type

`EntryInv`: in an orderly run every retry that can go on is the entry of its type in
`messagesToRetry`, so at most one retry of a type is active (`EntryInv.oneActive`), and a message
is silent once the send call of a newer one of its type has returned.  A send call keeps it because
the entry it replaces is the one it has stopped, a `Reset` because it deletes stopped entries only;
both hold as long as no other call stores an entry of the type in between.
-/

namespace Benzene

/-! ## Changes of a call -/

namespace MessageSender

variable {s s' : MessageSender} {i j k : ℕ} {c c' : SendCall} {f : SendCall → SendCall}

theorem getElem?_modifyCall (s : MessageSender) (i : ℕ) (f : SendCall → SendCall) (j : ℕ) :
    (s.modifyCall i f).calls[j]? = (s.calls[j]?).map fun c => if i = j then f c else c := by
  rw [modifyCall, List.getElem?_modify]
  rfl

theorem of_getElem?_modifyCall (h : (s.modifyCall i f).calls[j]? = some c') :
    ∃ c, s.calls[j]? = some c ∧ (j = i ∧ c' = f c ∨ j ≠ i ∧ c' = c) := by
  rw [getElem?_modifyCall, Option.map_eq_some_iff] at h
  obtain ⟨c, hc, rfl⟩ := h
  refine ⟨c, hc, ?_⟩
  by_cases hij : i = j
  · exact Or.inl ⟨hij.symm, if_pos hij⟩
  · exact Or.inr ⟨fun h => hij h.symm, if_neg hij⟩

theorem exists_getElem?_modifyCall (i : ℕ) (f : SendCall → SendCall) (hc : s.calls[k]? = some c) :
    ∃ c', (s.modifyCall i f).calls[k]? = some c' ∧ (k = i ∧ c' = f c ∨ k ≠ i ∧ c' = c) := by
  rw [getElem?_modifyCall, hc]
  refine ⟨_, rfl, ?_⟩
  split_ifs with hik
  · exact Or.inl ⟨hik.symm, rfl⟩
  · exact Or.inr ⟨fun h => hik h.symm, rfl⟩

/-- The retry of the `k`-th message has been stopped. -/
def Stopped (s : MessageSender) (k : ℕ) : Prop :=
  ∃ c, s.calls[k]? = some c ∧ c.msgRetry.isActive = false

/-- The entry of the type, if there is one, is the given message or has been stopped. -/
def Entry (s : MessageSender) (t : MessageType) (x : Option ℕ) : Prop :=
  ∀ k, s.messagesToRetry.lookup t = some k → some k = x ∨ s.Stopped k

/-- The step stores no entry of the type and restarts nothing. -/
structure Quiet (t : MessageType) (s s' : MessageSender) : Prop where
  entry : ∀ k, s'.messagesToRetry.lookup t = some k → s.messagesToRetry.lookup t = some k
  stopped : ∀ k, s.Stopped k → s'.Stopped k

variable {t : MessageType}

theorem Quiet.keeps {x : Option ℕ} (h : Quiet t s s') (he : s.Entry t x) :
    s'.Entry t x :=
  fun k hk => (he k (h.entry k hk)).imp_right (h.stopped k)

theorem stopped_modifyCall (hf : ∀ c, s.calls[i]? = some c → (f c).msgRetry.isActive = true →
    c.msgRetry.isActive = true) (h : s.Stopped k) : (s.modifyCall i f).Stopped k := by
  obtain ⟨c, hc, hoff⟩ := h
  obtain ⟨c', hc', ⟨rfl, rfl⟩ | ⟨-, rfl⟩⟩ := exists_getElem?_modifyCall i f hc
  · refine ⟨_, hc', Bool.eq_false_iff.2 fun hon => ?_⟩
    exact Bool.false_ne_true (hoff.symm.trans (hf c hc hon))
  · exact ⟨_, hc', hoff⟩

/-! ## The entry of a type -/

/-- The send call has stored its message. -/
def stored (c : SendCall) : Bool :=
  match c.pc with
  | .loads | .stops _ | .stores => false
  | .starts | .sends | .returns | .returned => true

/-- What a running send call knows of the entry of its type. -/
def CallOk (s : MessageSender) (i : ℕ) (c : SendCall) : Prop :=
  match c.pc with
  | .loads | .returned => True
  | .stops old => s.Entry c.msgRetry.msgType (some old)
  | .stores | .starts | .sends | .returns => s.Entry c.msgRetry.msgType (some i)

/-- A `Reset` has stopped the entries it has visited in its first pass, so in the second it deletes
    stopped entries only. -/
def ResetOk (s : MessageSender) : ResetPc → Prop
  | .storesNum _ | .begins false | .returned => True
  | .visits false keys => ∀ t ≠ .committed, t ∉ keys → s.Entry t none
  | .acts false key found keys =>
    ∀ t ≠ .committed, t ∉ keys → s.Entry t (if t = key then some found else none)
  | .begins true | .visits true _ => ∀ t ≠ .committed, s.Entry t none
  | .acts true key _ _ => key ≠ .committed ∧ ∀ t ≠ .committed, s.Entry t none

theorem CallOk.mono (h : Quiet c.msgRetry.msgType s s') (hc : CallOk s i c) : CallOk s' i c := by
  unfold CallOk at hc ⊢
  split at hc
  case h_1 | h_2 => trivial
  all_goals exact h.keeps hc

theorem ResetOk.mono {r : ResetPc} (h : ∀ t ≠ .committed, Quiet t s s') (hr : ResetOk s r) :
    ResetOk s' r := by
  unfold ResetOk at hr ⊢
  split at hr
  case h_1 | h_2 | h_3 => trivial
  case h_8 => exact ⟨hr.1, fun t ht => (h t ht).keeps (hr.2 t ht)⟩
  case h_4 | h_5 => exact fun t ht hkeys => (h t ht).keeps (hr t ht hkeys)
  all_goals exact fun t ht => (h t ht).keeps (hr t ht)

/-- The message is not sent any more. -/
def Silent (c : SendCall) : Prop :=
  c.pc = .returned ∧ c.msgRetry.isActive = false ∧ c.goroutine.passed = false

/-- A retry that can go on is the entry of its type. -/
structure CallInv (s : MessageSender) (i : ℕ) (c : SendCall) : Prop where
  unused : s.retryTimes = 0 → c.msgRetry.isActive = false
  listed : stored c = true → c.msgRetry.isActive = true →
    s.messagesToRetry.lookup c.msgRetry.msgType = some i
  started : c.goroutine ≠ .idle → stored c = true
  ok : CallOk s i c
  silent : ∀ j > i, .returned j c.msgRetry.msgType ∈ s.log → Silent c

/-- Every retry that can go on is the entry of its type. -/
structure EntryInv (s : MessageSender) : Prop where
  entries : ∀ t k, s.messagesToRetry.lookup t = some k →
    ∃ c, s.calls[k]? = some c ∧ c.msgRetry.msgType = t
  calls : ∀ (i : ℕ) (c : SendCall), s.calls[i]? = some c → CallInv s i c
  alone : ∀ (i j : ℕ) (c d : SendCall), s.calls[i]? = some c → s.calls[j]? = some d →
    c.msgRetry.msgType = d.msgRetry.msgType → c.pc ≠ .returned → d.pc ≠ .returned → i = j
  resets : ∀ r ∈ s.resets, ResetOk s r
  returned : ∀ j t, .returned j t ∈ s.log → ∃ c, s.calls[j]? = some c
  noneOutdated : s.NoneOutdated

theorem entryInv_newMessageSender (retryTimes : ℕ) : EntryInv (newMessageSender retryTimes) := by
  refine ⟨fun t k h => ?_, fun i c h => ?_, fun i j c d h => ?_, fun r h => ?_, fun j t h => ?_,
    List.Pairwise.nil⟩
  all_goals simp [newMessageSender] at h

/-- A step that does not touch the map and restarts nothing. -/
theorem EntryInv.of_map (h : EntryInv s) (hmap : s'.messagesToRetry = s.messagesToRetry)
    (htimes : s'.retryTimes = s.retryTimes) (hlog : s'.log = s.log)
    (hstopped : ∀ k, s.Stopped k → s'.Stopped k)
    (hkept : ∀ (k : ℕ) (c : SendCall), s.calls[k]? = some c →
      ∃ c', s'.calls[k]? = some c' ∧ c'.msgRetry.msgType = c.msgRetry.msgType)
    (hcalls : ∀ (i : ℕ) (c : SendCall), s'.calls[i]? = some c → CallInv s i c)
    (halone : ∀ (i j : ℕ) (c d : SendCall), s'.calls[i]? = some c → s'.calls[j]? = some d →
      c.msgRetry.msgType = d.msgRetry.msgType → c.pc ≠ .returned → d.pc ≠ .returned → i = j)
    (hresets : ∀ r ∈ s'.resets, ResetOk s r) : EntryInv s' := by
  have hquiet : ∀ t, Quiet t s s' := fun t => ⟨fun k hk => hmap ▸ hk, hstopped⟩
  refine ⟨fun t k hk => ?_, fun i c hc => ?_, halone,
    fun r hr => (hresets r hr).mono fun t _ => hquiet t, fun j t hmem => ?_, ?_⟩
  · obtain ⟨c, hc, rfl⟩ := h.entries t k (hmap ▸ hk)
    exact hkept k c hc
  · have hcall := hcalls i c hc
    exact ⟨htimes ▸ hcall.unused, hmap ▸ hcall.listed, hcall.started, hcall.ok.mono (hquiet _),
      hlog ▸ hcall.silent⟩
  · obtain ⟨c, hc⟩ := h.returned j t (hlog ▸ hmem)
    exact (hkept j c hc).imp fun _ => And.left
  · rw [NoneOutdated, hlog]
    exact h.noneOutdated

/-- A change that leaves the calls and the map as they are. -/
theorem EntryInv.of_resets (h : EntryInv s) (hmap : s'.messagesToRetry = s.messagesToRetry)
    (htimes : s'.retryTimes = s.retryTimes) (hlog : s'.log = s.log) (hcalls : s'.calls = s.calls)
    (hresets : ∀ r ∈ s'.resets, ResetOk s r) : EntryInv s' := by
  refine h.of_map hmap htimes hlog ?_ ?_ ?_ ?_ hresets
  · rintro k ⟨c, hc, hoff⟩
    exact ⟨c, hcalls ▸ hc, hoff⟩
  all_goals rw [hcalls]
  · exact fun k c hc => ⟨c, hc, rfl⟩
  · exact h.calls
  · exact h.alone

/-! ### Changes of one call -/

/-- What a change of the `i`-th call has to respect. -/
structure Change (s : MessageSender) (i : ℕ) (c c' : SendCall) : Prop where
  msgType : c'.msgRetry.msgType = c.msgRetry.msgType
  active : c'.msgRetry.isActive = true → c.msgRetry.isActive = true
  stored : MessageSender.stored c' = true → MessageSender.stored c = true ∨
    s.messagesToRetry.lookup c.msgRetry.msgType = some i
  started : c'.goroutine ≠ .idle → MessageSender.stored c' = true
  running : c'.pc ≠ .returned → c.pc ≠ .returned
  ok : CallOk s i c'
  silent : Silent c → Silent c'

theorem CallInv.change_refl (h : CallInv s i c) : Change s i c c :=
  ⟨rfl, id, Or.inl, h.started, id, h.ok, id⟩

theorem CallInv.change (h : CallInv s i c) (hch : Change s i c c') : CallInv s i c' where
  unused h0 := Bool.eq_false_iff.2 fun ha =>
    Bool.false_ne_true ((h.unused h0).symm.trans (hch.active ha))
  listed hs ha := by
    rw [hch.msgType]
    exact (hch.stored hs).elim (fun hs => h.listed hs (hch.active ha)) id
  started := hch.started
  ok := hch.ok
  silent j hj hmem := hch.silent (h.silent j hj (hch.msgType ▸ hmem))

theorem EntryInv.modifyCall (h : EntryInv s) (hf : ∀ c, s.calls[i]? = some c → Change s i c (f c)) :
    EntryInv (s.modifyCall i f) := by
  have hback : ∀ j c', (s.modifyCall i f).calls[j]? = some c' →
      ∃ c, s.calls[j]? = some c ∧ Change s j c c' := by
    intro j c' hc'
    obtain ⟨c, hc, ⟨rfl, rfl⟩ | ⟨-, rfl⟩⟩ := of_getElem?_modifyCall hc'
    · exact ⟨c, hc, hf c hc⟩
    · exact ⟨c', hc, (h.calls j c' hc).change_refl⟩
  refine h.of_map rfl rfl rfl (fun k => stopped_modifyCall fun c hc => (hf c hc).active)
    (fun k c hc => ?_) (fun j c' hc' => ?_) (fun j j' c' d' hc' hd' ht hrc hrd => ?_) h.resets
  · obtain ⟨c', hc', ⟨rfl, rfl⟩ | ⟨-, rfl⟩⟩ := exists_getElem?_modifyCall i f hc
    · exact ⟨_, hc', (hf c hc).msgType⟩
    · exact ⟨_, hc', rfl⟩
  · obtain ⟨c, hc, hch⟩ := hback j c' hc'
    exact (h.calls j c hc).change hch
  · obtain ⟨c, hc, hch⟩ := hback j c' hc'
    obtain ⟨d, hd, hdh⟩ := hback j' d' hd'
    rw [hch.msgType, hdh.msgType] at ht
    exact h.alone j j' c d hc hd ht (hch.running hrc) (hdh.running hrd)

theorem EntryInv.deactivate (h : EntryInv s) (k : ℕ) : EntryInv (s.deactivate k) :=
  h.modifyCall fun c hc =>
    ⟨rfl, fun ha => absurd ha Bool.false_ne_true, Or.inl, (h.calls k c hc).started, id,
      (h.calls k c hc).ok, fun hs => ⟨hs.1, rfl, hs.2.2⟩⟩

theorem quiet_deactivate (s : MessageSender) (k : ℕ) (t : MessageType) :
    Quiet t s (s.deactivate k) :=
  ⟨fun _ hk => hk, fun _ => stopped_modifyCall fun _ _ ha => absurd ha Bool.false_ne_true⟩

theorem stopped_deactivate (hc : s.calls[k]? = some c) : (s.deactivate k).Stopped k := by
  refine ⟨{ c with msgRetry := { c.msgRetry with isActive := false } }, ?_, rfl⟩
  rw [MessageSender.deactivate, getElem?_modifyCall, hc, Option.map_some, if_pos rfl]

theorem EntryInv.setPc (h : EntryInv s) {p : SendPc} (hc : s.calls[i]? = some c)
    (hrun : c.pc ≠ .returned) (hkept : stored c = true → stored { c with pc := p } = true)
    (hstored : stored { c with pc := p } = true → stored c = true ∨
      s.messagesToRetry.lookup c.msgRetry.msgType = some i)
    (hok : CallOk s i { c with pc := p }) : EntryInv (s.setPc i p) := by
  refine h.modifyCall fun d hd => ?_
  obtain rfl := Option.some.inj (hc.symm.trans hd)
  exact ⟨rfl, id, hstored, fun hg => hkept ((h.calls i c hc).started hg), fun _ => hrun, hok,
    fun hs => absurd hs.1 hrun⟩

theorem EntryInv.setGoroutine (h : EntryInv s) (hc : s.calls[i]? = some c)
    (hs : stored c = true) {g : RetryPc} (hg : Silent c → Silent { c with goroutine := g }) :
    EntryInv (s.setGoroutine i g) := by
  refine h.modifyCall fun d hd => ?_
  obtain rfl := Option.some.inj (hc.symm.trans hd)
  exact ⟨rfl, id, Or.inl, fun _ => hs, id, (h.calls i c hc).ok, hg⟩

/-! ### Changes of the map -/

theorem EntryInv.store (h : EntryInv s) (hc : s.calls[i]? = some c) (hpc : c.pc = .stores)
    (hreset : c.msgRetry.msgType = .committed ∨ ∀ r ∈ s.resets, r.clearing = false) :
    EntryInv { s with messagesToRetry := s.messagesToRetry.insert c.msgRetry.msgType i } := by
  have hlookup := GoMap.lookup_insert_eq s.messagesToRetry c.msgRetry.msgType
  have hfree : s.Entry c.msgRetry.msgType (some i) := by
    have hok := (h.calls i c hc).ok
    rwa [CallOk, hpc] at hok
  have hquiet : ∀ t ≠ c.msgRetry.msgType, Quiet t s
      { s with messagesToRetry := s.messagesToRetry.insert c.msgRetry.msgType i } := by
    refine fun t ht => ⟨fun k hk => ?_, fun k hk => hk⟩
    rwa [hlookup, if_neg ht] at hk
  refine ⟨fun t k hk => ?_, fun j d hd => ⟨(h.calls j d hd).unused, fun hs ha => ?_,
    (h.calls j d hd).started, ?_, (h.calls j d hd).silent⟩, h.alone, fun r hr => ?_, h.returned,
    h.noneOutdated⟩
  · rw [hlookup] at hk
    split_ifs at hk with ht
    · exact ⟨c, Option.some.inj hk ▸ hc, ht.symm⟩
    · exact h.entries t k hk
  · have hentry := (h.calls j d hd).listed hs ha
    rw [hlookup]
    split_ifs with ht
    · -- the entry that is replaced has been stopped
      rw [ht] at hentry
      rcases hfree j hentry with hij | ⟨d', hd', hoff⟩
      · exact hij.symm
      · obtain rfl := Option.some.inj (hd.symm.trans hd')
        exact absurd (hoff.symm.trans ha) Bool.false_ne_true
    · exact hentry
  · by_cases ht : d.msgRetry.msgType = c.msgRetry.msgType
    · by_cases hr : d.pc = .returned
      · rw [CallOk, hr]
        trivial
      · -- no other call of the type is running
        have hrunning : c.pc ≠ .returned := by
          rw [hpc]
          exact SendPc.noConfusion
        obtain rfl := h.alone j i d c hd hc ht hr hrunning
        obtain rfl := Option.some.inj (hd.symm.trans hc)
        rw [CallOk, hpc]
        refine fun k hk => Or.inl ?_
        rwa [hlookup, if_pos rfl, eq_comm] at hk
    · exact (h.calls j d hd).ok.mono (hquiet _ ht)
  · rcases hreset with hcommitted | hidle
    · exact (h.resets r hr).mono fun t ht => hquiet t (hcommitted ▸ ht)
    · have hnot := hidle r hr
      unfold ResetOk
      split
      case h_1 | h_2 | h_3 => trivial
      all_goals exact absurd hnot Bool.noConfusion

theorem quiet_erase (s : MessageSender) (t u : MessageType) :
    Quiet u s { s with messagesToRetry := s.messagesToRetry.erase t } := by
  refine ⟨fun k hk => ?_, fun k hk => hk⟩
  by_cases hu : u = t
  · rw [hu, AList.lookup_erase] at hk
    exact absurd hk (Option.some_ne_none k).symm
  · rwa [AList.lookup_erase_ne hu] at hk

theorem EntryInv.erase (h : EntryInv s) (he : s.Entry t none) :
    EntryInv { s with messagesToRetry := s.messagesToRetry.erase t } := by
  have hquiet := s.quiet_erase t
  refine ⟨fun u k hk => h.entries u k ((hquiet u).entry k hk), fun i c hc =>
    ⟨(h.calls i c hc).unused, fun hs ha => ?_, (h.calls i c hc).started,
      (h.calls i c hc).ok.mono (hquiet _), (h.calls i c hc).silent⟩,
    h.alone, fun r hr => (h.resets r hr).mono fun u _ => hquiet u, h.returned, h.noneOutdated⟩
  have hentry := (h.calls i c hc).listed hs ha
  by_cases ht : c.msgRetry.msgType = t
  · -- the entry that is deleted has been stopped
    rw [ht] at hentry
    obtain ⟨d, hd, hoff⟩ := (he i hentry).resolve_left (Option.some_ne_none i)
    obtain rfl := Option.some.inj (hc.symm.trans hd)
    exact absurd (hoff.symm.trans ha) Bool.false_ne_true
  · exact (AList.lookup_erase_ne ht).trans hentry

/-! ### New calls -/

theorem of_getElem?_concat {calls : List SendCall} {new : SendCall}
    (h : (calls ++ [new])[j]? = some c) : calls[j]? = some c ∨ j = calls.length ∧ c = new := by
  rw [List.getElem?_append] at h
  split_ifs at h with hj
  · exact Or.inl h
  · rw [List.getElem?_singleton] at h
    split_ifs at h with hzero
    exact Or.inr ⟨by omega, (Option.some.inj h).symm⟩

/-- A call whose type is idle joins the others. -/
theorem EntryInv.append (h : EntryInv s) {new : SendCall}
    (hbusy : s.idleType new.msgRetry.msgType = true) (hnew : CallInv s s.calls.length new) :
    EntryInv { s with calls := s.calls ++ [new] } := by
  have hfwd : ∀ (j : ℕ) (c : SendCall), s.calls[j]? = some c →
      (s.calls ++ [new])[j]? = some c := by
    intro j c hc
    rw [List.getElem?_append_left (List.getElem?_eq_some_iff.1 hc).1, hc]
  have hended : ∀ (j : ℕ) (d : SendCall), s.calls[j]? = some d →
      d.msgRetry.msgType = new.msgRetry.msgType → d.pc = .returned := by
    intro j d hd ht
    have hall := List.all_eq_true.1 hbusy d (List.mem_of_getElem? hd)
    simpa [ht] using hall
  refine h.of_map rfl rfl rfl (fun k ⟨c, hc, hoff⟩ => ⟨c, hfwd k c hc, hoff⟩)
    (fun k c hc => ⟨c, hfwd k c hc, rfl⟩) (fun j c' hc' => ?_)
    (fun j j' c' d' hc' hd' ht hrc hrd => ?_) h.resets
  · rcases of_getElem?_concat hc' with hc | ⟨rfl, rfl⟩
    · exact h.calls j c' hc
    · exact hnew
  · rcases of_getElem?_concat hc' with hc | ⟨rfl, rfl⟩ <;>
      rcases of_getElem?_concat hd' with hd | ⟨rfl, rfl⟩
    · exact h.alone j j' c' d' hc hd ht hrc hrd
    · exact absurd (hended j c' hc ht) hrc
    · exact absurd (hended j' d' hd ht.symm) hrd
    · rfl

theorem EntryInv.sendCall (h : EntryInv s) (delayed : Bool) (blockNum : UInt64)
    {msgType : MessageType} (hbusy : s.idleType msgType = true) (groups : List String)
    (p2pMsg : Bytes) : EntryInv (s.sendCall delayed blockNum msgType groups p2pMsg) := by
  refine h.append hbusy ⟨fun h0 => ?_, fun hs hon => ?_, fun hg => absurd rfl hg, ?_,
    fun j hj hmem => ?_⟩
  · simp [h0]
  · simp only [stored, if_pos hon] at hs
    exact absurd hs Bool.false_ne_true
  · unfold CallOk
    by_cases h0 : s.retryTimes = 0
    · -- without retries nothing is active
      have hall : ∀ t x, s.Entry t x := by
        intro t x k hk
        obtain ⟨c, hc, -⟩ := h.entries t k hk
        exact Or.inr ⟨c, hc, (h.calls k c hc).unused h0⟩
      split <;> first | trivial | exact hall _ _
    · simp [h0]
  · obtain ⟨c, hc⟩ := h.returned j _ hmem
    exact absurd (List.getElem?_eq_some_iff.1 hc).1 (not_lt.2 hj.le)

/-! ### Changes of the log -/

theorem EntryInv.act (h : EntryInv s) {a : SenderAction}
    (hout : ∀ b ∈ s.log, a.outdatedBy b = false)
    (hret : ∀ j t, a = .returned j t → (∃ c, s.calls[j]? = some c) ∧ ∀ i c,
      s.calls[i]? = some c → i < j → c.msgRetry.msgType = t → Silent c) : EntryInv (s.act a) := by
  refine ⟨h.entries, fun i c hc => { h.calls i c hc with silent := fun j hj hmem => ?_ }, h.alone,
    h.resets, fun j t hmem => ?_, List.pairwise_cons.2 ⟨hout, h.noneOutdated⟩⟩
  · rcases List.mem_cons.1 hmem with heq | hmem
    · exact (hret j _ heq.symm).2 i c hc hj rfl
    · exact (h.calls i c hc).silent j hj hmem
  · rcases List.mem_cons.1 hmem with heq | hmem
    · exact (hret j t heq.symm).1
    · exact h.returned j t hmem

theorem EntryInv.sendMessageToGroups (h : EntryInv s) (hc : s.calls[i]? = some c)
    (hloud : ¬ Silent c) (again : Bool) :
    EntryInv (s.sendMessageToGroups i c.msgRetry again) := by
  refine h.act (fun b hb => ?_) fun _ _ => SenderAction.noConfusion
  cases b with
  | sent => rfl
  | returned j t =>
    by_contra hout
    simp only [SenderAction.outdatedBy, Bool.not_eq_false, Bool.and_eq_true, decide_eq_true_eq,
      beq_iff_eq] at hout
    exact hloud ((h.calls i c hc).silent j hout.1 (hout.2 ▸ hb))

/-- When a send call returns, its message is the only one of its type that can still be sent. -/
theorem EntryInv.silent (h : EntryInv s) (hj : s.calls[j]? = some c') (hpc : c'.pc = .returns)
    (hok : s.nonePassed j c'.msgRetry.msgType = true) (hc : s.calls[i]? = some c) (hij : i < j)
    (ht : c.msgRetry.msgType = c'.msgRetry.msgType) : Silent c := by
  have hreturned : c.pc = .returned := by
    by_contra hrun
    exact hij.ne (h.alone i j c c' hc hj ht hrun (by simp [hpc]))
  refine ⟨hreturned, Bool.eq_false_iff.2 fun hon => ?_, ?_⟩
  · have hentry := (h.calls i c hc).listed (by rw [stored, hreturned]) hon
    have hcall := (h.calls j c' hj).ok
    rw [CallOk, hpc] at hcall
    rw [ht] at hentry
    rcases hcall i hentry with heq | ⟨d, hd, hoff⟩
    · exact hij.ne (Option.some.inj heq)
    · obtain rfl := Option.some.inj (hc.symm.trans hd)
      exact Bool.false_ne_true (hoff.symm.trans hon)
  · have hmem : c ∈ s.calls.take j :=
      List.mem_of_getElem? ((List.getElem?_take_of_lt hij).trans hc)
    have hall := List.all_eq_true.1 hok c hmem
    simpa [ht] using hall

/-! ### The steps -/

/-- `StopRetry` leaves a stopped entry behind. -/
theorem EntryInv.entry_deactivate (h : EntryInv s) {old : ℕ} (he : s.Entry t (some old))
    (x : Option ℕ) : (s.deactivate old).Entry t x := by
  intro k hk
  rcases he k hk with hold | hstopped
  · obtain rfl := Option.some.inj hold
    obtain ⟨c, hc, -⟩ := h.entries t k hk
    exact Or.inr (stopped_deactivate hc)
  · exact Or.inr ((s.quiet_deactivate old t).stopped k hstopped)

theorem EntryInv.sendStep (h : EntryInv s) (hok : s.orderly (.send i) = true) :
    EntryInv (s.sendStep i) := by
  unfold MessageSender.sendStep
  cases hc : s.calls[i]? with
  | none => exact h
  | some c =>
    have hcall := (h.calls i c hc).ok
    rw [orderly, hc] at hok
    dsimp only at hok ⊢
    cases hpc : c.pc with
    | loads =>
      have hs : stored c = false := by rw [stored, hpc]
      cases hentry : s.messagesToRetry.lookup c.msgRetry.msgType with
      | none =>
        refine h.setPc hc (by simp [hpc]) (by simp [hs]) (by simp [stored]) fun k hk => ?_
        exact absurd (hentry.symm.trans hk) (by simp)
      | some old =>
        refine h.setPc hc (by simp [hpc]) (by simp [hs]) (by simp [stored]) fun k hk => Or.inl ?_
        exact hk.symm.trans hentry
    | stops old =>
      rw [CallOk, hpc] at hcall
      obtain ⟨c', hc', hcases⟩ := exists_getElem?_modifyCall old
        (fun c => { c with msgRetry := { c.msgRetry with isActive := false } }) hc
      have hsame : c'.pc = c.pc ∧ c'.msgRetry.msgType = c.msgRetry.msgType := by
        rcases hcases with ⟨-, rfl⟩ | ⟨-, rfl⟩ <;> exact ⟨rfl, rfl⟩
      refine (h.deactivate old).setPc hc' (by simp [hsame.1, hpc]) (by simp [stored, hsame.1, hpc])
        (by simp [stored]) ?_
      show Entry _ c'.msgRetry.msgType (some i)
      rw [hsame.2]
      exact h.entry_deactivate hcall _
    | stores =>
      rw [hpc] at hok
      have hreset : c.msgRetry.msgType = .committed ∨ ∀ r ∈ s.resets, r.clearing = false := by
        simpa using hok
      refine (h.store hc hpc hreset).setPc hc (by simp [hpc]) (fun _ => rfl)
        (fun _ => Or.inr (AList.lookup_insert _)) fun k hk => ?_
      exact Or.inl (hk.symm.trans (AList.lookup_insert _))
    | starts =>
      rw [CallOk, hpc] at hcall
      refine h.modifyCall fun d hd => ?_
      obtain rfl := Option.some.inj (hc.symm.trans hd)
      have hs : stored c = true := by rw [stored, hpc]
      have hs' : stored { c with pc := afterStart c.delayed, goroutine := .checks } = true := by
        cases hd : c.delayed <;> rfl
      refine ⟨rfl, id, fun _ => Or.inl hs, fun _ => hs', fun _ => by simp [hpc], ?_,
        fun hs => absurd hs.1 (by simp [hpc])⟩
      cases hd : c.delayed <;> exact hcall
    | sends =>
      rw [CallOk, hpc] at hcall
      have hloud : ¬ Silent c := fun hs => SendPc.noConfusion (hpc.symm.trans hs.1)
      refine (h.sendMessageToGroups hc hloud false).setPc hc (by simp [hpc]) (fun _ => rfl)
        (fun _ => Or.inl ?_) hcall
      rw [stored, hpc]
    | returns =>
      rw [hpc] at hok
      have hact : EntryInv (s.act (.returned i c.msgRetry.msgType)) := by
        refine h.act (fun _ _ => rfl) fun j t heq => ?_
        obtain ⟨rfl, rfl⟩ := SenderAction.returned.inj heq
        exact ⟨⟨c, hc⟩, fun _ _ => h.silent hc hpc hok⟩
      refine hact.setPc hc (by simp [hpc]) (fun _ => rfl) (fun _ => Or.inl ?_) trivial
      rw [stored, hpc]
    | returned => exact h

/-- The ways through a round of `Retry`. -/
theorem retryStep_cases (s : MessageSender) (i : ℕ) :
    s.retryStep i = s ∨ ∃ c, s.calls[i]? = some c ∧ c.goroutine ≠ .idle ∧
      (s.retryStep i = s.setGoroutine i .ended ∨
      (∃ g : RetryPc, (c.goroutine.passed = true ∨
        c.msgRetry.isActive = true ∧ c.msgRetry.retryCount < s.retryTimes) ∧
        s.retryStep i = s.setGoroutine i g) ∨
      c.goroutine.passed = true ∧
        s.retryStep i = (s.sendMessageToGroups i c.msgRetry true).modifyCall i fun c =>
          { c with
            msgRetry := { c.msgRetry with retryCount := c.msgRetry.retryCount + 1 }
            goroutine := .checks }) := by
  unfold MessageSender.retryStep
  cases hc : s.calls[i]? with
  | none => exact Or.inl rfl
  | some c =>
    dsimp only
    cases hg : c.goroutine with
    | idle | ended => exact Or.inl rfl
    | checks =>
      refine Or.inr ⟨c, rfl, by simp [hg], ?_⟩
      dsimp only
      split_ifs with hcount hoff
      · exact Or.inl rfl
      · exact Or.inl rfl
      all_goals
        have hon : c.msgRetry.isActive = true := by simpa using hoff
        exact Or.inr (Or.inl ⟨_, Or.inr ⟨hon, not_le.1 hcount⟩, rfl⟩)
    | compares =>
      refine Or.inr ⟨c, rfl, by simp [hg], ?_⟩
      dsimp only
      split_ifs
      · exact Or.inl rfl
      · exact Or.inr (Or.inl ⟨_, Or.inl (by simp [hg, RetryPc.passed]), rfl⟩)
    | resends =>
      exact Or.inr ⟨c, rfl, by simp [hg], Or.inr (Or.inr ⟨by simp [hg, RetryPc.passed], rfl⟩)⟩

section

variable (h : EntryInv s)

include h

theorem EntryInv.retryStep (i : ℕ) : EntryInv (s.retryStep i) := by
  rcases s.retryStep_cases i with heq | ⟨c, hc, hg, heq | ⟨g, hon, heq⟩ | ⟨hpassed, heq⟩⟩
  all_goals rw [heq]
  · exact h
  · exact h.setGoroutine hc ((h.calls i c hc).started hg) fun hs => ⟨hs.1, hs.2.1, rfl⟩
  · refine h.setGoroutine hc ((h.calls i c hc).started hg) fun hs => ?_
    rcases hon with hpassed | ⟨hon, -⟩
    · exact absurd (hs.2.2.symm.trans hpassed) Bool.false_ne_true
    · exact absurd (hs.2.1.symm.trans hon) Bool.false_ne_true
  · have hloud : ¬ Silent c := fun hs => Bool.false_ne_true (hs.2.2.symm.trans hpassed)
    have hsent := h.sendMessageToGroups hc hloud true
    refine hsent.modifyCall fun d hd => ?_
    obtain rfl := Option.some.inj (hc.symm.trans hd)
    exact ⟨rfl, id, Or.inl, fun _ => (h.calls i c hc).started hg, id, (hsent.calls i c hc).ok,
      fun hs => absurd hs hloud⟩

theorem EntryInv.stopStep (i : ℕ) : EntryInv (s.stopStep i) := by
  unfold MessageSender.stopStep
  split
  · exact h
  · exact h
  · split <;> exact h.of_resets rfl rfl rfl rfl h.resets
  · next old _ => exact (h.deactivate old).of_resets rfl rfl rfl rfl (h.deactivate old).resets

theorem EntryInv.visitKey {deleting : Bool} {key : MessageType} {keys : List MessageType}
    (hr : ResetOk s (.visits deleting (key :: keys))) :
    ResetOk s (s.visitKey deleting key keys) := by
  -- the keys visited before, for the first pass
  have hbefore : deleting = false → ∀ t ≠ .committed, t ≠ key → t ∉ keys → s.Entry t none := by
    intro hd t ht hkey hkeys
    subst hd
    exact hr t ht fun hmem => (List.mem_cons.1 hmem).elim hkey hkeys
  have hskip : (key ≠ .committed → s.Entry key none) → ResetOk s (.visits deleting keys) := by
    intro hentry
    cases deleting with
    | false =>
      intro t ht hkeys
      by_cases hkey : t = key
      · subst hkey
        exact hentry ht
      · exact hbefore rfl t ht hkey hkeys
    | true => exact hr
  unfold MessageSender.visitKey
  cases hlookup : s.messagesToRetry.lookup key with
  | none => exact hskip fun _ k hk => absurd (hlookup.symm.trans hk) (Option.some_ne_none k).symm
  | some k =>
    obtain ⟨c, hc, htype⟩ := h.entries key k hlookup
    dsimp only
    rw [hc]
    dsimp only
    split_ifs with hcommitted
    · have hkey : key ≠ .committed := htype ▸ bne_iff_ne.1 hcommitted
      cases deleting with
      | false =>
        intro t ht hkeys
        split_ifs with htk
        · subst htk
          exact fun k' hk' => Or.inl (hk'.symm.trans hlookup)
        · exact hbefore rfl t ht htk hkeys
      | true => exact ⟨hkey, hr⟩
    · have hkey : c.msgRetry.msgType = .committed := by simpa using hcommitted
      exact hskip fun hne => absurd (htype.symm.trans hkey) hne

theorem EntryInv.resetStep (i : ℕ) (order : List MessageType) : EntryInv (s.resetStep i order) := by
  have hset : ∀ {t : MessageSender} {r : ResetPc}, EntryInv t → ResetOk t r →
      t.resets = s.resets → EntryInv { t with resets := s.resets.set i r } := by
    intro t r ht hr hsame
    refine ht.of_resets rfl rfl rfl rfl fun r' hr' => ?_
    rcases List.mem_or_eq_of_mem_set hr' with hmem | rfl
    · exact ht.resets r' (hsame ▸ hmem)
    · exact hr
  unfold MessageSender.resetStep
  cases hget : s.resets[i]? with
  | none => exact h
  | some r =>
    have hr := h.resets r (List.mem_of_getElem? hget)
    cases r with
    | returned => exact h
    | storesNum blockNum =>
      exact hset (t := { s with blockNum := blockNum })
        (h.of_resets rfl rfl rfl rfl h.resets) trivial rfl
    | begins deleting =>
      refine hset h ?_ rfl
      cases deleting with
      | false =>
        intro t _ hkeys k hk
        refine absurd ?_ hkeys
        rw [rangeKeys, List.mem_dedup, List.mem_append]
        exact Or.inr (AList.lookup_isSome.1 (Option.isSome_iff_exists.2 ⟨k, hk⟩))
      | true => exact hr
    | visits deleting keys =>
      cases keys with
      | nil =>
        refine hset h ?_ rfl
        cases deleting with
        | false => exact fun t ht => hr t ht List.not_mem_nil
        | true => trivial
      | cons key keys => exact hset h (h.visitKey hr) rfl
    | acts deleting key found keys =>
      cases deleting with
      | false =>
        refine hset (h.deactivate found) (fun t ht hkeys => ?_) rfl
        have hentry := hr t ht hkeys
        split_ifs at hentry
        · exact h.entry_deactivate hentry none
        · exact (s.quiet_deactivate found t).keeps hentry
      | true =>
        refine hset (h.erase (hr.2 key hr.1)) (fun t ht => ?_) rfl
        exact (s.quiet_erase key t).keeps (hr.2 t ht)

theorem EntryInv.step (e : SenderEvent) (hok : s.orderly e = true) : EntryInv (s.step e) := by
  cases e with
  | sendWithRetry blockNum msgType groups p2pMsg =>
    exact h.sendCall false blockNum hok groups p2pMsg
  | delayedSendWithRetry blockNum msgType groups p2pMsg =>
    exact h.sendCall true blockNum hok groups p2pMsg
  | stopRetry msgType => exact h.of_resets rfl rfl rfl rfl h.resets
  | reset blockNum =>
    refine h.of_resets rfl rfl rfl rfl fun r hr => ?_
    rcases List.mem_append.1 hr with hr | hr
    · exact h.resets r hr
    · rw [List.mem_singleton.1 hr]
      trivial
  | send i => exact h.sendStep hok
  | retry i => exact h.retryStep i
  | stop i => exact h.stopStep i
  | clear i order => exact h.resetStep i order

theorem EntryInv.oneActive : s.OneActive := by
  have hentry : ∀ (i : ℕ) (c : SendCall), s.calls[i]? = some c → c.retrying s.retryTimes = true →
      s.messagesToRetry.lookup c.msgRetry.msgType = some i := by
    intro i c hc hr
    simp only [SendCall.retrying, Bool.and_eq_true, bne_iff_ne] at hr
    exact (h.calls i c hc).listed ((h.calls i c hc).started hr.1.1.1) hr.1.2
  rw [OneActive, List.pairwise_iff_getElem]
  rintro i j hi hj hij ⟨ht, hri, hrj⟩
  have hlooki := hentry i _ (List.getElem?_eq_getElem hi) hri
  have hlookj := hentry j _ (List.getElem?_eq_getElem hj) hrj
  rw [ht] at hlooki
  exact hij.ne (Option.some.inj (hlooki.symm.trans hlookj))

end

end MessageSender

end Benzene
