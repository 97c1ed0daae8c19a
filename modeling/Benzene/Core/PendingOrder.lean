import Benzene.Core.Readmission
import Benzene.Core.Reinject

/-!
# Pending transactions are executable in order

After a reorganisation the pending nonces of an account are to be the numbers from its nonce in
the state up to its pool nonce.  `pending_executable`: this holds in every run whose head resets
leave no gap (`ClosesGaps`).  A reset to a lower nonce breaks it when a transaction becomes
executable again and another one is missing between it and what was pending before
(`Concrete.pending_with_gap`).

The argument is about one account at a time: the routines of the pool are `Promoted`, `Demoted`
and `Shortened` steps of its `AccountView`.
-/

namespace Benzene.TxPool

variable {C : Crypto} {ord : RangeOrder} {now : ℤ} {pool pool' : TxPool} {a b : Address}
  {l : TxList}

theorem mem_candidates (h : Sound C pool []) (hl : pool.queue.lookup a = some l) {k : ℕ} :
    k ∈ (pool.view a).candidates ↔
      ∃ n t, (pool.dropsOf ord a l).1.get n = some t ∧ n.toNat = k := by
  simp only [get_dropsOf h hl]
  constructor
  · rintro ⟨n, t, hq, hle, hpay, hk⟩
    exact ⟨n, t, ⟨hq, hle, hpay⟩, hk⟩
  · rintro ⟨n, t, ⟨hq, hle, hpay⟩, hk⟩
    exact ⟨n, t, hq, hle, hpay, hk⟩

/-! ## Promotion -/

/-- The pool nonce after a run of transactions has become pending. -/
theorem toNat_lastNonce {txs : List Transaction} {n : ℕ} {q : UInt64} (hne : txs ≠ [])
    (hnonces : (txs.map fun t => t.accountNonce.toNat) = List.range' n txs.length) :
    ((txs.getLast?.map fun tx => tx.accountNonce + 1).getD q).toNat = n + txs.length ∨
      ((txs.getLast?.map fun tx => tx.accountNonce + 1).getD q).toNat = 0 := by
  obtain ⟨t, ht⟩ := Option.ne_none_iff_exists'.1
    (fun hnone => hne (List.getLast?_eq_none_iff.1 hnone))
  have hlen : 0 < txs.length := List.length_pos_iff.2 hne
  have hlast : t.accountNonce.toNat + 1 = n + txs.length := by
    have hget := congrArg List.getLast? hnonces
    rw [List.getLast?_map, ht, List.getLast?_range'] at hget
    rw [Option.map_some, if_neg hlen.ne', Option.some.injEq] at hget
    omega
  rw [ht, Option.map_some, Option.getD_some, UInt64.toNat_add]
  have hlt := t.accountNonce.toNat_lt
  have hone : (1 : UInt64).toNat = 1 := rfl
  omega

theorem promoteAccount_view (h : Good C pool)
    (hr : pool.promoteAccount C ord now a = some pool') :
    (∀ b, b ≠ a → pool'.view b = pool.view b) ∧ (pool.view a).Promoted (pool'.view a) := by
  cases hl : pool.queue.lookup a with
  | none =>
    simp only [promoteAccount, hl] at hr
    obtain rfl := Option.some.inj hr
    refine ⟨fun _ _ => rfl, ⟨rfl, rfl, rfl, id, Or.inl ⟨rfl, rfl, ?_⟩⟩⟩
    rintro k ⟨n, t, ht, -⟩
    simp [view, listAt, hl] at ht
  | some l =>
    obtain ⟨hpending, hnonces, hqueue⟩ := promoteAccount_spec h hl hr
    have hsame := (promoteAccount_keeps h hr).2
    have hsender : ∀ t ∈ (pool.readiesOf ord a l).2, C.poolSender t = a :=
      readies_sender h.sound hl
    have hget : ∀ t ∈ (pool.readiesOf ord a l).2,
        (pool.dropsOf ord a l).1.get t.accountNonce = some t := fun t ht =>
      ((pool.dropsOf ord a l).1.ready_drops (pool.pendingNonces.get a)).get_of_mem ht
    have hspec := (pool.dropsOf ord a l).1.ready_spec (pool.pendingNonces.get a)
    rw [← readiesOf] at hspec
    generalize (pool.readiesOf ord a l).2 = txs at hpending hnonces hsender hget hspec
    refine ⟨fun b hb => ?_, ?_⟩
    · have hp : ∀ n, listAt pool'.pending (b, n) = listAt pool.pending (b, n) := by
        intro n
        ext t
        rw [hpending]
        refine or_iff_left ?_
        rintro ⟨ht, hcell⟩
        exact hb ((congrArg Prod.fst hcell).symm.trans (hsender t ht))
      have hq : ∀ n, listAt pool'.queue (b, n) = listAt pool.queue (b, n) := by
        intro n
        simp only [listAt, hqueue b hb]
      simp only [view, hp, hq, hnonces, if_neg hb, hsame.currentState, hsame.currentMaxGas]
    · refine ⟨by simp only [view, hsame.currentState], by simp only [view, hsame.currentState],
        by simp only [view, hsame.currentMaxGas], fun ht => (hpending _ _).2 (Or.inl ht), ?_⟩
      have hq : (pool'.view a).poolNonce =
          (txs.getLast?.map fun tx => tx.accountNonce + 1).getD (pool.view a).poolNonce := by
        simp only [view, hnonces, if_true]
      have hmem : ∀ k, k ∈ (pool'.view a).nonces ↔
          k ∈ (pool.view a).nonces ∨ k ∈ txs.map fun t => t.accountNonce.toNat := by
        intro k
        simp only [AccountView.nonces, view, Set.mem_ofPred_eq, hpending, List.mem_map]
        constructor
        · rintro ⟨n, t, ht | ⟨ht, hcell⟩, rfl⟩
          · exact Or.inl ⟨n, t, ht, rfl⟩
          · exact Or.inr ⟨t, ht, by rw [show t.accountNonce = n from congrArg Prod.snd hcell]⟩
        · rintro (⟨n, t, ht, rfl⟩ | ⟨t, ht, rfl⟩)
          · exact ⟨n, t, Or.inl ht, rfl⟩
          · exact ⟨_, t, Or.inr ⟨ht, by rw [Crypto.cell, hsender t ht]⟩, rfl⟩
      rcases hspec with ⟨rfl, habove⟩ | ⟨n₀, hne, hrun, hle, hlow, hend⟩
      · refine Or.inl ⟨Set.ext fun k => by simp [hmem], hq, fun k hk => ?_⟩
        obtain ⟨n, t, ht, rfl⟩ := (mem_candidates h.sound hl).1 hk
        exact habove n t ht
      · have hcand : ∀ k ∈ Set.Ico n₀ (n₀ + txs.length), k ∈ (pool.view a).candidates := by
          intro k hk
          obtain ⟨t, ht, rfl⟩ := List.mem_map.1 (hrun ▸ List.mem_range'_1.2 hk)
          exact (mem_candidates h.sound hl).2 ⟨_, t, hget t ht, rfl⟩
        refine Or.inr ⟨n₀, _, List.length_pos_iff.2 hne, ?_, hq ▸ toNat_lastNonce hne hrun, hle,
          hcand, ?_, ?_, ?_⟩
        · ext k
          rw [hmem, hrun, List.mem_range'_1]
          exact Iff.rfl
        · intro j hj
          obtain ⟨n, t, ht, rfl⟩ := (mem_candidates h.sound hl).1 hj
          exact hlow n t ht
        · intro hmem'
          obtain ⟨n, t, ht, hn⟩ := (mem_candidates h.sound hl).1 hmem'
          rw [hend n hn] at ht
          cases ht
        · intro m t ht hm
          rcases (hpending _ _).1 ht with hold | ⟨hready, -⟩
          · exact absurd ⟨m, t, hold, rfl⟩ (candidates_disjoint h.sound (hcand _ hm))
          · exact ((get_dropsOf h.sound hl).1 (hget t hready)).2.2

variable {accounts : List Address} {v : AccountView}

/-- The promotion of the accounts with new transactions. -/
theorem promoteExecutables_inOrder (h : Good C pool) (hv : ∀ a, (pool.view a).InOrder)
    (hr : promoteExecutables C ord now pool accounts = some pool') :
    ∀ a, (pool'.view a).InOrder := by
  induction accounts generalizing pool with
  | nil => exact Option.some.inj hr ▸ hv
  | cons a accounts ih =>
    obtain ⟨pool₁, hpool₁, hr⟩ := Option.bind_eq_some_iff.1 hr
    obtain ⟨hframe, hp⟩ := promoteAccount_view h hpool₁
    refine ih (promoteAccount_keeps h hpool₁).1.toGood (fun b => ?_) hr
    by_cases hb : b = a
    · rw [hb]
      exact (hv a).promoted hp fun k hk => candidates_disjoint h.sound hk
    · rw [hframe b hb]
      exact hv b

/-- An account after a reset, or after one that was given up. -/
def AfterReset (v : AccountView) : Prop :=
  (v.Interval ∧ v.Closes) ∨
    (v.InOrder ∧ (v.poolNonce ≤ v.stateNonce ∨ v.FrontPayable))

theorem AfterReset.promoted {v' : AccountView} (h : AfterReset v) (hp : v.Promoted v')
    (hdisj : ∀ k ∈ v.candidates, k ∉ v.nonces) : v'.Fronted := by
  rcases h with ⟨hi, hc⟩ | ⟨ho, hfront⟩
  · exact hi.promoted hc hp
  · refine (ho.promoted hp hdisj).fronted ?_
    rcases hfront with hle | hfront
    · rcases hp.run with ⟨-, hq, -⟩ | ⟨n, k, hk, hnonces, -, hnq, hsub, -, -, hpay⟩
      · exact Or.inl (by rw [hq, hp.stateNonce]; exact hle)
      · rw [UInt64.le_iff_toNat_le] at hle
        have hge := AccountView.le_of_mem_candidates (hsub ⟨le_rfl, by omega⟩ : n ∈ v.candidates)
        exact Or.inr (hp.frontPayable_of_run hk hnonces (by omega) hpay)
    · exact Or.inr (hp.frontPayable hfront)

theorem AfterReset.fronted (h : AfterReset v) : v.Fronted := by
  rcases h with ⟨hi, -⟩ | ⟨ho, hfront⟩
  · exact hi.fronted
  · exact ho.fronted hfront

/-- The promotion of all queues after a reset. -/
theorem promoteExecutables_fronted (h : Good C pool) (hnd : accounts.Nodup)
    (hin : ∀ a ∈ accounts, AfterReset (pool.view a))
    (hout : ∀ a, a ∉ accounts → (pool.view a).Fronted)
    (hr : promoteExecutables C ord now pool accounts = some pool') :
    ∀ a, (pool'.view a).Fronted := by
  induction accounts generalizing pool with
  | nil => exact Option.some.inj hr ▸ fun a => hout a (by simp)
  | cons a accounts ih =>
    obtain ⟨pool₁, hpool₁, hr⟩ := Option.bind_eq_some_iff.1 hr
    obtain ⟨hframe, hp⟩ := promoteAccount_view h hpool₁
    obtain ⟨hnot, hnd⟩ := List.nodup_cons.1 hnd
    refine ih (promoteAccount_keeps h hpool₁).1.toGood hnd (fun b hb => ?_) (fun b hb => ?_) hr
    · rw [hframe b fun hba => hnot (hba ▸ hb)]
      exact hin b (List.mem_cons_of_mem _ hb)
    · by_cases hba : b = a
      · rw [hba]
        exact (hin a List.mem_cons_self).promoted hp fun k hk => candidates_disjoint h.sound hk
      · rw [hframe b hba]
        exact hout b fun hmem => (List.mem_cons.1 hmem).elim hba hb

/-! ## Demotion -/

theorem demoted_view (h : Good C pool) (hl : pool.pending.lookup a = some l) :
    (pool.view a).Demoted ((pool.demoted C ord now a l).view a) := by
  have hkeeps : ∀ n t, (pool.view a).Keeps n t ↔ (pool.dropsOf ord a l).1.get n = some t := by
    intro n t
    rw [get_dropsOf_pending h.sound hl]
    simp only [AccountView.Keeps, AccountView.Payable, view, listAt_of_lookup hl, and_assoc,
      and_imp, Bool.not_eq_false]
  refine ⟨by simp only [view, demoted_same.currentState],
    by simp only [view, demoted_pendingNonces], fun n t => ?_⟩
  simp only [hkeeps]
  simp only [view, listAt_demoted, if_true, gappedOf, get_demoteGapped]

theorem demoteAccount_view (h : Good C pool)
    (hr : pool.demoteAccount C ord now a = some pool') :
    (∀ b, b ≠ a → pool'.view b = { pool.view b with queue := (pool'.view b).queue }) ∧
      (pool.view a).Demoted (pool'.view a) := by
  cases hl : pool.pending.lookup a with
  | none =>
    simp only [demoteAccount, hl] at hr
    obtain rfl := Option.some.inj hr
    have hempty : ∀ n t, (pool.view a).pending n ≠ some t := by simp [view, listAt, hl]
    exact ⟨fun _ _ => rfl, rfl, rfl, fun n t => iff_of_false (hempty n t) fun h =>
      hempty n t h.1.1⟩
  | some l =>
    obtain rfl := Option.some.inj ((demoteAccount_eq ord now h.sound hl).1.symm.trans hr)
    refine ⟨fun b hb => ?_, demoted_view h hl⟩
    -- only the queue of another account may change
    simp only [view, listAt_demoted, if_neg hb, demoted_pendingNonces, demoted_same.currentState,
      demoted_same.currentMaxGas]

theorem demoteAccounts_settled (h : Good C pool) (hnd : accounts.Nodup)
    (hin : ∀ a ∈ accounts, (pool.view a).Fronted) (hout : ∀ a, a ∉ accounts → (pool.view a).Settled)
    (hr : demoteAccounts C ord now pool accounts = some pool') : ∀ a, (pool'.view a).Settled := by
  induction accounts generalizing pool with
  | nil => exact Option.some.inj hr ▸ fun a => hout a (by simp)
  | cons a accounts ih =>
    obtain ⟨pool₁, hpool₁, hr⟩ := Option.bind_eq_some_iff.1 hr
    obtain ⟨hframe, hd⟩ := demoteAccount_view h hpool₁
    obtain ⟨hnot, hnd⟩ := List.nodup_cons.1 hnd
    refine ih (demoteAccount_keeps h hpool₁).1.toGood hnd (fun b hb => ?_) (fun b hb => ?_) hr
    · have hb' := hin b (List.mem_cons_of_mem _ hb)
      rw [hframe b fun hba => hnot (hba ▸ hb)]
      exact ⟨hb'.gapless, hb'.front⟩
    · by_cases hba : b = a
      · rw [hba]
        exact (hin a List.mem_cons_self).demoted hd
      · have hb' := hout b fun hmem => (List.mem_cons.1 hmem).elim hba hb
        rw [hframe b hba]
        exact ⟨hb'.gapless, hb'.le⟩

/-! ## The end of a reorganisation -/

/-- The pending nonces of an account are the numbers from its state nonce up to its pool nonce
    minus one. -/
def Executable (pool : TxPool) : Prop :=
  ∀ a l, pool.pending.lookup a = some l → ∀ n : UInt64, (∃ t, l.get n = some t) ↔
    pool.currentState.getNonce a ≤ n ∧ n ≤ pool.pendingNonces.get a - 1

/-- The pool nonce of every account with pending transactions becomes the one after the last. -/
theorem setNonces_spec (hr : setNonces pool accounts = some pool') :
    (∀ a ∈ accounts, ∃ l t, pool.pending.lookup a = some l ∧ l.lastElement = some t ∧
        pool'.pendingNonces.get a = t.accountNonce + 1) ∧
      ∀ a, a ∉ accounts → pool'.pendingNonces.get a = pool.pendingNonces.get a := by
  induction accounts generalizing pool with
  | nil => exact ⟨by simp, Option.some.inj hr ▸ fun _ _ => rfl⟩
  | cons a accounts ih =>
    obtain ⟨l, hl, hr⟩ := Option.bind_eq_some_iff.1 hr
    obtain ⟨t, ht, hr⟩ := Option.bind_eq_some_iff.1 hr
    obtain ⟨hin, hout⟩ := ih hr
    have hset : ∀ b, b ∉ accounts → pool'.pendingNonces.get b =
        if b = a then t.accountNonce + 1 else pool.pendingNonces.get b := by
      intro b hb
      rw [hout b hb]
      exact TxNoncer.get_set _ _ _ _
    refine ⟨fun b hb => ?_, fun b hb => ?_⟩
    · by_cases hmem : b ∈ accounts
      · exact hin b hmem
      · obtain rfl := (List.mem_cons.1 hb).resolve_right hmem
        exact ⟨l, t, hl, ht, by rw [hset b hmem, if_pos rfl]⟩
    · obtain ⟨hba, hmem⟩ := not_or.1 fun h => hb (List.mem_cons.2 h)
      rw [hset b hmem, if_neg hba]

/-- The last pending nonce of a settled account. -/
theorem isNext_last (h : v.Settled) {t : Transaction} (ht : v.pending t.accountNonce = some t)
    (hmax : ∀ n t', v.pending n = some t' → n ≤ t.accountNonce) :
    IsNext v.stateNonce.toNat v.nonces (t.accountNonce + 1).toNat := by
  have hlt := t.accountNonce.toNat_lt
  have hadd : (t.accountNonce + 1).toNat = (t.accountNonce.toNat + 1) % 2 ^ 64 :=
    UInt64.toNat_add _ _
  have hnext : IsNext v.stateNonce.toNat v.nonces (t.accountNonce.toNat + 1) := by
    refine Or.inr ⟨?_, fun j hj hlast => ?_⟩
    · rintro ⟨n, t', ht', hn⟩
      have hle := UInt64.le_iff_toNat_le.1 (hmax n t' ht')
      omega
    · exact (h.gapless _ ⟨_, t, ht, rfl⟩).2 j hj (by omega)
  exact AccountView.isNext_of_wrapped hnext (by omega)

theorem nonces_of_none (hl : pool.pending.lookup a = none) : (pool.view a).nonces = ∅ := by
  ext k
  simp [AccountView.nonces, view, listAt, hl]

theorem setNonces_inOrder (hv : ∀ a, (pool.view a).Settled)
    (hr : setNonces pool (ord.order pool.pending.keys) = some pool') :
    (∀ a, (pool'.view a).InOrder) ∧ pool'.Executable := by
  obtain ⟨hin, hout⟩ := setNonces_spec hr
  obtain ⟨nonces, rfl⟩ := setNonces_eq hr
  -- the last pending transaction of an account
  have hlast : ∀ a l, pool.pending.lookup a = some l → ∃ t, l.get t.accountNonce = some t ∧
      (∀ n t', l.get n = some t' → n ≤ t.accountNonce) ∧ nonces.get a = t.accountNonce + 1 := by
    intro a l hl
    obtain ⟨l', t, hl', ht, hq⟩ := hin a (by
      rw [RangeOrder.mem_order, GoMap.mem_keys_iff]
      exact ⟨l, hl⟩)
    obtain rfl := Option.some.inj (hl.symm.trans hl')
    exact ⟨t, (TxList.lastElement_spec ht).1, (TxList.lastElement_spec ht).2, hq⟩
  refine ⟨fun a => ⟨(hv a).gapless, ?_⟩, fun a l hl n => ?_⟩
  · change IsNext _ (pool.view a).nonces (nonces.get a).toNat
    cases hl : pool.pending.lookup a with
    | none =>
      have hq : nonces.get a = (pool.view a).poolNonce := hout a (by
        rw [RangeOrder.mem_order]
        exact GoMap.lookup_eq_none.1 hl)
      rw [hq]
      exact Or.inl (UInt64.le_iff_toNat_le.1 ((hv a).le (nonces_of_none hl)))
    | some l =>
      obtain ⟨t, ht, hmax, hq⟩ := hlast a l hl
      rw [hq]
      refine isNext_last (hv a) ((listAt_of_lookup hl _).trans ht) fun n t' ht' => ?_
      exact hmax n t' ((listAt_of_lookup hl _).symm.trans ht')
  · obtain ⟨t, ht, hmax, hq⟩ := hlast a l hl
    have hmem : ∀ n, n.toNat ∈ (pool.view a).nonces ↔ ∃ t, l.get n = some t := by
      intro n
      rw [AccountView.mem_nonces]
      simp only [view, listAt_of_lookup hl]
    dsimp only
    rw [hq, add_sub_cancel_right]
    constructor
    · rintro ⟨t', ht'⟩
      exact ⟨UInt64.le_iff_toNat_le.2 ((hv a).gapless _ ((hmem n).2 ⟨t', ht'⟩)).1, hmax n t' ht'⟩
    · rintro ⟨hge, hle⟩
      rw [UInt64.le_iff_toNat_le] at hge hle
      exact (hmem n).1 (((hv a).gapless _ ((hmem _).2 ⟨t, ht⟩)).2 _ hge hle)

theorem Shortens.views {P : AccountView → Prop}
    (hP : ∀ {v v'}, P v → v.Shortened v' → P v') (h : Shortens pool pool')
    (hv : ∀ a, P (pool.view a)) : ∀ a, P (pool'.view a) :=
  h.rule (fun pool => ∀ a, P (pool.view a)) (fun _ _ hv hs a => hP (hv a) (hs.account a)) hv

theorem finishReorg_inOrder (h : Good C pool) (hslots : 1 ≤ pool.config.accountSlots.toNat)
    (hv : ∀ a, (pool.view a).Settled) (hr : pool.finishReorg C ord now = some pool') :
    (∀ a, (pool'.view a).InOrder) ∧ pool'.Executable := by
  obtain ⟨pool₁, hpool₁, hr⟩ := Option.bind_eq_some_iff.1 hr
  obtain ⟨pool₂, hpool₂, hr⟩ := Option.bind_eq_some_iff.1 hr
  obtain ⟨hg₁, hshort₁⟩ := truncatePending_keeps h hslots hpool₁
  obtain ⟨-, hshort₂⟩ := truncateQueue_keeps hg₁.toGood hpool₂
  have hv₁ := hshort₁.views AccountView.Settled.shortened hv
  exact setNonces_inOrder (hshort₂.views AccountView.Settled.shortened hv₁) hr

/-! ## Runs -/

/-- A reset is given up: there is no state of the new head, or no block of the old one to start
    the walk. -/
def GivenUp (req : ResetRequest) : Prop :=
  req.chain.stateAt req.newHead.root = none ∨
    req.chain.headerHash req.oldHead ≠ req.newHead.parentHash ∧
      depth req.oldHead.numberU64 req.newHead.numberU64 ≤ 64 ∧
      req.chain.getBlock (req.chain.headerHash req.oldHead) req.oldHead.numberU64 = none

/-- A head reset leaves no gap in front of what is pending.  Either it is given up, and no account
    that is ahead of its state nonce has a transaction there that it cannot pay; or the
    transactions that come back fill the gaps at the state of the new head. -/
def ClosesGaps (C : Crypto) (pool : TxPool) (e : Event) : Prop :=
  match e.op with
  | .runReorg (some req) _ =>
    (GivenUp req ∧ ∀ a, (pool.view a).poolNonce ≤ (pool.view a).stateNonce ∨
      (pool.view a).FrontPayable) ∨
    ∃ statedb txs, req.chain.stateAt req.newHead.root = some statedb ∧ Returns C req txs ∧
      ∀ a, FillsGaps C (pool.atState statedb) txs a
  | _ => True

theorem GivenUp.reset_eq {req : ResetRequest} (h : GivenUp req)
    (hr : pool.reset C ord now req = some pool') : pool' = pool := by
  rcases h with hstate | ⟨hchild, hdepth, hblock⟩
  · obtain ⟨walk, -, hr⟩ := Option.bind_eq_some_iff.1 hr
    cases walk <;> simp only [hstate] at hr <;> exact (Option.some.inj hr).symm
  · simp only [reset, reinject, hchild, Nat.not_lt.2 hdepth, if_false, hblock] at hr
    exact (Option.some.inj hr).symm

/-- The accounts after a reset that leaves no gap. -/
theorem reset_afterReset (h : Good C pool) (hv : ∀ a, (pool.view a).InOrder) {req : ResetRequest}
    {dirtyAccounts : Option AccountSet}
    (hok : ClosesGaps C pool ⟨ord, now, .runReorg (some req) dirtyAccounts⟩)
    (hr : pool.reset C ord now req = some pool') (a : Address) : AfterReset (pool'.view a) := by
  rcases hok with ⟨hgiven, hfront⟩ | ⟨statedb, txs, hstate, hreturns, hfills⟩
  · obtain rfl := hgiven.reset_eq hr
    exact Or.inr ⟨hv a, hfront a⟩
  · simp only [reset, hreturns.reinject_eq, hstate, Option.bind_eq_bind, Option.bind_some] at hr
    obtain ⟨r, hadd, hr⟩ := Option.bind_eq_some_iff.1 hr
    obtain rfl := Option.some.inj hr
    have hg : Good C (pool.atState statedb) :=
      ⟨h.sound.congr rfl rfl rfl, h.tidy.congr rfl rfl rfl⟩
    refine Or.inl ⟨(addTxsLocked_keeps hg hadd).2.views AccountView.Interval.shortened
      (fun b => ⟨(hv b).interval, UInt64.le_refl _⟩) a, (hfills a).closes hg hadd⟩

theorem runReorg_inOrder (h : Good C pool) (hslots : 1 ≤ pool.config.accountSlots.toNat)
    (hv : ∀ a, (pool.view a).InOrder) {req : Option ResetRequest}
    {dirtyAccounts : Option AccountSet}
    (hok : ClosesGaps C pool ⟨ord, now, .runReorg req dirtyAccounts⟩)
    (hr : pool.runReorg C ord now req dirtyAccounts = some pool') :
    (∀ a, (pool'.view a).InOrder) ∧ pool'.Executable := by
  cases req with
  | none =>
    obtain ⟨pool₁, hpool₁, hr⟩ := Option.bind_eq_some_iff.1 hr
    obtain ⟨hg₁, hsame₁⟩ := promoteExecutables_keeps h hpool₁
    have hv₁ := promoteExecutables_inOrder h hv hpool₁
    exact finishReorg_inOrder hg₁.toGood (hsame₁.config ▸ hslots) (fun a => (hv₁ a).settled) hr
  | some req =>
    obtain ⟨pool₁, hpool₁, hr⟩ := Option.bind_eq_some_iff.1 hr
    obtain ⟨pool₂, hpool₂, hr⟩ := Option.bind_eq_some_iff.1 hr
    obtain ⟨pool₃, hpool₃, hr⟩ := Option.bind_eq_some_iff.1 hr
    obtain ⟨hg₁, hfixed₁⟩ := reset_keeps h hpool₁
    obtain ⟨hg₂, hsame₂⟩ := promoteExecutables_keeps hg₁.toGood hpool₂
    obtain ⟨hg₃, hsame₃⟩ := demoteAccounts_keeps hg₂.toGood hpool₃
    have hv₁ := reset_afterReset h hv hok hpool₁
    have hv₂ := promoteExecutables_fronted hg₁.toGood
      ((ord.perm _).nodup_iff.2 pool₁.queue.keys_nodup) (fun a _ => hv₁ a)
      (fun a _ => (hv₁ a).fronted) hpool₂
    have hv₃ := demoteAccounts_settled hg₂.toGood
      ((ord.perm _).nodup_iff.2 pool₂.pending.keys_nodup) (fun a _ => hv₂ a)
      (fun a ha => (hv₂ a).settled (nonces_of_none (GoMap.lookup_eq_none.2
        (ord.mem_order.not.1 ha)))) hpool₃
    have hfixed := hfixed₁.trans (hsame₂.trans hsame₃).fixed
    exact finishReorg_inOrder hg₃.toGood (hfixed.config ▸ hslots) hv₃ hr

theorem step_inOrder (h : Good C pool) (hslots : 1 ≤ pool.config.accountSlots.toNat)
    (hv : ∀ a, (pool.view a).InOrder) {e : Event} (hok : ClosesGaps C pool e)
    (hr : pool.step C e = some pool') : ∀ a, (pool'.view a).InOrder := by
  obtain ⟨ord, now, op⟩ := e
  cases op with
  | addLocals txs | addRemotes txs =>
    obtain ⟨r, hadd, rfl⟩ := Option.map_eq_some_iff.1 hr
    exact (addTxs_keeps h hadd).2.views AccountView.InOrder.shortened hv
  | setGasPrice price => exact (setGasPrice_keeps h hr).2.views AccountView.InOrder.shortened hv
  | runReorg req dirtyAccounts => exact (runReorg_inOrder h hslots hv hok hr).1
  | evict =>
    exact (removed_keeps h (evictLoop_removes hr)).2.views AccountView.InOrder.shortened hv

theorem newTxPool_inOrder (config : TxPoolConfig) (statedb : StateView) (a : Address) :
    ((newTxPool config statedb).view a).InOrder where
  gapless := by
    rintro k ⟨n, t, ht, -⟩
    simp [view, newTxPool, listAt] at ht
  next := Or.inl (by simp [view, newTxPool, TxNoncer.new, TxNoncer.get])

/-- The pending transactions are in order in every state of a run without gaps. -/
theorem runEvents_inOrder {config : TxPoolConfig} {statedb : StateView} {events : List Event}
    (hok : Run.StepsPartial (step C) (ClosesGaps C) (newTxPool config statedb) events)
    (hrun : runEvents C (newTxPool config statedb) events = some pool) :
    Good C pool ∧ 1 ≤ pool.config.accountSlots.toNat ∧ ∀ a, (pool.view a).InOrder := by
  refine Run.runPartial_invariant (ClosesGaps C)
    (fun pool => Good C pool ∧ 1 ≤ pool.config.accountSlots.toNat ∧ ∀ a, (pool.view a).InOrder)
    ?_ ⟨newTxPool_good _ _, one_le_atLeastOne (by decide), newTxPool_inOrder config statedb⟩
    hok hrun
  rintro pool e pool' ⟨hg, hslots, hv⟩ hok hstep
  obtain ⟨hg', hfixed⟩ := step_keeps hg hslots hstep
  exact ⟨hg'.toGood, hfixed.config ▸ hslots, step_inOrder hg hslots hv hok hstep⟩

/-- **Pending transactions are executable in order** after every reorganisation of a run whose
    head resets leave no gap. -/
theorem pending_executable (C : Crypto) (config : TxPoolConfig) (statedb : StateView)
    (events : List Event) (ord : RangeOrder) (now : ℤ) (req : Option ResetRequest)
    (dirtyAccounts : Option AccountSet) (pool : TxPool)
    (hok : Run.StepsPartial (step C) (ClosesGaps C) (newTxPool config statedb)
      (events ++ [⟨ord, now, .runReorg req dirtyAccounts⟩]))
    (hrun : runEvents C (newTxPool config statedb)
      (events ++ [⟨ord, now, .runReorg req dirtyAccounts⟩]) = some pool) : pool.Executable := by
  obtain ⟨hok, hlast⟩ := hok.of_concat
  rw [runEvents, Run.runPartial_concat] at hrun
  obtain ⟨pool₁, hpool₁, hstep⟩ := Option.bind_eq_some_iff.1 hrun
  obtain ⟨hg, hslots, hv⟩ := runEvents_inOrder hok hpool₁
  exact (runReorg_inOrder hg hslots hv (hlast pool₁ hpool₁) hstep).2

end Benzene.TxPool

namespace Benzene.Concrete

open TxPool

/-- The account of the transfers. -/
def payer : Address := crypto.poolSender (pay 7 0 5)

def promotePayer : Event := poolEvent (.runReorg none (some (AccountSet.add ∅ payer)))

/-- The head moves from a block with some transactions to an empty one on the same parent. -/
def siblingReset (statedb : StateView) (txs : List Transaction) : ResetRequest where
  chain := treeChain (some statedb) [childOf 0 0 9 [], childOf 1 1 0 txs, childOf 1 2 0 []]
  oldHead := (childOf 1 1 0 []).header
  newHead := (childOf 1 2 0 []).header

/-- A transfer with nonce 2 becomes pending. -/
def sendEvents : List Event := [poolEvent (.addLocals [pay 7 2 5]), promotePayer]

/-- The head then moves to the other block, on which the account can no longer pay the transfer
    with nonce 1. -/
def forkEvents : List Event :=
  sendEvents ++
    [poolEvent (.runReorg (some (siblingReset (uniformState 0 10) [pay 7 0 5, pay 7 1 50])) none)]

def forkPool : TxPool :=
  (runEvents crypto (newTxPool defaultTxPoolConfig (uniformState 2 100)) forkEvents).get
    (by decide +kernel)

/-- The nonces 0 and 2 are pending and the pool nonce is 3, but nonce 1 is missing. -/
theorem pending_with_gap :
    runEvents crypto (newTxPool defaultTxPoolConfig (uniformState 2 100)) forkEvents =
        some forkPool ∧
      (listAt forkPool.pending (payer, 0)).isSome = true ∧
      listAt forkPool.pending (payer, 1) = none ∧
      (listAt forkPool.pending (payer, 2)).isSome = true ∧
      forkPool.currentState.getNonce payer = 0 ∧ forkPool.pendingNonces.get payer = 3 ∧
      ¬ forkPool.Executable := by
  have hnone : listAt forkPool.pending (payer, 1) = none := by decide +kernel
  have hstate : forkPool.currentState.getNonce payer = 0 := by decide +kernel
  have hnonce : forkPool.pendingNonces.get payer = 3 := by decide +kernel
  refine ⟨(Option.some_get _).symm, by decide +kernel, hnone, by decide +kernel, hstate, hnonce,
    fun hexec => ?_⟩
  obtain ⟨l, hl⟩ := Option.isSome_iff_exists.1
    (by decide +kernel : (forkPool.pending.lookup payer).isSome = true)
  obtain ⟨t, ht⟩ := (hexec payer l hl 1).2 ⟨by rw [hstate]; decide, by rw [hnonce]; decide⟩
  rw [listAt_of_lookup hl, ht] at hnone
  cases hnone

def sentTwo : TxPool :=
  (runEvents crypto (newTxPool defaultTxPoolConfig (uniformState 2 100)) sendEvents).get
    (by decide +kernel)

theorem sentTwo_run : runEvents crypto (newTxPool defaultTxPoolConfig (uniformState 2 100))
    sendEvents = some sentTwo :=
  (Option.some_get _).symm

/-- Two transfers that come back. -/
def backTransfers : List Transaction := [pay 7 0 5, pay 7 1 5]

/-- On a block on which the account can pay both, the transfers with nonces 0 and 1 come back. -/
theorem returns_backTransfers :
    Returns crypto (siblingReset (uniformState 0 100) backTransfers) backTransfers := by
  have hlost : lost crypto [childOf 1 1 0 backTransfers] [childOf 1 2 0 []] = backTransfers := by
    decide +kernel
  have hfork : Fork (siblingReset (uniformState 0 100) backTransfers) (childOf 1 1 0 backTransfers)
      (childOf 1 2 0 []) (childOf 0 0 9 []) [childOf 1 1 0 backTransfers] [childOf 1 2 0 []] :=
    ⟨isTree_treeChain (by decide +kernel) (by decide +kernel), rfl, rfl, by decide +kernel,
      by decide +kernel, .step (by decide +kernel) (.root _), .step (by decide +kernel) (.root _),
      by decide +kernel⟩
  have hreturns := Returns.branch (C := crypto) hfork (by decide) (by decide) (by decide +kernel)
  rwa [hlost] at hreturns

/-- They fill the gap between the nonce of the account and its pending transfer. -/
theorem fillsGaps_sentTwo (a : Address) :
    FillsGaps crypto (sentTwo.atState (uniformState 0 100)) backTransfers a := by
  have hsound := (runEvents_good sentTwo_run).1.sound
  have hsent : listed sentTwo.pending = [pay 7 2 5] := by decide +kernel
  have hback : ∀ t ∈ backTransfers, listAt sentTwo.queue (crypto.cell t) = none ∧
      sentTwo.all.get (crypto.txHash t) = none ∧
      TxList.unpayable 100 sentTwo.currentMaxGas t = false ∧
      ∀ t' ∈ backTransfers, crypto.txHash t' = crypto.txHash t → t' = t := by decide +kernel
  have hvalid : ∀ t ∈ backTransfers,
      (sentTwo.atState (uniformState 0 100)).validateTx crypto t false = .ok () := by
    decide +kernel
  rintro - k ⟨m, t, ht, rfl⟩ -
  have ht' : listAt sentTwo.pending (a, m) = some t := ht
  have hcell := hsound.shelved.left_place ht'
  -- the only pending transaction is the transfer with nonce 2
  have hmem := (mem_listed hsound.shelved.left_place).2 (hcell ▸ ht')
  rw [hsent, List.mem_singleton] at hmem
  subst hmem
  have hpayer : crypto.cell (pay 7 2 5) = (payer, 2) := by decide +kernel
  obtain ⟨rfl, rfl⟩ := Prod.mk.inj (hpayer.symm.trans hcell)
  refine ⟨by decide +kernel, fun n _ hn => Or.inr ?_⟩
  have htwo : n.toNat < 2 := hn
  have hplace : ∃ t ∈ backTransfers, crypto.cell t = (payer, n) := by
    have hnonce : n.toNat = (0 : UInt64).toNat ∨ n.toNat = (1 : UInt64).toNat := by
      simp only [UInt64.toNat_zero, UInt64.toNat_one]
      omega
    rw [UInt64.toNat_inj, UInt64.toNat_inj] at hnonce
    rcases hnonce with rfl | rfl
    · exact ⟨pay 7 0 5, by decide +kernel⟩
    · exact ⟨pay 7 1 5, by decide +kernel⟩
  obtain ⟨t, hmem, hcell⟩ := hplace
  obtain ⟨hfree, hnew, -, hunique⟩ := hback t hmem
  exact ⟨Or.inr ⟨hcell ▸ hfree, t, ⟨hmem, hvalid t hmem, hnew, hunique⟩, hcell⟩,
    fun t' ht' _ => (hback t' ht').2.2.1⟩

def reinjectedEvent : Event :=
  poolEvent (.runReorg (some (siblingReset (uniformState 0 100) backTransfers)) none)

def reinjectedPool : TxPool :=
  (runEvents crypto (newTxPool defaultTxPoolConfig (uniformState 2 100))
    (sendEvents ++ [reinjectedEvent])).get (by decide +kernel)

/-- The transfers with nonces 0, 1 and 2 are pending after the head has moved. -/
theorem reinjected_executable :
    runEvents crypto (newTxPool defaultTxPoolConfig (uniformState 2 100))
        (sendEvents ++ [reinjectedEvent]) = some reinjectedPool ∧
      sentTwo.pendingCount = 1 ∧ reinjectedPool.pendingCount = 3 ∧ reinjectedPool.Executable := by
  have hrun : runEvents crypto (newTxPool defaultTxPoolConfig (uniformState 2 100))
      (sendEvents ++ [reinjectedEvent]) = some reinjectedPool :=
    (Option.some_get _).symm
  refine ⟨hrun, by decide +kernel, by decide +kernel, pending_executable crypto
    defaultTxPoolConfig (uniformState 2 100) sendEvents rangeOrder 0
    (some (siblingReset (uniformState 0 100) backTransfers)) none reinjectedPool ?_ hrun⟩
  refine ⟨trivial, fun pool₁ hpool₁ => ⟨trivial, fun pool₂ hpool₂ => ⟨?_, fun _ _ => trivial⟩⟩⟩
  have hsteps : runEvents crypto (newTxPool defaultTxPoolConfig (uniformState 2 100)) sendEvents =
      some pool₂ := by
    simp [runEvents, sendEvents, Run.runPartial, hpool₁, hpool₂]
  obtain rfl := Option.some.inj (sentTwo_run.symm.trans hsteps)
  exact Or.inr ⟨_, _, rfl, returns_backTransfers, fillsGaps_sentTwo⟩

end Benzene.Concrete
