import Benzene.Common.Gapless
import Benzene.Core.TxList

/-!
# One account of the pool

`AccountView` is what the pool knows of an account, and four properties of it follow one another
through a reorganisation:

* `InOrder`, between operations: the pending nonces are a run from the state nonce, and the pool
  nonce is the next one;
* `Interval`, after a reset: the pending nonces are a run from somewhere, and the pool nonce is
  not above the state nonce;
* `Fronted`, after the promotion: if the state nonce is pending then there is no gap above it;
* `Settled`, after the demotion: the pending nonces are a run from the state nonce.

`Promoted`, `Demoted` and `Shortened` are what the routines of the pool do to an account.
-/

namespace Benzene

/-- What the pool knows of an account. -/
structure AccountView where
  pending : UInt64 → Option Transaction
  queue : UInt64 → Option Transaction
  poolNonce : UInt64
  stateNonce : UInt64
  balance : ℤ
  maxGas : UInt64

namespace AccountView

variable (v : AccountView)

/-- The pending nonces. -/
def nonces : Set ℕ := {k | ∃ n t, v.pending n = some t ∧ n.toNat = k}

/-- The account can pay for a transaction. -/
def Payable (t : Transaction) : Prop := TxList.unpayable v.balance v.maxGas t = false

/-- The nonces of the queued transactions that promotion considers. -/
def candidates : Set ℕ :=
  {k | ∃ n t, v.queue n = some t ∧ v.stateNonce ≤ n ∧ v.Payable t ∧ n.toNat = k}

/-- The transaction at the state nonce is pending and payable. -/
def FrontPayable : Prop := ∃ t, v.pending v.stateNonce = some t ∧ v.Payable t

/-- The pending nonces are a run from the state nonce, and the pool nonce is the next one. -/
structure InOrder : Prop where
  gapless : Gapless v.stateNonce.toNat v.nonces
  next : IsNext v.stateNonce.toNat v.nonces v.poolNonce.toNat

/-- The pending nonces are a run, and the pool nonce is not above the state nonce. -/
structure Interval : Prop where
  ordConnected : v.nonces.OrdConnected
  le : v.poolNonce ≤ v.stateNonce

/-- If a transaction becomes pending at the state nonce, then so does every other one up to those
    that are pending. -/
def Closes : Prop :=
  v.stateNonce.toNat ∈ v.candidates → ∀ k ∈ v.nonces, v.stateNonce.toNat ≤ k →
    ∀ j, v.stateNonce.toNat ≤ j → j < k → j ∈ v.nonces ∨ j ∈ v.candidates

/-- There is no gap above the state nonce if that is pending. -/
structure Fronted : Prop where
  gapless : v.stateNonce.toNat ∈ v.nonces → ∀ k ∈ v.nonces,
    ∀ j, v.stateNonce.toNat ≤ j → j ≤ k → j ∈ v.nonces
  front : v.poolNonce ≤ v.stateNonce ∨ v.FrontPayable

/-- The pending nonces are a run from the state nonce. -/
structure Settled : Prop where
  gapless : Gapless v.stateNonce.toNat v.nonces
  le : v.nonces = ∅ → v.poolNonce ≤ v.stateNonce

/-- What promotion does to an account: nothing is at or below the pool nonce, or a run of
    candidates becomes pending. -/
structure Promoted (v' : AccountView) : Prop where
  stateNonce : v'.stateNonce = v.stateNonce
  balance : v'.balance = v.balance
  maxGas : v'.maxGas = v.maxGas
  sub : ∀ {n t}, v.pending n = some t → v'.pending n = some t
  run : (v'.nonces = v.nonces ∧ v'.poolNonce = v.poolNonce ∧
      ∀ k ∈ v.candidates, v.poolNonce.toNat < k) ∨
    ∃ n k, 0 < k ∧ v'.nonces = v.nonces ∪ Set.Ico n (n + k) ∧
      (v'.poolNonce.toNat = n + k ∨ v'.poolNonce.toNat = 0) ∧ n ≤ v.poolNonce.toNat ∧
      Set.Ico n (n + k) ⊆ v.candidates ∧ (∀ j ∈ v.candidates, n ≤ j) ∧ n + k ∉ v.candidates ∧
      ∀ m t, v'.pending m = some t → m.toNat ∈ Set.Ico n (n + k) → v.Payable t

/-- Demotion keeps a transaction: from the state nonce up to its own everything is payable. -/
def Keeps (n : UInt64) (t : Transaction) : Prop :=
  v.pending n = some t ∧ v.stateNonce ≤ n ∧
    ∀ m s, v.pending m = some s → v.stateNonce ≤ m → ¬ v.Payable s → n < m

/-- What demotion does to an account: it keeps the payable run at the state nonce. -/
structure Demoted (v' : AccountView) : Prop where
  stateNonce : v'.stateNonce = v.stateNonce
  poolNonce : v'.poolNonce = v.poolNonce
  pending : ∀ n t, v'.pending n = some t ↔ v.Keeps n t ∧ ∃ t', v.Keeps v.stateNonce t'

variable {v} {v' : AccountView}

theorem mem_nonces {n : UInt64} : n.toNat ∈ v.nonces ↔ ∃ t, v.pending n = some t := by
  constructor
  · rintro ⟨n', t, ht, hn⟩
    rw [UInt64.toNat_inj] at hn
    exact ⟨t, hn ▸ ht⟩
  · rintro ⟨t, ht⟩
    exact ⟨n, t, ht, rfl⟩

/-- There are as many pending nonces as the list is long. -/
theorem ncard_nonces {l : TxList} (h : ∀ n, v.pending n = l.get n) : v.nonces.ncard = l.len := by
  have hset : v.nonces = ↑(l.txs.items.keys.map UInt64.toNat).toFinset := by
    ext k
    simp only [nonces, h, Set.mem_ofPred_eq, List.coe_toFinset, List.mem_map, GoMap.mem_keys_iff]
    constructor
    · rintro ⟨n, t, ht, rfl⟩
      exact ⟨n, ⟨t, ht⟩, rfl⟩
    · rintro ⟨n, ⟨t, ht⟩, rfl⟩
      exact ⟨n, t, ht, rfl⟩
  have hnd : (l.txs.items.keys.map UInt64.toNat).Nodup :=
    l.txs.items.keys_nodup.map fun _ _ => UInt64.toNat_inj.1
  rw [hset, Set.ncard_coe_finset, List.toFinset_card_of_nodup hnd, List.length_map]
  simp [TxList.len, TxSortedMap.len, GoMap.size, AList.keys, List.keys]

theorem finite_nonces (v : AccountView) : v.nonces.Finite := by
  refine (Set.finite_Iio (2 ^ 64)).subset ?_
  rintro k ⟨n, -, -, rfl⟩
  exact n.toNat_lt

theorem le_of_mem_candidates {k : ℕ} (h : k ∈ v.candidates) : v.stateNonce.toNat ≤ k := by
  obtain ⟨n, t, -, hle, -, rfl⟩ := h
  exact UInt64.le_iff_toNat_le.1 hle

theorem InOrder.interval (h : v.InOrder) : v.nonces.OrdConnected := by
  refine ⟨fun x hx y hy z hz => ?_⟩
  exact (h.gapless y hy).2 z ((h.gapless x hx).1.trans hz.1) hz.2

theorem InOrder.settled (h : v.InOrder) : v.Settled := by
  refine ⟨h.gapless, fun hempty => ?_⟩
  rw [UInt64.le_iff_toNat_le]
  rcases h.next with hle | ⟨-, hall⟩
  · exact hle
  · by_contra hlt
    have hmem := hall v.stateNonce.toNat le_rfl (not_le.1 hlt)
    rw [hempty] at hmem
    exact hmem

/-- A pool nonce that has wrapped around is not above anything. -/
theorem isNext_of_wrapped {start next q : ℕ} {S : Set ℕ} (h : IsNext start S next)
    (hq : q = next ∨ q = 0) : IsNext start S q := by
  rcases hq with rfl | rfl
  · exact h
  · exact Or.inl (Nat.zero_le _)

/-- Promotion keeps the order. -/
theorem InOrder.promoted (h : v.InOrder) (hp : v.Promoted v')
    (hdisj : ∀ k ∈ v.candidates, k ∉ v.nonces) : v'.InOrder := by
  rcases hp.run with ⟨hn, hq, -⟩ | ⟨n, k, hk, hnonces, hq, hle, hsub, -⟩
  · exact ⟨by rw [hp.stateNonce, hn]; exact h.gapless, by
      rw [hp.stateNonce, hn, hq]; exact h.next⟩
  · have hmem : n ∈ v.candidates := hsub ⟨le_rfl, by omega⟩
    have hs := le_of_mem_candidates hmem
    obtain ⟨-, hbelow⟩ := h.next.eq_of_notMem (hdisj n hmem) hs hle
    refine ⟨?_, ?_⟩
    all_goals rw [hp.stateNonce, hnonces]
    · exact h.gapless.append hs hbelow
    · exact isNext_of_wrapped (IsNext.append h.gapless hs (hdisj n hmem) hbelow) hq

theorem InOrder.fronted (h : v.InOrder) (hfront : v.poolNonce ≤ v.stateNonce ∨ v.FrontPayable) :
    v.Fronted :=
  ⟨fun _ k hk j hj hjk => (h.gapless k hk).2 j hj hjk, hfront⟩

theorem Promoted.frontPayable (hp : v.Promoted v') (h : v.FrontPayable) : v'.FrontPayable := by
  obtain ⟨t, ht, hpay⟩ := h
  refine ⟨t, by rw [hp.stateNonce]; exact hp.sub ht, ?_⟩
  unfold Payable at hpay ⊢
  rwa [hp.balance, hp.maxGas]

/-- The run that becomes pending starts at the state nonce when the pool nonce is not above. -/
theorem Promoted.frontPayable_of_run (hp : v.Promoted v') {n k : ℕ} (hk : 0 < k)
    (hnonces : v'.nonces = v.nonces ∪ Set.Ico n (n + k)) (hn : n = v.stateNonce.toNat)
    (hpay : ∀ m t, v'.pending m = some t → m.toNat ∈ Set.Ico n (n + k) → v.Payable t) :
    v'.FrontPayable := by
  have hmem : v.stateNonce.toNat ∈ Set.Ico n (n + k) := ⟨hn.le, by omega⟩
  obtain ⟨t, ht⟩ := mem_nonces.1 (hnonces ▸ Or.inr hmem : v.stateNonce.toNat ∈ v'.nonces)
  refine ⟨t, by rwa [hp.stateNonce], ?_⟩
  have := hpay _ t ht hmem
  unfold Payable at this ⊢
  rwa [hp.balance, hp.maxGas]

/-- A transaction with the pool nonce becomes pending when it is a candidate and the candidates
    below leave no gap. -/
theorem Promoted.mem_poolNonce (hp : v.Promoted v') (hn : v.poolNonce.toNat ∉ v.nonces) :
    v.poolNonce.toNat ∈ v'.nonces ↔ v.poolNonce.toNat ∈ v.candidates ∧
      ∀ k ∈ v.candidates, k < v.poolNonce.toNat → ∀ j, k ≤ j → j < v.poolNonce.toNat →
        j ∈ v.candidates := by
  rcases hp.run with ⟨hnonces, -, habove⟩ | ⟨n, k, hk, hnonces, -, hle, hsub, hlow, hend, -⟩
  all_goals rw [hnonces]
  · exact iff_of_false hn fun h => absurd (habove _ h.1) (lt_irrefl _)
  · constructor
    · intro hmem
      have hico := hmem.resolve_left hn
      refine ⟨hsub hico, fun i hi _ j hij hj => hsub ⟨(hlow i hi).trans hij, hj.trans hico.2⟩⟩
    · rintro ⟨hmem, hjoined⟩
      refine Or.inr ⟨hle, ?_⟩
      by_contra hge
      have hne : v.poolNonce.toNat ≠ n + k := fun heq => hend (heq ▸ hmem)
      -- the run would go on up to the pool nonce
      exact hend (hjoined n (hsub ⟨le_rfl, by omega⟩) (by omega) (n + k) (by omega) (by omega))

/-- What is pending below the pool nonce then. -/
theorem Promoted.below_poolNonce (hp : v.Promoted v') (hn : v.poolNonce.toNat ∉ v.nonces)
    (hmem : v.poolNonce.toNat ∈ v'.nonces) :
    below v'.nonces v.poolNonce.toNat = below (v.nonces ∪ v.candidates) v.poolNonce.toNat := by
  rcases hp.run with ⟨hnonces, -, -⟩ | ⟨n, k, hk, hnonces, -, hle, hsub, hlow, -, -⟩
  · exact absurd (hnonces ▸ hmem) hn
  · rw [hnonces] at hmem ⊢
    have hico := hmem.resolve_left hn
    ext j
    refine and_congr_left fun hj => or_congr_right ⟨fun h => hsub h, fun h => ?_⟩
    exact ⟨hlow j h, lt_trans hj hico.2⟩

theorem Interval.promoted (h : v.Interval) (hc : v.Closes) (hp : v.Promoted v') : v'.Fronted := by
  have hle := UInt64.le_iff_toNat_le.1 h.le
  rcases hp.run with ⟨hn, hq, -⟩ | ⟨n, k, hk, hnonces, -, hnq, hsub, -, hend, hpay⟩
  · refine ⟨?_, Or.inl (by rw [hp.stateNonce, hq]; exact h.le)⟩
    rw [hp.stateNonce, hn]
    exact fun hs _ hk _ hj hjk => h.ordConnected.out hs hk ⟨hj, hjk⟩
  · have hmem : n ∈ v.candidates := hsub ⟨le_rfl, by omega⟩
    have hns : n = v.stateNonce.toNat := by
      have := le_of_mem_candidates hmem
      omega
    refine ⟨?_, Or.inr (hp.frontPayable_of_run hk hnonces hns hpay)⟩
    rw [hp.stateNonce, hnonces]
    intro _ x hx j hj hjx
    by_cases hjk : j < n + k
    · exact Or.inr ⟨by omega, hjk⟩
    · -- the run ends at a nonce that is pending already, and what is pending is connected
      have hxold : x ∈ v.nonces := hx.resolve_right fun hx => by
        have := hx.2
        omega
      have hendmem : n + k ∈ v.nonces := by
        by_cases hxe : x = n + k
        · exact hxe ▸ hxold
        · have hclose := hc (hns ▸ hmem) x hxold (by omega) (n + k) (by omega) (by omega)
          exact hclose.resolve_right hend
      exact Or.inl (h.ordConnected.out hendmem hxold ⟨by omega, hjx⟩)

theorem Interval.fronted (h : v.Interval) : v.Fronted :=
  ⟨fun hs _ hk _ hj hjk => h.ordConnected.out hs hk ⟨hj, hjk⟩, Or.inl h.le⟩

theorem FrontPayable.keeps (h : v.FrontPayable) : ∃ t, v.Keeps v.stateNonce t := by
  obtain ⟨t, ht, hpay⟩ := h
  refine ⟨t, ht, UInt64.le_refl _, fun m s hs hge hun => ?_⟩
  refine UInt64.lt_of_le_of_ne hge fun heq => hun ?_
  obtain rfl : t = s := Option.some.inj (ht.symm.trans (heq ▸ hs))
  exact hpay

theorem Fronted.demoted (h : v.Fronted) (hd : v.Demoted v') : v'.Settled := by
  refine ⟨?_, fun hempty => ?_⟩
  · rw [hd.stateNonce]
    rintro k ⟨n, t, ht, rfl⟩
    obtain ⟨⟨hn, hge, hbelow⟩, t', hfront⟩ := (hd.pending n t).1 ht
    refine ⟨UInt64.le_iff_toNat_le.1 hge, fun j hj hjn => ?_⟩
    -- what is between was pending, and it is kept like the transaction above
    obtain ⟨m, s, hs, rfl⟩ := h.gapless ⟨_, t', hfront.1, rfl⟩ _ ⟨n, t, hn, rfl⟩ j hj hjn
    refine ⟨m, s, (hd.pending m s).2 ⟨⟨hs, UInt64.le_iff_toNat_le.2 hj, ?_⟩, t', hfront⟩, rfl⟩
    intro m' s' hs' hge' hun
    exact UInt64.lt_of_le_of_lt (UInt64.le_iff_toNat_le.2 hjn) (hbelow m' s' hs' hge' hun)
  · rw [hd.stateNonce, hd.poolNonce]
    refine h.front.resolve_right fun hfront => ?_
    obtain ⟨t, ht⟩ := hfront.keeps
    have hmem : v.stateNonce.toNat ∈ v'.nonces := ⟨_, t, (hd.pending _ t).2 ⟨ht, t, ht⟩, rfl⟩
    rw [hempty] at hmem
    exact hmem

/-- An account without pending transactions is settled. -/
theorem Fronted.settled (h : v.Fronted) (hempty : v.nonces = ∅) : v.Settled := by
  refine ⟨by rw [hempty]; exact fun k hk => absurd hk (Set.notMem_empty k), fun _ => ?_⟩
  refine h.front.resolve_right ?_
  rintro ⟨t, ht, -⟩
  have hmem := mem_nonces.2 ⟨t, ht⟩
  rw [hempty] at hmem
  exact hmem

/-! ### Losses -/

/-- The account has lost its pending transactions from some nonce on. -/
structure Shortened (v v' : AccountView) : Prop where
  stateNonce : v'.stateNonce = v.stateNonce
  loss : (v'.nonces = v.nonces ∧ v'.poolNonce = v.poolNonce) ∨
    ∃ n ∈ v.nonces, v'.nonces = below v.nonces n ∧
      v'.poolNonce.toNat = min v.poolNonce.toNat n

theorem InOrder.shortened (h : v.InOrder) (hs : v.Shortened v') : v'.InOrder := by
  rcases hs.loss with ⟨hn, hq⟩ | ⟨n, hn, hnonces, hq⟩
  · exact ⟨by rw [hs.stateNonce, hn]; exact h.gapless, by
      rw [hs.stateNonce, hn, hq]; exact h.next⟩
  · refine ⟨?_, ?_⟩
    · rw [hs.stateNonce, hnonces]
      exact h.gapless.below
    · rw [hs.stateNonce, hnonces, hq]
      exact h.next.below h.gapless hn

theorem Interval.shortened (h : v.Interval) (hs : v.Shortened v') : v'.Interval := by
  rcases hs.loss with ⟨hn, hq⟩ | ⟨n, hn, hnonces, hq⟩
  · exact ⟨hn ▸ h.ordConnected, by rw [hs.stateNonce, hq]; exact h.le⟩
  · refine ⟨hnonces ▸ ordConnected_below h.ordConnected n, ?_⟩
    have hle := UInt64.le_iff_toNat_le.1 h.le
    rw [UInt64.le_iff_toNat_le, hs.stateNonce, hq]
    omega

theorem Settled.shortened (h : v.Settled) (hs : v.Shortened v') : v'.Settled := by
  rcases hs.loss with ⟨hn, hq⟩ | ⟨n, hn, hnonces, hq⟩
  · exact ⟨by rw [hs.stateNonce, hn]; exact h.gapless, by
      rw [hs.stateNonce, hn, hq]; exact h.le⟩
  · refine ⟨?_, fun hempty => ?_⟩
    · rw [hs.stateNonce, hnonces]
      exact h.gapless.below
    · -- the first pending transaction was lost, and the pool nonce went down with it
      have hstart : ¬ v.stateNonce.toNat < n := by
        intro hlt
        have hmem : v.stateNonce.toNat ∈ v'.nonces := by
          rw [hnonces]
          exact ⟨h.gapless.start_mem hn, hlt⟩
        rw [hempty] at hmem
        exact hmem
      rw [UInt64.le_iff_toNat_le, hs.stateNonce, hq]
      omega

end AccountView

end Benzene
