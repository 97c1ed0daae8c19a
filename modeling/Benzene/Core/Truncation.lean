import Benzene.Core.PoolReorg

/-!
# Truncation of the pending lists

`truncatePending` (core/tx_pool.go:1255-1337) cuts the longest lists of the accounts that are not
local.  The accounts it works on are kept at one length, so that what it does is to lower a
common level: `truncatePending_spec` says that it cuts every offending list at one level, which is
at least `AccountSlots`, and that it stops at the first level at which the pool fits into
`GlobalSlots`, or at `AccountSlots`.

* `capLast_eq`: an account loses its last transaction.
* `capEach_spec`, `Levelled.capRounds`, `capOffenders_spec`: the loops, from the inside out.
* `Trims`: what is left of a list is a prefix of it.
-/

namespace Benzene.TxPool

open Books

variable {C : Crypto} {ord : RangeOrder} {pool pool' pool₁ pool₂ : TxPool} {a b : Address}
  {l : TxList}

/-! ## The last transaction -/

/-- The pending transactions of an account, by nonce. -/
def pendingTxs (pool : TxPool) (a : Address) : List Transaction :=
  (pool.pending.lookup a).elim [] TxList.flatten

theorem mem_pendingTxs {n : UInt64} {t : Transaction} :
    listAt pool.pending (a, n) = some t ↔ t ∈ pool.pendingTxs a ∧ t.accountNonce = n := by
  cases hl : pool.pending.lookup a with
  | none => simp [pendingTxs, listAt, hl]
  | some l =>
    simp only [pendingTxs, listAt, hl, Option.elim_some, TxList.mem_flatten, Option.bind_some]
    constructor
    · intro ht
      obtain rfl := TxList.nonce_of_get ht
      exact ⟨ht, rfl⟩
    · rintro ⟨ht, rfl⟩
      exact ht

theorem length_pendingTxs : (pool.pendingTxs a).length = (pool.pendingLen a).getD 0 := by
  cases hl : pool.pending.lookup a with
  | none => simp [pendingTxs, pendingLen, hl]
  | some l => simp [pendingTxs, pendingLen, hl, TxList.flatten_length]

theorem pendingTxs_lt (pool : TxPool) (a : Address) :
    (pool.pendingTxs a).Pairwise fun t t' => t.accountNonce < t'.accountNonce := by
  unfold pendingTxs
  cases pool.pending.lookup a with
  | none => exact List.Pairwise.nil
  | some l => exact l.txs.flatten_lt

/-- Pending lists lose their last transactions, and nothing else happens to the lists. -/
structure Trims (C : Crypto) (pool pool' : TxPool) : Prop where
  shortens : Shortens pool pool'
  history : History C [] pool.books pool'.books
  queue : pool'.queue = pool.queue
  beats : pool'.beats = pool.beats
  front : ∀ a, pool'.pendingTxs a <+: pool.pendingTxs a

theorem Trims.same (h : Trims C pool pool') : Same pool pool' := h.shortens.same

theorem Trims.refl (pool : TxPool) : Trims C pool pool where
  shortens := Shortens.refl pool
  history := .refl _
  queue := rfl
  beats := rfl
  front _ := List.prefix_refl _

theorem Trims.trans (h : Trims C pool pool₁) (h' : Trims C pool₁ pool₂) : Trims C pool pool₂ where
  shortens := h.shortens.trans h'.shortens
  history := h.history.trans h'.history
  queue := h'.queue.trans h.queue
  beats := h'.beats.trans h.beats
  front a := (h'.front a).trans (h.front a)

theorem Trims.sub (h : Trims C pool pool') {n : UInt64} {t : Transaction}
    (ht : listAt pool'.pending (a, n) = some t) : listAt pool.pending (a, n) = some t :=
  mem_pendingTxs.2 ((mem_pendingTxs.1 ht).imp_left fun ht => (h.front a).subset ht)

/-- What was cut off is above what is left. -/
theorem Trims.below (h : Trims C pool pool') {n n' : UInt64} {t t' : Transaction}
    (ht : listAt pool.pending (a, n) = some t) (hgone : listAt pool'.pending (a, n) ≠ some t)
    (ht' : listAt pool'.pending (a, n') = some t') : n' < n := by
  obtain ⟨rest, hrest⟩ := h.front a
  obtain ⟨hin, rfl⟩ := mem_pendingTxs.1 ht
  obtain ⟨hin', rfl⟩ := mem_pendingTxs.1 ht'
  have hlt := pool.pendingTxs_lt a
  rw [← hrest] at hin hlt
  have hout := (List.mem_append.1 hin).resolve_left fun hmem => hgone (mem_pendingTxs.2 ⟨hmem, rfl⟩)
  exact (List.pairwise_append.1 hlt).2.2 _ hin' _ hout

/-- The last transaction of an account leaves the pool. -/
def cutLast (C : Crypto) (ord : RangeOrder) (pool : TxPool) (a : Address) (l : TxList)
    (t : Transaction) : TxPool :=
  { (pool.setPending a (l.cap (l.len - 1)).1).forgetAll C [t] with
    pendingNonces := pool.pendingNonces.setIfLower a t.accountNonce
    priced := ((pool.setPending a (l.cap (l.len - 1)).1).forgetAll C [t]).pricedRemoved ord 1
      |>.priced }

theorem capLast_eq (ord : RangeOrder) (h : Sound C pool []) (hl : pool.pending.lookup a = some l)
    (hlen : l.len ≠ 0) :
    ∃ t, l.Drops (l.cap (l.len - 1)).1 [t] ∧
      (∀ {n t'}, (l.cap (l.len - 1)).1.get n = some t' → n < t.accountNonce) ∧
      pool.capLast C ord a = some (pool.cutLast C ord a l t) ∧
      Sound C (pool.cutLast C ord a l t) [] := by
  have hd := l.cap_drops (l.len - 1)
  have hkeep : (l.cap (l.len - 1)).1.len = min (l.len - 1) l.len := l.txs.cap_len _
  have hone : (l.cap (l.len - 1)).2.length = 1 := by
    have := hd.len_eq
    omega
  obtain ⟨t, ht⟩ := List.length_eq_one_iff.1 hone
  rw [ht] at hd
  have hset := h.setPending hl hd
  have hget : (pool.setPending a (l.cap (l.len - 1)).1).all.get (C.txHash t) = some t :=
    hset.shelved.index_of_held List.mem_cons_self
  refine ⟨t, hd, ?_, ?_, hset.forget.congr rfl rfl rfl⟩
  · intro n t' hn
    exact TxSortedMap.cap_lt hn (by rw [show (l.txs.cap (l.len - 1)).2 = _ from ht]; simp)
  · simp only [capLast, hl, Option.bind_eq_bind, Option.bind_some, hlen, if_false, ht, dropPending,
      allRemove_eq hget, List.length_singleton]
    rfl

variable {t : Transaction}

theorem cutLast_shortened (hl : pool.pending.lookup a = some l)
    (hd : l.Drops (l.cap (l.len - 1)).1 [t])
    (hlt : ∀ {n t'}, (l.cap (l.len - 1)).1.get n = some t' → n < t.accountNonce) :
    Shortened pool (pool.cutLast C ord a l t) := by
  refine Shortened.of_cut ⟨rfl, rfl, rfl⟩ hl (hd.get_of_mem List.mem_cons_self) ?_ rfl rfl
  intro k s
  constructor
  · exact fun hs => ⟨(hd.get_iff.1 hs).1, hlt hs⟩
  · rintro ⟨hs, hk⟩
    refine hd.get_iff.2 ⟨hs, fun hmem => ?_⟩
    rw [← TxList.nonce_of_get hs, List.mem_singleton.1 hmem] at hk
    exact UInt64.lt_irrefl _ hk

theorem pendingLen_of_lookup (h : pool.pending.lookup a = some l) :
    pool.pendingLen a = some l.len := by
  simp [pendingLen, h]

/-- The pool after one account has lost its last transaction. -/
theorem capLast_spec (ord : RangeOrder) (h : Good C pool) {n : ℕ}
    (hn : pool.pendingLen a = some n) (htwo : 2 ≤ n) :
    ∃ pool', pool.capLast C ord a = some pool' ∧ Good C pool' ∧ Trims C pool pool' ∧
      (∀ b, pool'.pendingLen b = if b = a then some (n - 1) else pool.pendingLen b) ∧
      pool'.pendingCount + 1 = pool.pendingCount := by
  obtain ⟨l, hl, hlen⟩ := Option.map_eq_some_iff.1 hn
  obtain ⟨t, hd, hlt, heq, hs⟩ := capLast_eq ord h.sound hl (by omega)
  have hkeep := hd.len_eq
  rw [List.length_singleton] at hkeep
  have hpending : (pool.cutLast C ord a l t).pending =
      pool.pending.insert a (l.cap (l.len - 1)).1 := rfl
  refine ⟨_, heq, ⟨hs, ?_⟩, ?_, ?_, ?_⟩
  · have htidy : Tidy (pool.setPending a (l.cap (l.len - 1)).1) none none :=
      h.tidy.setPending_of_ne (by omega)
    exact htidy.congr rfl rfl rfl
  · have hleaves : pool.books.all.Leaves C [t] := (h.sound.setPending hl hd).leaves
    refine ⟨(cutLast_shortened hl hd hlt).shortens, (Act.left ord hleaves).history, rfl, rfl,
      fun b => ?_⟩
    unfold pendingTxs
    rw [hpending, GoMap.lookup_insert_eq]
    split_ifs with hb
    · rw [hb, hl]
      change (l.txs.cap (l.len - 1)).1.flatten <+: l.txs.flatten
      rw [(l.txs.cap_spec _).1]
      exact List.take_prefix _ _
    · exact List.prefix_refl _
  · intro b
    rw [pendingLen, hpending, GoMap.lookup_insert_eq]
    split_ifs
    · rw [Option.map_some, ← hlen]
      congr 1
      omega
    · rfl
  · have hsum := ((GoMap.values_perm_of_lookup hl).map TxList.len).sum_eq
    rw [List.map_cons, List.sum_cons] at hsum
    rw [pendingCount, pendingCount, hpending, GoMap.values_insert, List.map_cons, List.sum_cons]
    omega

/-! ## The rounds -/

variable {offenders : List Address}

/-- Each of some accounts loses its last transaction. -/
theorem capEach_spec (ord : RangeOrder) (h : Good C pool) (hnd : offenders.Nodup) {n : ℕ}
    (hlevel : ∀ a ∈ offenders, pool.pendingLen a = some n) (htwo : 2 ≤ n) :
    ∃ pool', capEach C ord pool offenders = some pool' ∧ Good C pool' ∧ Trims C pool pool' ∧
      (∀ b, pool'.pendingLen b =
        if b ∈ offenders then some (n - 1) else pool.pendingLen b) ∧
      pool'.pendingCount + offenders.length = pool.pendingCount := by
  induction offenders generalizing pool with
  | nil => exact ⟨pool, rfl, h, Trims.refl pool, by simp, by simp⟩
  | cons a offenders ih =>
    obtain ⟨hnot, hnd⟩ := List.nodup_cons.1 hnd
    obtain ⟨pool₁, heq, hg, htrim, hlen, hcount⟩ :=
      capLast_spec ord h (hlevel a List.mem_cons_self) htwo
    have hlevel₁ : ∀ b ∈ offenders, pool₁.pendingLen b = some n := by
      intro b hb
      rw [hlen, if_neg fun hba : b = a => hnot (hba ▸ hb)]
      exact hlevel b (List.mem_cons_of_mem _ hb)
    obtain ⟨pool₂, heq₂, hg₂, htrim₂, hlen₂, hcount₂⟩ := ih hg hnd hlevel₁
    refine ⟨pool₂, ?_, hg₂, htrim.trans htrim₂, ?_, ?_⟩
    · simp only [capEach, heq, Option.bind_eq_bind, Option.bind_some, heq₂]
    · intro b
      rw [hlen₂, hlen]
      by_cases hb : b ∈ offenders
      · simp [hb]
      · by_cases hba : b = a <;> simp [hb, hba]
    · rw [List.length_cons]
      omega

/-! ## The level -/

/-- `pool` is `base` with the lists of some accounts cut at a level. -/
def CutAt (base : TxPool) (spammers : List Address) (level : ℕ) (pool : TxPool) : Prop :=
  ∀ b, pool.pendingLen b =
    (base.pendingLen b).map fun n => if b ∈ spammers then min n level else n

/-- The number of pending transactions when the lists of some accounts are cut at a level. -/
def cutTotal (base : TxPool) (spammers : List Address) (level : ℕ) : ℕ :=
  (base.pending.keys.map fun b =>
    (base.pendingLen b).elim 0 fun n => if b ∈ spammers then min n level else n).sum

theorem pendingCount_eq (pool : TxPool) :
    pool.pendingCount = (pool.pending.keys.map fun b => (pool.pendingLen b).getD 0).sum := by
  unfold pendingCount GoMap.values AList.keys List.keys
  rw [List.map_map, List.map_map]
  congr 1
  apply List.map_congr_left
  rintro ⟨b, l⟩ hmem
  simp [pendingLen, GoMap.lookup_eq_some_iff.2 hmem]

theorem mem_pending_keys : b ∈ pool.pending.keys ↔ ∃ n, pool.pendingLen b = some n := by
  rw [GoMap.mem_keys_iff]
  simp [pendingLen]

variable {spammers : List Address} {level : ℕ}

theorem CutAt.count {base : TxPool} (h : CutAt base spammers level pool) :
    pool.pendingCount = cutTotal base spammers level := by
  have hkeys : pool.pending.keys.Perm base.pending.keys := by
    rw [List.perm_ext_iff_of_nodup pool.pending.keys_nodup base.pending.keys_nodup]
    intro b
    rw [mem_pending_keys, mem_pending_keys, h b]
    simp [Option.map_eq_some_iff]
  rw [pendingCount_eq, cutTotal, (hkeys.map _).sum_eq]
  congr 1
  apply List.map_congr_left
  intro b _
  rw [h b]
  cases base.pendingLen b <;> rfl

theorem cutTotal_mono (base : TxPool) (spammers : List Address) {m n : ℕ} (h : m ≤ n) :
    cutTotal base spammers m ≤ cutTotal base spammers n := by
  unfold cutTotal
  apply List.sum_le_sum
  intro b _
  cases base.pendingLen b with
  | none => exact le_rfl
  | some k =>
    simp only [Option.elim_some]
    split_ifs
    · exact min_le_min le_rfl h
    · exact le_rfl

/-- `pool` is `base` with the lists of some accounts cut at a level, and the pool did not fit
    at any level above. -/
structure Cutoff (C : Crypto) (base : TxPool) (spammers : List Address) (level : ℕ)
    (pool : TxPool) : Prop where
  good : Good C pool
  trims : Trims C base pool
  cut : CutAt base spammers level pool
  above : ∀ x, level < x → base.config.globalSlots.toNat < cutTotal base spammers x

/-- The state of the loop over the spammers: the offenders are at the level, and the spammers to
    come are not above it. -/
structure Levelled (C : Crypto) (base : TxPool) (offenders spammers : List Address) (level : ℕ)
    (pool : TxPool) : Prop extends Cutoff C base (offenders ++ spammers) level pool where
  offenders_ge : ∀ b ∈ offenders, ∃ n, base.pendingLen b = some n ∧ level ≤ n
  spammers_le : ∀ b ∈ spammers, ∃ n, base.pendingLen b = some n ∧ n ≤ level

section Levelled

variable {base : TxPool} {offenders spammers : List Address} {level threshold : ℕ}

section

variable (h : Levelled C base offenders spammers level pool)

include h

theorem Levelled.pendingLen_offender (hb : b ∈ offenders) : pool.pendingLen b = some level := by
  obtain ⟨n, hn, hge⟩ := h.offenders_ge b hb
  rw [h.cut b, hn, Option.map_some, if_pos (List.mem_append_left _ hb), min_eq_right hge]

theorem Levelled.pendingLen_spammer (hb : b ∈ spammers) :
    pool.pendingLen b = base.pendingLen b := by
  obtain ⟨n, hn, hle⟩ := h.spammers_le b hb
  rw [h.cut b, hn, Option.map_some, if_pos (List.mem_append_right _ hb), min_eq_left hle]

/-- The offenders at a lower level that is not below the spammers to come. -/
theorem Levelled.cutAt_lower {x : ℕ}
    (hx : x ≤ level) (hspammers : ∀ b ∈ spammers, ∀ n, base.pendingLen b = some n → n ≤ x)
    (hlen : ∀ b, pool'.pendingLen b =
      if b ∈ offenders then some x else pool.pendingLen b) :
    CutAt base (offenders ++ spammers) x pool' := by
  intro b
  rw [hlen b]
  by_cases hb : b ∈ offenders
  · obtain ⟨n, hn, hge⟩ := h.offenders_ge b hb
    rw [if_pos hb, hn, Option.map_some, if_pos (List.mem_append_left _ hb),
      min_eq_right (hx.trans hge)]
  · rw [if_neg hb]
    by_cases hb' : b ∈ spammers
    · obtain ⟨n, hn, -⟩ := h.spammers_le b hb'
      rw [h.pendingLen_spammer hb', hn, Option.map_some, if_pos (List.mem_append_right _ hb'),
        min_eq_left (hspammers b hb' n hn)]
    · have hnot : b ∉ offenders ++ spammers := by simp [hb, hb']
      rw [h.cut b]
      simp only [hnot, if_false]

end

variable {last : Address}

/-- One round: the pool did not fit at the level, and the offenders are below it. -/
theorem Levelled.lower (h : Levelled C base offenders spammers level pool)
    (hfull : base.config.globalSlots.toNat < pool.pendingCount)
    (hspammers : ∀ b ∈ spammers, ∀ n, base.pendingLen b = some n → n < level)
    (hg : Good C pool') (htrim : Trims C pool pool')
    (hlen : ∀ b, pool'.pendingLen b =
      if b ∈ offenders then some (level - 1) else pool.pendingLen b) :
    Levelled C base offenders spammers (level - 1) pool' := by
  have hle : ∀ b ∈ spammers, ∀ n, base.pendingLen b = some n → n ≤ level - 1 :=
    fun b hb n hn => Nat.le_sub_one_of_lt (hspammers b hb n hn)
  refine ⟨⟨hg, h.trims.trans htrim, h.cutAt_lower (Nat.sub_le _ _) hle hlen, fun x hx => ?_⟩,
    fun b hb => ?_, fun b hb => ?_⟩
  · by_cases hxl : level < x
    · exact h.above x hxl
    · obtain rfl : x = level := by omega
      rw [← h.cut.count]
      exact hfull
  · obtain ⟨n, hn, hge⟩ := h.offenders_ge b hb
    exact ⟨n, hn, by omega⟩
  · obtain ⟨n, hn, -⟩ := h.spammers_le b hb
    exact ⟨n, hn, hle b hb n hn⟩

/-- The rounds lower the level until the pool fits, or to `threshold`. -/
theorem Levelled.capRounds (ord : RangeOrder) (h : Levelled C base offenders spammers level pool)
    (hnd : offenders.Nodup) (hlast : last ∈ offenders) (hone : 1 ≤ threshold)
    (hle : threshold ≤ level)
    (hspammers : ∀ b ∈ spammers, ∀ n, base.pendingLen b = some n → n ≤ threshold) {fuel : ℕ}
    (hfuel : pool.pendingCount ≤ fuel) :
    ∃ pool' m, TxPool.capRounds C ord offenders last threshold fuel pool pool.pendingCount =
        some (pool', pool'.pendingCount) ∧
      Levelled C base offenders spammers m pool' ∧ threshold ≤ m ∧
      (pool'.pendingCount ≤ base.config.globalSlots.toNat ∨ m = threshold) := by
  induction fuel generalizing pool level with
  | zero => exact ⟨pool, level, rfl, h, hle, Or.inl (by omega)⟩
  | succ fuel ih =>
    simp only [TxPool.capRounds, h.trims.same.config]
    by_cases hfit : base.config.globalSlots.toNat < pool.pendingCount
    · simp only [hfit, if_true, h.pendingLen_offender hlast, Option.bind_eq_bind, Option.bind_some]
      by_cases hlt : threshold < level
      · obtain ⟨pool₁, heq, hg, htrim, hlen, hcount⟩ :=
          capEach_spec ord h.good hnd (fun b hb => h.pendingLen_offender hb) (by omega)
        have hpos := List.length_pos_of_mem hlast
        have hlower := h.lower hfit
          (fun b hb n hn => (hspammers b hb n hn).trans_lt hlt) hg htrim hlen
        simp only [hlt, if_true, heq, Option.bind_some,
          show pool.pendingCount - offenders.length = pool₁.pendingCount by omega]
        exact ih hlower (by omega) (by omega)
      · simp only [hlt, if_false]
        exact ⟨pool, level, rfl, h, hle, Or.inr (by omega)⟩
    · simp only [hfit, if_false]
      exact ⟨pool, level, rfl, h, hle, Or.inl (by omega)⟩

theorem capOffenders_of_fits {pending : ℕ}
    (h : pending ≤ pool.config.globalSlots.toNat) :
    capOffenders C ord spammers offenders pool pending = some (pool, pending, offenders) := by
  cases spammers with
  | nil => rfl
  | cons b spammers => simp only [capOffenders, Nat.not_lt.2 h, if_false]

theorem capRounds_of_fits {pending fuel : ℕ} (h : pending ≤ pool.config.globalSlots.toNat) :
    TxPool.capRounds C ord offenders last threshold fuel pool pending = some (pool, pending) := by
  cases fuel with
  | zero => rfl
  | succ fuel => simp only [TxPool.capRounds, Nat.not_lt.2 h, if_false]

/-- The loop over the spammers, from the longest list on. -/
theorem capOffenders_spec (ord : RangeOrder) (h : Levelled C base offenders spammers level pool)
    (hnd : (offenders ++ spammers).Nodup) (hne : offenders ≠ [])
    (hsorted : spammers.Pairwise fun a b =>
      (base.pendingLen b).getD 0 ≤ (base.pendingLen a).getD 0)
    (hslots : ∀ b ∈ spammers, ∀ n, base.pendingLen b = some n → threshold < n)
    (hlevel : threshold ≤ level) :
    ∃ pool' m offenders', capOffenders C ord spammers offenders pool pool.pendingCount =
        some (pool', pool'.pendingCount, offenders') ∧ offenders' ≠ [] ∧ threshold ≤ m ∧
      Cutoff C base (offenders ++ spammers) m pool' ∧
      (pool'.pendingCount ≤ base.config.globalSlots.toNat ∨
        (offenders' = offenders ++ spammers ∧
          Levelled C base (offenders ++ spammers) [] m pool')) := by
  induction spammers generalizing offenders level pool with
  | nil =>
    refine ⟨pool, level, offenders, rfl, hne, hlevel, h.toCutoff, Or.inr ⟨by simp, ?_⟩⟩
    simpa using h
  | cons o spammers ih =>
    by_cases hfit : pool.pendingCount ≤ pool.config.globalSlots.toNat
    · refine ⟨pool, level, offenders, capOffenders_of_fits hfit, hne, hlevel, h.toCutoff,
        Or.inl ?_⟩
      rwa [← h.trims.same.config]
    · obtain ⟨n, hn, hnl⟩ := h.spammers_le o List.mem_cons_self
      obtain ⟨last, hlast⟩ := Option.ne_none_iff_exists'.1
        (fun hnone => hne (List.getLast?_eq_none_iff.1 hnone))
      have hthr := hslots o List.mem_cons_self n hn
      rw [List.pairwise_cons] at hsorted
      have hle : ∀ b ∈ o :: spammers, ∀ k, base.pendingLen b = some k → k ≤ n := by
        intro b hb k hk
        rcases List.mem_cons.1 hb with rfl | hb
        · rw [hn] at hk
          exact (Option.some.inj hk).ge
        · simpa [hn, hk] using hsorted.1 b hb
      obtain ⟨pool₁, m, heq, hlev, hm, hstop⟩ := h.capRounds ord (List.nodup_append.1 hnd).1
        (List.mem_of_mem_getLast? hlast) (by omega) hnl hle le_rfl
      have hlen : pool.pendingLen o = some n := by
        rw [h.pendingLen_spammer List.mem_cons_self, hn]
      have hassoc : offenders ++ o :: spammers = offenders ++ [o] ++ spammers := by simp
      simp only [capOffenders, Nat.not_le.1 hfit, if_true, hlast, hlen, Option.bind_eq_bind,
        Option.bind_some, heq]
      by_cases hfit₁ : pool₁.pendingCount ≤ base.config.globalSlots.toNat
      · rw [capOffenders_of_fits (by rwa [hlev.trims.same.config])]
        exact ⟨pool₁, m, _, rfl, by simp, by omega, hlev.toCutoff, Or.inl hfit₁⟩
      · -- the offenders have come down to the new one
        obtain rfl : m = n := hstop.resolve_left hfit₁
        rw [hassoc] at hnd ⊢
        refine ih ⟨hassoc ▸ hlev.toCutoff, ?_, ?_⟩ hnd (by simp) hsorted.2
          (fun b hb => hslots b (List.mem_cons_of_mem _ hb)) hthr.le
        · intro b hb
          rcases List.mem_append.1 hb with hb | hb
          · exact hlev.offenders_ge b hb
          · rw [List.mem_singleton.1 hb]
            exact ⟨_, hn, le_rfl⟩
        · exact fun b hb => hlev.spammers_le b (List.mem_cons_of_mem _ hb)

end Levelled

/-! ## The whole truncation -/

theorem spammers_perm (pool : TxPool) (ord : RangeOrder) : (pool.spammers ord).Perm
    ((ord.order pool.pending.keys).filter fun addr =>
      !AccountSet.contains pool.locals addr &&
        decide (pool.config.accountSlots.toNat < (pool.pendingLen addr).getD 0)) :=
  List.perm_insertionSort _ _

theorem mem_spammers : b ∈ pool.spammers ord ↔ AccountSet.contains pool.locals b = false ∧
    ∃ n, pool.pendingLen b = some n ∧ pool.config.accountSlots.toNat < n := by
  rw [(pool.spammers_perm ord).mem_iff]
  simp only [List.mem_filter, RangeOrder.mem_order, mem_pending_keys, Bool.and_eq_true,
    Bool.not_eq_true', decide_eq_true_eq]
  constructor
  · rintro ⟨⟨n, hn⟩, hlocal, hlt⟩
    exact ⟨hlocal, n, hn, by simpa [hn] using hlt⟩
  · rintro ⟨hlocal, n, hn, hlt⟩
    exact ⟨⟨n, hn⟩, hlocal, by simpa [hn] using hlt⟩

theorem spammers_nodup (pool : TxPool) (ord : RangeOrder) : (pool.spammers ord).Nodup := by
  rw [(pool.spammers_perm ord).nodup_iff]
  exact ((ord.perm _).nodup_iff.2 pool.pending.keys_nodup).filter _

theorem spammers_sorted (pool : TxPool) (ord : RangeOrder) : (pool.spammers ord).Pairwise fun a b =>
    (pool.pendingLen b).getD 0 ≤ (pool.pendingLen a).getD 0 := by
  have : Std.Total fun a b : Address =>
      (pool.pendingLen b).getD 0 ≤ (pool.pendingLen a).getD 0 := ⟨fun a b => le_total _ _⟩
  have : IsTrans Address fun a b =>
      (pool.pendingLen b).getD 0 ≤ (pool.pendingLen a).getD 0 :=
    ⟨fun a b c hab hbc => hbc.trans hab⟩
  exact List.pairwise_insertionSort _ _

theorem truncatePending_of_fits (h : pool.pendingCount ≤ pool.config.globalSlots.toNat) :
    pool.truncatePending C ord = some pool := by
  simp only [truncatePending, h, if_true]

/-- Lists cut at a level that none of them reaches. -/
theorem cutAt_self (h : ∀ b ∈ spammers, ∀ n, pool.pendingLen b = some n → n ≤ level) :
    CutAt pool spammers level pool := by
  intro b
  cases hn : pool.pendingLen b with
  | none => rfl
  | some n =>
    rw [Option.map_some]
    split_ifs with hb
    · rw [min_eq_left (h b hb n hn)]
    · rfl

/-- **The truncation of the pending lists**: a pool that does not fit is cut at the first level
    at which it does, or at `AccountSlots`. -/
theorem truncatePending_spec (ord : RangeOrder) (h : Good C pool)
    (hslots : 1 ≤ pool.config.accountSlots.toNat)
    (hfull : pool.config.globalSlots.toNat < pool.pendingCount) :
    ∃ pool' level, pool.truncatePending C ord = some pool' ∧
      Cutoff C pool (pool.spammers ord) level pool' ∧ pool.config.accountSlots.toNat ≤ level ∧
      (pool'.pendingCount ≤ pool.config.globalSlots.toNat ∨
        level = pool.config.accountSlots.toNat) := by
  have hself : ∀ level, (∀ b ∈ pool.spammers ord, ∀ n, pool.pendingLen b = some n → n ≤ level) →
      Cutoff C pool (pool.spammers ord) level pool := by
    intro level hle
    refine ⟨h, Trims.refl pool, cutAt_self hle, fun x hx => ?_⟩
    rw [← (cutAt_self fun b hb n hn => (hle b hb n hn).trans hx.le).count]
    exact hfull
  simp only [truncatePending, Nat.not_le.2 hfull, if_false]
  have hnd := pool.spammers_nodup ord
  have hsorted := pool.spammers_sorted ord
  have hmem : ∀ b ∈ pool.spammers ord, ∃ n, pool.pendingLen b = some n ∧
      pool.config.accountSlots.toNat < n := fun b hb => (mem_spammers.1 hb).2
  cases hsp : pool.spammers ord with
  | nil =>
    refine ⟨pool, pool.config.accountSlots.toNat, rfl, ?_, le_rfl, Or.inr rfl⟩
    rw [← hsp]
    exact hself _ (by simp [hsp])
  | cons o spammers =>
    rw [hsp] at hnd hsorted hmem
    obtain ⟨n, hn, hlt⟩ := hmem o List.mem_cons_self
    rw [List.pairwise_cons] at hsorted
    have hle : ∀ b ∈ o :: spammers, ∀ k, pool.pendingLen b = some k → k ≤ n := by
      intro b hb k hk
      rcases List.mem_cons.1 hb with rfl | hb
      · rw [hn] at hk
        exact (Option.some.inj hk).ge
      · simpa [hn, hk] using hsorted.1 b hb
    have hlev : Levelled C pool [o] spammers n pool := by
      refine ⟨by simpa [hsp] using hself n (by rw [hsp]; exact hle), ?_, ?_⟩
      · intro b hb
        rw [List.mem_singleton.1 hb]
        exact ⟨n, hn, le_rfl⟩
      · intro b hb
        obtain ⟨k, hk, -⟩ := hmem b (List.mem_cons_of_mem _ hb)
        exact ⟨k, hk, hle b (List.mem_cons_of_mem _ hb) k hk⟩
    obtain ⟨pool₁, m, offs, heq, hne, hm, hcut, hend⟩ := capOffenders_spec ord hlev hnd
      (by simp) hsorted.2 (fun b hb k hk => by
        obtain ⟨k', hk', hlt'⟩ := hmem b (List.mem_cons_of_mem _ hb)
        rw [hk] at hk'
        rwa [Option.some.inj hk']) hlt.le
    obtain ⟨last, hlast⟩ := Option.ne_none_iff_exists'.1
      (fun hnone => hne (List.getLast?_eq_none_iff.1 hnone))
    have hfirst : capOffenders C ord (o :: spammers) [] pool pool.pendingCount =
        capOffenders C ord spammers [o] pool pool.pendingCount := by
      simp only [capOffenders, hfull, if_true, List.getLast?_nil]
    simp only [hfirst, heq, Option.bind_eq_bind, Option.bind_some, hlast]
    rcases hend with hfit | ⟨rfl, hlev₁⟩
    · rw [capRounds_of_fits (by rwa [hcut.trims.same.config]), Option.bind_some]
      exact ⟨pool₁, m, rfl, hcut, hm, Or.inl hfit⟩
    · obtain ⟨pool₂, m₂, heq₂, hlev₂, hm₂, hstop⟩ := hlev₁.capRounds ord hnd
        (List.mem_of_mem_getLast? hlast) hslots hm (by simp) le_rfl
      rw [heq₂, Option.bind_some]
      refine ⟨pool₂, m₂, rfl, ?_, hm₂, hstop⟩
      simpa using hlev₂.toCutoff

/-! ## What survives -/

/-- The number of pending transactions of an account below a nonce. -/
noncomputable def rank (pool : TxPool) (a : Address) (n : UInt64) : ℕ :=
  (below (pool.view a).nonces n.toNat).ncard

/-- The length of a list when the lists of the accounts that are not local are cut at a level. -/
def cutLen (pool : TxPool) (level : ℕ) (b : Address) : ℕ :=
  (pool.pendingLen b).elim 0 fun n => if AccountSet.contains pool.locals b then n else min n level

/-- The number of pending transactions of the other accounts, so cut. -/
def othersCut (pool : TxPool) (a : Address) (level : ℕ) : ℕ :=
  ((pool.pending.keys.erase a).map (pool.cutLen level)).sum

/-- Only offending lists are longer than `AccountSlots`. -/
theorem cutTotal_eq_cutLen (ord : RangeOrder) (h : pool.config.accountSlots.toNat ≤ level) :
    cutTotal pool (pool.spammers ord) level =
      (pool.pending.keys.map (pool.cutLen level)).sum := by
  unfold cutTotal
  congr 1
  apply List.map_congr_left
  intro b _
  unfold cutLen
  cases hn : pool.pendingLen b with
  | none => rfl
  | some n =>
    simp only [Option.elim_some, mem_spammers, hn, Option.some.injEq, exists_eq_left']
    by_cases hloc : AccountSet.contains pool.locals b
    · simp [hloc]
    · by_cases hlt : pool.config.accountSlots.toNat < n
      · simp [hloc, hlt]
      · simp only [hloc, hlt, and_false, if_false]
        simp only [Bool.false_eq_true, if_false]
        omega

theorem cutTotal_eq_othersCut (ord : RangeOrder) {level n : ℕ}
    (h : pool.config.accountSlots.toNat ≤ level)
    (hn : pool.pendingLen a = some n) (hloc : AccountSet.contains pool.locals a = false)
    (hle : level ≤ n) :
    cutTotal pool (pool.spammers ord) level = pool.othersCut a level + level := by
  have hperm := List.perm_cons_erase (mem_pending_keys.2 ⟨n, hn⟩)
  rw [cutTotal_eq_cutLen ord h, (hperm.map _).sum_eq, List.map_cons, List.sum_cons, othersCut]
  simp only [cutLen, hn, Option.elim_some, hloc, Bool.false_eq_true, if_false]
  omega

variable {n : UInt64}

theorem rank_lt_len (hl : pool.pending.lookup a = some l)
    (ht : listAt pool.pending (a, n) = some t) : pool.rank a n < l.len := by
  rw [← AccountView.ncard_nonces (v := pool.view a) fun n => listAt_of_lookup hl n]
  refine Set.ncard_lt_ncard ⟨fun k hk => hk.1, fun hsub => ?_⟩ (AccountView.finite_nonces _)
  exact absurd (hsub (AccountView.mem_nonces.2 ⟨t, ht⟩)).2 (lt_irrefl _)

/-- A transaction survives a cut of its list if fewer are below it than the list keeps. -/
theorem Trims.mem_iff (h : Trims C pool pool') {m : ℕ} (ht : listAt pool.pending (a, n) = some t)
    (hm : pool'.pendingLen a = some m) :
    listAt pool'.pending (a, n) = some t ↔ pool.rank a n < m := by
  obtain ⟨l, hl, rfl⟩ := Option.map_eq_some_iff.1 hm
  have hcard := AccountView.ncard_nonces (v := pool'.view a) fun n => listAt_of_lookup hl n
  have hfin := AccountView.finite_nonces (pool'.view a)
  rw [← hcard]
  constructor
  · intro ht'
    refine Set.ncard_lt_ncard ⟨?_, fun hsub => ?_⟩ hfin
    · rintro k ⟨⟨n', s, hs, rfl⟩, hlt⟩
      refine AccountView.mem_nonces.2 ?_
      by_contra hnone
      have hgt := UInt64.lt_iff_toNat_lt.1 (h.below hs (fun hs' => hnone ⟨s, hs'⟩) ht')
      omega
    · exact absurd (hsub (AccountView.mem_nonces.2 ⟨t, ht'⟩)).2 (lt_irrefl _)
  · intro hlt
    by_contra hne
    refine absurd hlt (not_lt.2 (Set.ncard_le_ncard ?_ ((AccountView.finite_nonces _).subset
      fun k hk => hk.1)))
    rintro k ⟨n', s, hs, rfl⟩
    exact ⟨⟨n', s, h.sub hs, rfl⟩, UInt64.lt_iff_toNat_lt.1 (h.below ht hne hs)⟩

/-- **Which transactions survive the truncation**: those of local accounts, the first
    `AccountSlots` of an account, and those at a level at which the pool fits. -/
theorem truncatePending_survives_iff (ord : RangeOrder) (h : Good C pool)
    (hslots : 1 ≤ pool.config.accountSlots.toNat) (ht : listAt pool.pending (a, n) = some t) :
    ∃ pool', pool.truncatePending C ord = some pool' ∧ Good C pool' ∧ Trims C pool pool' ∧
      (listAt pool'.pending (a, n) = some t ↔ AccountSet.contains pool.locals a = true ∨
        pool.rank a n < pool.config.accountSlots.toNat ∨
        pool.othersCut a (pool.rank a n + 1) + (pool.rank a n + 1) ≤
          pool.config.globalSlots.toNat) := by
  obtain ⟨l, hl, -⟩ := listAt_eq_some.1 ht
  have hlen : pool.pendingLen a = some l.len := pendingLen_of_lookup hl
  have hrank : pool.rank a n < l.len := rank_lt_len hl ht
  by_cases hfit : pool.pendingCount ≤ pool.config.globalSlots.toNat
  · -- nothing is cut, and the pool fits at every level
    refine ⟨pool, truncatePending_of_fits hfit, h, Trims.refl pool, iff_of_true ht ?_⟩
    by_cases hloc : AccountSet.contains pool.locals a = true
    · exact Or.inl hloc
    · by_cases hlow : pool.rank a n < pool.config.accountSlots.toNat
      · exact Or.inr (Or.inl hlow)
      · refine Or.inr (Or.inr (le_trans ?_ hfit))
        rw [← cutTotal_eq_othersCut ord (by omega) hlen (by simpa using hloc) (by omega)]
        rw [pendingCount_eq, cutTotal]
        apply List.sum_le_sum
        intro b _
        cases hb : pool.pendingLen b with
        | none => exact le_rfl
        | some k =>
          simp only [Option.elim_some, Option.getD_some]
          split_ifs
          · exact min_le_left _ _
          · exact le_rfl
  · obtain ⟨pool', level, heq, hcut, hlevel, hstop⟩ :=
      truncatePending_spec ord h hslots (not_le.1 hfit)
    refine ⟨pool', heq, hcut.good, hcut.trims, ?_⟩
    have hm := hcut.cut a
    rw [hlen, Option.map_some] at hm
    rw [hcut.trims.mem_iff ht hm]
    by_cases hsp : a ∈ pool.spammers ord
    · have hloc : AccountSet.contains pool.locals a = false := (mem_spammers.1 hsp).1
      rw [if_pos hsp, lt_min_iff]
      have htotal : pool.config.accountSlots.toNat ≤ pool.rank a n →
          cutTotal pool (pool.spammers ord) (pool.rank a n + 1) =
            pool.othersCut a (pool.rank a n + 1) + (pool.rank a n + 1) := fun hge =>
        cutTotal_eq_othersCut ord (by omega) hlen hloc (by omega)
      constructor
      · rintro ⟨-, hlt⟩
        by_cases hlow : pool.rank a n < pool.config.accountSlots.toNat
        · exact Or.inr (Or.inl hlow)
        · refine Or.inr (Or.inr ?_)
          rw [← htotal (by omega)]
          have hcount := hstop.resolve_right (by omega)
          rw [hcut.cut.count] at hcount
          exact (cutTotal_mono pool _ hlt).trans hcount
      · rintro (hloc' | hlow | hfits)
        · simp [hloc] at hloc'
        · exact ⟨hrank, by omega⟩
        · refine ⟨hrank, ?_⟩
          by_cases hlow : pool.rank a n < pool.config.accountSlots.toNat
          · omega
          · rw [← htotal (by omega)] at hfits
            by_contra hge
            have habove := hcut.above (pool.rank a n + 1) (by omega)
            omega
    · rw [if_neg hsp]
      refine iff_of_true hrank ?_
      by_cases hloc : AccountSet.contains pool.locals a = true
      · exact Or.inl hloc
      · refine Or.inr (Or.inl ?_)
        by_contra hge
        exact hsp (mem_spammers.2 ⟨by simpa using hloc, l.len, hlen, by omega⟩)

end Benzene.TxPool
