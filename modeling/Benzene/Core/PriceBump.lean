import Benzene.Core.TxPool

/-!
# The price of a replacement

`Add` (core/tx_list.go:279-304) lets a transaction replace another one of the same nonce for a
higher price, by at least the configured percentage.  The percentage is an `uint64` and is
converted to an `int64` before 100 is added, so for large settings the factor is negative or
small.

* `paysBump_iff`: for which settings every replacement pays; then the prices at one nonce grow by
  the factor with every replacement, up to the rounding of each one.
-/

namespace Benzene

/-- The new price is higher, and at least `old * (100 + bump) / 100`, rounded down. -/
structure PaysBump (bump : UInt64) (old tx : Transaction) : Prop where
  higher : old.price < tx.price
  bumped : old.price * (100 + bump.toNat) / 100 ≤ tx.price

/-- The factor of a replacement. -/
def bumpFactor (bump : UInt64) : ℚ := (100 + bump.toNat) / 100

theorem bumpFactor_pos (bump : UInt64) : 0 < bumpFactor bump := by
  unfold bumpFactor
  positivity

/-- One replacement loses less than a unit. -/
theorem PaysBump.factor_le {bump : UInt64} {old tx : Transaction} (h : PaysBump bump old tx) :
    (old.price : ℚ) * bumpFactor bump ≤ tx.price + 1 := by
  have hfloor : old.price * (100 + bump.toNat) < (tx.price + 1) * 100 := by
    have hle := h.bumped
    omega
  have hcast : (old.price : ℚ) * (100 + bump.toNat) < (tx.price + 1) * 100 := by
    exact_mod_cast hfloor
  unfold bumpFactor
  linarith

namespace Concrete

/-- A transaction of a price. -/
def priced (price : ℤ) : Transaction := { transfer 0 0 0 with price := price }

end Concrete

namespace TxList

variable {l : TxList} {tx old : Transaction} {txs : List Transaction} {bump n : UInt64}

/-- `Add` of the transactions of a list, and the number of those that replace another one at the
    nonce `n`. -/
def addAll (n bump : UInt64) : TxList → List Transaction → TxList × ℕ
  | l, [] => (l, 0)
  | l, tx :: txs =>
    let r := l.add tx bump
    let s := addAll n bump r.1 txs
    (s.1, s.2 + if tx.accountNonce = n ∧ r.2.2.isSome then 1 else 0)

/-- The factor of the source, when the sum fits. -/
theorem goInt_bump (h : 100 + bump.toNat < 2 ^ 63) : goInt (100 + bump) = 100 + bump.toNat := by
  have hsum : (100 + bump).toNat = 100 + bump.toNat := by
    rw [UInt64.toNat_add, show (100 : UInt64).toNat = 100 from rfl]
    omega
  rw [goInt_eq, hsum, if_pos (by omega)]
  push_cast
  rfl

/-- The factor of the source, when the sum does not fit, is at most 99. -/
theorem goInt_bump_le (h : 2 ^ 63 ≤ 100 + bump.toNat) : goInt (100 + bump) ≤ 99 := by
  have hlt := bump.toNat_lt
  rw [goInt_eq, UInt64.toNat_add, show (100 : UInt64).toNat = 100 from rfl]
  split_ifs with hpos
  · omega
  · omega

theorem keepsOld_eq_false_iff : keepsOld old tx bump = false ↔
    old.price < tx.price ∧ bumpedPrice old bump ≤ tx.price := by
  simp [keepsOld]

theorem bumpedPrice_eq (h : 100 + bump.toNat < 2 ^ 63) :
    bumpedPrice old bump = old.price * (100 + bump.toNat) / 100 := by
  rw [bumpedPrice, goInt_bump h, mul_comm]

/-- A transaction that enters at a taken nonce replaces the old one. -/
theorem add_accepts_iff (hold : l.get tx.accountNonce = some old) :
    (l.add tx bump).2.1 = true ↔ keepsOld old tx bump = false := by
  rw [add_of_some hold]
  cases keepsOld old tx bump with
  | true | false => simp

/-- A replacement pays when the factor fits. -/
theorem paysBump_of_fits (h : 100 + bump.toNat < 2 ^ 63) (hkeep : keepsOld old tx bump = false) :
    PaysBump bump old tx := by
  obtain ⟨hhigher, hbump⟩ := keepsOld_eq_false_iff.1 hkeep
  exact ⟨hhigher, bumpedPrice_eq h ▸ hbump⟩

/-- When it does not, 101 replaces 100. -/
theorem not_paysBump (h : 2 ^ 63 ≤ 100 + bump.toNat) :
    keepsOld (Concrete.priced 100) (Concrete.priced 101) bump = false ∧
      ¬ PaysBump bump (Concrete.priced 100) (Concrete.priced 101) := by
  constructor
  · have hfactor := goInt_bump_le h
    rw [keepsOld_eq_false_iff]
    show (100 : ℤ) < 101 ∧ goInt (100 + bump) * 100 / 100 ≤ 101
    omega
  · intro hpays
    have hbump : (100 : ℤ) * (100 + bump.toNat) / 100 ≤ 101 := hpays.bumped
    omega

/-- What one `Add` does at a taken nonce: the old transaction stays, or one that pays takes its
    place. -/
theorem add_cases (tx : Transaction) (h : 100 + bump.toNat < 2 ^ 63) (hold : l.get n = some old) :
    (l.add tx bump).1.get n = some old ∧
        ¬ (tx.accountNonce = n ∧ (l.add tx bump).2.2.isSome = true) ∨
      tx.accountNonce = n ∧ (l.add tx bump).2.2.isSome = true ∧
        (l.add tx bump).1.get n = some tx ∧ PaysBump bump old tx := by
  by_cases hn : tx.accountNonce = n
  · subst hn
    rw [add_of_some hold]
    cases hkeep : keepsOld old tx bump with
    | true =>
      left
      simp [hold]
    | false =>
      right
      simp [get_put, paysBump_of_fits h hkeep]
  · left
    refine ⟨?_, fun hboth => hn hboth.1⟩
    cases hget : l.get tx.accountNonce with
    | none => rw [add_of_none hget, get_put, if_neg (Ne.symm hn), hold]
    | some other =>
      rw [add_of_some hget]
      split_ifs
      · exact hold
      · rw [get_put, if_neg (Ne.symm hn), hold]

/-- The prices at one nonce grow by the factor, up to a unit for each replacement, which later
    ones multiply. -/
theorem addAll_price (h : 100 + bump.toNat < 2 ^ 63) (hold : l.get n = some old) :
    ∃ new, (addAll n bump l txs).1.get n = some new ∧
      (old.price : ℚ) * bumpFactor bump ^ (addAll n bump l txs).2 ≤
        new.price + ∑ i ∈ Finset.range (addAll n bump l txs).2, bumpFactor bump ^ i := by
  induction txs generalizing l old with
  | nil => exact ⟨old, hold, by simp [addAll]⟩
  | cons tx txs ih =>
    simp only [addAll]
    rcases add_cases tx h hold with ⟨hget, hkept⟩ | ⟨hn, hsome, hget, hpays⟩
    · obtain ⟨new, hnew, hprice⟩ := ih hget
      refine ⟨new, hnew, ?_⟩
      rw [if_neg hkept, add_zero]
      exact hprice
    · obtain ⟨new, hnew, hprice⟩ := ih hget
      refine ⟨new, hnew, ?_⟩
      rw [if_pos ⟨hn, hsome⟩]
      generalize (addAll n bump (l.add tx bump).1 txs).2 = k at hprice ⊢
      -- the first replacement loses a unit, and all `k` later ones multiply it
      have hstep := mul_le_mul_of_nonneg_right hpays.factor_le
        (pow_pos (bumpFactor_pos bump) k).le
      rw [Finset.sum_range_succ, pow_succ]
      linarith

/-- **The price of a replacement.**  For a price bump that `sanitize` lets through, every
    replacement pays exactly if the bump and 100 fit an `int64`.  Then any transactions that are
    added, with `k` replacements at a nonce, leave there a price of at least the old one times the
    `k`th power of the factor, up to the rounding of each replacement. -/
theorem paysBump_iff (conf : TxPoolConfig) :
    ((∀ (l : TxList) (tx old : Transaction), l.get tx.accountNonce = some old →
        (l.add tx conf.sanitize.priceBump).2.1 = true →
          PaysBump conf.sanitize.priceBump old tx) ↔
      100 + conf.sanitize.priceBump.toNat < 2 ^ 63) ∧
    (100 + conf.sanitize.priceBump.toNat < 2 ^ 63 →
      ∀ (l : TxList) (txs : List Transaction) (n : UInt64) (old : Transaction),
        l.get n = some old → ∃ new, (addAll n conf.sanitize.priceBump l txs).1.get n = some new ∧
          (old.price : ℚ) * bumpFactor conf.sanitize.priceBump ^
              (addAll n conf.sanitize.priceBump l txs).2 ≤
            new.price + ∑ i ∈ Finset.range (addAll n conf.sanitize.priceBump l txs).2,
              bumpFactor conf.sanitize.priceBump ^ i) := by
  generalize conf.sanitize.priceBump = bump
  refine ⟨⟨fun hall => ?_, fun hfits l tx old hold hadd => ?_⟩, fun hfits l txs n old hold =>
    addAll_price hfits hold⟩
  · by_contra hlarge
    obtain ⟨hkeep, hnot⟩ := not_paysBump (not_lt.1 hlarge)
    have hold : ((TxList.new false).put (Concrete.priced 100)).get
        (Concrete.priced 101).accountNonce = some (Concrete.priced 100) := by
      rw [get_put]
      rfl
    exact hnot (hall _ _ _ hold ((add_accepts_iff hold).2 hkeep))
  · exact paysBump_of_fits hfits ((add_accepts_iff hold).1 hadd)

end TxList

namespace Concrete

/-- The smallest bump that is negative as an `int64`. -/
def hugeBump : TxPoolConfig := { defaultTxPoolConfig with priceBump := 0x8000000000000000 }

/-- The factor is negative, and any higher price replaces. -/
theorem replaced_without_bump :
    hugeBump.sanitize.priceBump = 0x8000000000000000 ∧
      TxList.bumpedPrice (priced 100) hugeBump.sanitize.priceBump = -9223372036854775708 ∧
      (((TxList.new false).put (priced 100)).add (priced 101) hugeBump.sanitize.priceBump).2 =
        (true, some (priced 100)) ∧
      ¬ PaysBump hugeBump.sanitize.priceBump (priced 100) (priced 101) := by
  have hlarge : 2 ^ 63 ≤ 100 + hugeBump.sanitize.priceBump.toNat := by decide
  exact ⟨by decide, by decide, by decide +kernel, (TxList.not_paysBump hlarge).2⟩

end Concrete

end Benzene
